import Mathlib.Algebra.GroupWithZero.Nat
import Taurus.Engine.Runner.Dispatch
import Taurus.Lib.Digraph

namespace taurus.engine.runner

open taurus.lib taurus.lib.Prog taurus.python taurus.engine.executor

/-- The row is a loop parent whose aggregation is still to come, whatever its status. -/
def is_loop_parent (row : NodeExec) : Bool :=
  !is_loop_child row && !(getJson row.adapter_state "loop_aggregated").truthy &&
    (row.node_type = "loop" || (getJson row.adapter_state "loop_items").truthy)

def _collect_loop_parent_rows : RunnerM (List NodeExec) := objects_filter is_loop_parent

/-- `node_key__startswith=f"{parent_key}__loop_"` -/
def hasChildPrefix (parent_key key : String) : Bool :=
  startswith key.toList (parent_key.toList ++ "__loop_".toList)

/-- The rows that aggregation takes for the children of a loop parent. -/
def child_rows (rows : List NodeExec) (parent_key : String) : List NodeExec :=
  rows.filter fun r => hasChildPrefix parent_key r.node_key

/-- The entry of one child in `loop_results`. -/
def loop_result (child : NodeExec) : Json :=
  .obj [("index", getJson child.adapter_state "loop_index"),
    ("item", getJson child.adapter_state "loop_item"),
    ("status", .int child.status.toInt),
    ("output", .obj child.output),
    ("error_message", .str (child.error_message.getD ""))]

def aggregateFields : List Field :=
  [.status, .output, .adapter_state, .finished_at, .duration_ms, .error_message, .update_datetime]

/-- The aggregated parent row over the given children. -/
def aggregated_row (env : Env) (parent_row : NodeExec) (children : List NodeExec) : NodeExec :=
  let any_failed := children.any (·.status = .FAILED)
  { parent_row with
    output := [("loop_results", .arr (children.map loop_result)),
      ("loop_count", .int children.length), ("loop_success", .bool (!any_failed))]
    status := if any_failed then .FAILED else .SUCCESS
    error_message := if any_failed then some "Some loop child nodes failed" else none
    finished_at := some env.now
    duration_ms :=
      if parent_row.started_at.isSome then duration_ms parent_row.started_at (some env.now)
      else parent_row.duration_ms
    adapter_state := Dict.set parent_row.adapter_state "loop_aggregated" (.bool true) }

/-- Aggregate a loop parent once all its children are terminal: how many rows
were completed. A parent without children counts as an empty loop. -/
def _aggregate_loop_children (env : Env) (parent_row : NodeExec) : RunnerM Nat := do
  let children ← objects_filter fun r => hasChildPrefix parent_row.node_key r.node_key
  let empty_loop :=
    (getJson parent_row.adapter_state "loop_items").truthy ∨ parent_row.node_type = "loop"
  if children = [] ∧ ¬ empty_loop then pure 0
  else if !children.all (·.status.terminal) then pure 0
  else do
    record (.aggregate parent_row)
    save env (aggregated_row env parent_row children) aggregateFields
    pure 1

/-- One aggregation pass over all loop parents. -/
def aggregate_loops (env : Env) : RunnerM Nat := do
  let loop_parents ← _collect_loop_parent_rows
  let counts ← Prog.forEach (_aggregate_loop_children env) loop_parents
  pure counts.sum

/-- `re.search(r"E(\d{4})", text)`: the number after the first such `E`. -/
def error_code : List Char → Option Nat
  | [] => none
  | c :: cs =>
    if c = 'E' ∧ (cs.take 4).length = 4 ∧ (cs.take 4).all isdecimal then digitsNat? (cs.take 4)
    else error_code cs

/-- An error text with a retryable code: E2xxx or E4xxx. -/
def is_retryable (message : Option String) : Bool :=
  match error_code (message.getD "").toList with
  | some code => (2000 ≤ code && code < 3000) || (4000 ≤ code && code < 5000)
  | none => false

/-- Put a row in the place of the one of its node and host, when its attempt is later. -/
def keep_latest (latest : List NodeExec) (r : NodeExec) : List NodeExec :=
  match latest with
  | [] => [r]
  | x :: rest =>
    if x.node_key = r.node_key ∧ x.host_id = r.host_id then
      (if x.attempt_no < r.attempt_no then r else x) :: rest
    else x :: keep_latest rest r

/-- For each node and host the failed row of the latest attempt, in first-seen order. -/
def latest_per_key_host (failed_rows : List NodeExec) : List NodeExec :=
  failed_rows.foldl keep_latest []

/-- The row of the next attempt. -/
def retry_row (env : Env) (execution : Execution) (node : Node) (user_id : Option Int)
    (row : NodeExec) : NodeExec :=
  let new_attempt := row.attempt_no + 1
  { node_key := row.node_key
    node_type := row.node_type
    node_name := row.node_name
    host_id := row.host_id
    dispatch_id := _make_dispatch_id execution.pk row.node_key row.host_id new_attempt
    status := .PENDING
    attempt_no := new_attempt
    fail_strategy := row.fail_strategy
    timeout_sec := row.timeout_sec
    queued_at :=
      if 0 < node.retry_delay_ms then some (env.now + node.retry_delay_ms * 1000) else some env.now
    update_datetime := some env.now
    user_id := match user_id with
      | some u => if u = 0 then row.user_id else some u
      | none => row.user_id
    last_error_code := row.last_error_code }

/-- A failed row that still has an attempt left and failed in a retryable way. -/
def wants_retry (dag : Dag) (row : NodeExec) : Option Node :=
  match dag.node? row.node_key with
  | none => none
  | some node =>
    if node.max_retries ≤ 0 ∨ node.max_retries ≤ row.attempt_no ∨
      ¬ is_retryable row.error_message then
      none
    else some node

/-- The rows `_retry_failed_rows` builds for the nodes that completed a row this tick. -/
def retry_rows (env : Env) (execution : Execution) (dag : Dag) (completed : List String)
    (user_id : Option Int) (rows : List NodeExec) : List NodeExec :=
  let failed_rows := rows.filter fun r => r.status = .FAILED ∧ completed.contains r.node_key
  (latest_per_key_host failed_rows).filterMap fun row =>
    (wants_retry dag row).map fun node => retry_row env execution node user_id row

/-- Create the rows of the next attempts; how many. -/
def _retry_failed_rows (env : Env) (execution : Execution) (dag : Dag) (completed : List String)
    (user_id : Option Int) : RunnerM Nat := do
  let rows ← objects_filter fun _ => true
  let retries := retry_rows env execution dag completed user_id rows
  if retries = [] then pure 0
  else do
    record (.retry completed retries)
    let _ ← bulk_create retries
    pure retries.length

/-- The keys a node has edges to, one for each edge. -/
def forward (dag : Dag) (key : String) : List String :=
  (dag.edges.filter (·.from_key = key)).map (·.to_key)

def indegree (dag : Dag) (key : String) : Int := (dag.incoming key).length

/-- The keys in breadth-first topological order, those on a cycle last. -/
def topological_order (dag : Dag) : List String :=
  let keys := dag.keys
  let s := kahn.loop (forward dag) keys.length (kahn.start (indegree dag) keys)
  s.order ++ keys.filter fun k => k ∉ s.visited

/-- The failure strategy of each node that has rows, by its last row. -/
def node_fail_strategies (rows : List NodeExec) (exec_fs : String) : Dict String String :=
  rows.foldl (fun d r =>
    let fs := if r.fail_strategy = "" then "fail_fast" else r.fail_strategy
    Dict.set d r.node_key (resolve_row_fail_strategy fs exec_fs)) []

/-- The rows of a node that is not run. -/
def skipped_rows (env : Env) (execution : Execution) (node : Node) (user_id : Option Int) :
    List NodeExec :=
  (_prep_node_rows env execution node user_id).map fun r => { r with
    status := .SKIPPED
    finished_at := some env.now
    adapter_state := [("skipped_reason", .str "upstream_conditions_not_met")] }

/-- The loop state of the skip pass: the statuses with the skips of this pass,
and the rows to insert. -/
structure SkipState where
  local_statuses : Dict String Status
  inserts : List NodeExec

/-- All sources of the edges into a node are terminal. -/
def all_upstream_terminal (dag : Dag) (statuses : Dict String Status) (key : String) : Bool :=
  (dag.incoming key).all fun e => (Dict.get? statuses e.from_key).any (·.terminal)

/-- One turn of the skip pass. `fires` are the edge values from before the pass. -/
def skip_node (env : Env) (execution : Execution) (dag : Dag) (user_id : Option Int)
    (already_keys : List String) (fires : Edge → Bool) (s : SkipState) (key : String) : SkipState :=
  match dag.node? key with
  | none => s
  | some node =>
    if already_keys.contains key || node.node_type = "start" || node.node_type = "end" then s
    else if dag.incoming key = [] then s
    else if !all_upstream_terminal dag s.local_statuses key then s
    else if (dag.incoming key).any fires then s
    else
      { local_statuses := Dict.set s.local_statuses key .SKIPPED
        inserts := s.inserts ++ skipped_rows env execution node user_id }

/-- The edge values the skip pass goes by. -/
def skip_fires (dag : Dag) (rows : List NodeExec) (ctx : EdgeCtx) (exec_fs : String) (e : Edge) :
    Bool :=
  let status_of := fun k => Dict.get? ctx.node_statuses k
  let strategies := node_fail_strategies rows exec_fs
  edge_bool status_of (edge_raw status_of (fun k => Dict.get? strategies k) ctx) dag.edges e

/-- The rows of the skip pass over the nodes in topological order. -/
def skip_inserts (env : Env) (execution : Execution) (dag : Dag) (rows : List NodeExec)
    (ctx : EdgeCtx) (user_id : Option Int) : List NodeExec :=
  let exec_fs := if execution.fail_strategy = "" then "fail_fast" else execution.fail_strategy
  let already_keys := rows.map (·.node_key)
  let fires := skip_fires dag rows ctx exec_fs
  ((topological_order dag).foldl (skip_node env execution dag user_id already_keys fires)
    { local_statuses := ctx.node_statuses, inserts := [] }).inserts

/-- Create SKIPPED rows for the nodes whose upstream is terminal while no edge
into them fired; how many. -/
def _mark_ineligible_nodes_skipped (env : Env) (execution : Execution) (dag : Dag) (ctx : EdgeCtx)
    (user_id : Option Int) : RunnerM Nat := do
  let existing_rows ← objects_filter fun _ => true
  let inserts := skip_inserts env execution dag existing_rows ctx user_id
  if inserts = [] then pure 0
  else do
    record (.skip execution ctx inserts)
    let _ ← bulk_create inserts
    pure inserts.length

/-- The status `_finalize_workflow_if_done` decides on, if the execution is done. -/
def final_status (dag : Dag) (rows : List NodeExec) : Option ExecStatus :=
  let rows := rows.filter fun r => r.node_type ≠ "start" ∧ r.node_type ≠ "end"
  let existing_keys := rows.map (·.node_key)
  let business := dag.nodes.filter fun n => n.node_type ≠ "start" ∧ n.node_type ≠ "end"
  if business.any fun n => n.node_key ≠ "" ∧ !existing_keys.contains n.node_key then none
  else if rows = [] ∧ business = [] then some .SUCCESS
  else if rows = [] then none
  else if !rows.all (·.status.terminal) then none
  else if rows.any (·.status = .CANCELLED) then some .CANCELLED
  else if rows.any (·.status = .FAILED) then some .FAILED
  else some .SUCCESS

def final_message : ExecStatus → Option String
  | .CANCELLED => some "cancelled"
  | .FAILED => some "has failed nodes"
  | _ => none

/-- Mark the execution as finished when all its business nodes are terminal. -/
def _finalize_workflow_if_done (env : Env) (dag : Dag) : RunnerM Bool := do
  let w ← getState
  match final_status dag w.rows with
  | none => pure false
  | some status => do
    modifyState fun w => { w with
      execution := w.execution.map fun x =>
        { x with status, error_message := final_message status, end_time := some env.now } }
    pure true

end taurus.engine.runner
