import Taurus.Lib.Program
import Taurus.Engine.Executor.Runnables

namespace taurus.engine.runner

open taurus.lib taurus.lib.Prog taurus.python taurus.engine.executor

/-- The legacy status of a workflow execution. -/
inductive ExecStatus where
  | PENDING
  | RUNNING
  | SUCCESS
  | FAILED
  | CANCELLED
  deriving DecidableEq, Repr, Inhabited

/-- The execution is over: success, failed or cancelled. -/
def ExecStatus.finished : ExecStatus → Bool
  | PENDING | RUNNING => false
  | SUCCESS | FAILED | CANCELLED => true

structure Execution where
  pk : Nat
  status : ExecStatus
  fail_strategy : String
  global_timeout_sec : Nat := 0
  trigger_params : Dict String Json := []
  trigger_type : String := "manual"
  error_message : Option String := none
  end_time : Option Time := none
  deriving Inhabited

/-- What a workflow brings to its executions. -/
structure Workflow where
  pk : Nat
  name : String
  fail_strategy : String := "fail_fast"
  global_timeout_sec : Nat := 0

/-- A released definition with the environment frozen with it. -/
structure DagVersion where
  dag : Dag
  workflow : Workflow
  global_envs : Dict String Json := []

/-- What the runner does to the outside world or is about to write. -/
inductive Act where
  | dispatch (row : NodeExec)
  | poll (row : NodeExec)
  | cancel (row : NodeExec)
  | create (rows : List NodeExec)
  | retry (completed : List String) (rows : List NodeExec)
  | expand (parent : NodeExec) (rows : List NodeExec)
  | aggregate (row : NodeExec)
  | skip (execution : Execution) (ctx : EdgeCtx) (rows : List NodeExec)

/-- A history entry: the act and the rows as they stood just before it. -/
structure Entry where
  act : Act
  before : List NodeExec

/-- The rows of one node, `node_rows_map.get(key) or []`. -/
def node_rows (rows : List NodeExec) (key : String) : List NodeExec :=
  rows.filter (·.node_key = key)

/-- The database as one execution sees it. `log` is a history variable that the
runner never reads. -/
structure World where
  execution : Option Execution
  table : Table
  log : List Entry

namespace World

def rows (w : World) : List NodeExec := w.table.rows

def initial : World := { execution := none, table := .empty, log := [] }

/-- Write `act` into the history. -/
def note (w : World) (act : Act) : World := { w with log := w.log ++ [{ act, before := w.rows }] }

/-- Leaving a transaction by an exception undoes its writes; what was asked of
the adapters stays done. -/
def rollback (entry now : World) : World := { entry with log := now.log }

end World

abbrev RunnerM := Prog World Exn

def record (act : Act) : RunnerM Unit := modifyState fun w => w.note act

/-- `row.save(update_fields=fields)` -/
def save (env : Env) (row : NodeExec) (fields : List Field) : RunnerM Unit :=
  modifyState fun w => { w with table := w.table.save row env.now fields }

/-- `WorkflowNodeExecution.objects.bulk_create(rows)`: the stored rows. -/
def bulk_create (rows : List NodeExec) : RunnerM (List NodeExec) := fun w =>
  match w.table.bulk_create rows with
  | some (table, created) => (.ok created, { w with table })
  | none => (.error (.IntegrityError "UNIQUE constraint failed"), w)

/-- The rows that satisfy a filter, in table order. -/
def objects_filter (p : NodeExec → Bool) : RunnerM (List NodeExec) := fun w =>
  (.ok (w.rows.filter p), w)

/-- `transaction.atomic()` -/
def transaction {α : Type} (m : RunnerM α) : RunnerM α := atomic World.rollback m

/-- Map the fail strategy of a workflow, or an explicit one, to the engine's. -/
def resolve_fail_strategy (workflow : Workflow) (explicit : Option String) : String :=
  let own := if workflow.fail_strategy = "continue" then "continue" else "fail_fast"
  match explicit with
  | some s =>
    if s = "fail_fast" ∨ s = "continue" then s
    else if s = "stop" then "fail_fast"
    else own
  | none => own

/-- Node types the global timeout applies to. -/
def _TIMEOUT_ELIGIBLE_NODE_TYPES : List String :=
  ["command", "script", "file_op", "program", "http", "http_callback", "sub_workflow", "approval",
    "email_notification", "webhook_notification"]

/-- The names a control node type may carry, with its own display name. -/
def _CANONICAL_TYPES : List (String × List String × String) :=
  [("start", ["Start node", "start", "Start"], "Start node"),
    ("end", ["End node", "end", "End"], "End node"),
    ("wait", ["Delayed wait", "Wait", "wait", "Delayed"], "Delayed wait"),
    ("noop", ["No-op", "noop", "Noop", "No-op node"], "No-op"),
    ("condition", ["Condition branch", "Condition", "condition", "Branch"], "Condition branch"),
    ("loop", ["Loop", "loop", "Loop node"], "Loop"),
    ("approval", ["Approval", "Approval node", "approval"], "Approval"),
    ("sub_workflow", ["Sub-workflow", "Sub-process", "sub_workflow", "SubWorkflow"],
      "Sub-workflow")]

/-- A control node that carries the name of another control type gets its own. -/
def _sanitize_canonical_node_name (node_type current_name : String) : String :=
  match _CANONICAL_TYPES.find? (·.1 = node_type) with
  | none => current_name
  | some (_, names, display) =>
    let name := String.ofList (strip current_name.toList)
    if name = "" then display
    else if names.contains name then name
    else if _CANONICAL_TYPES.any fun t => t.1 ≠ node_type ∧ t.2.1.contains name then display
    else name

/-- The idempotency key of one attempt of a node on a host. -/
def _make_dispatch_id (execution_id : Nat) (node_key host_id : String)
    (attempt_no : Nat := 1) : String :=
  let raw := s!"wfex-{execution_id}:{node_key}:{host_id}:{attempt_no}"
  let stem := String.ofList (node_key.toList.take 32)
  let hash := String.ofList ((sha1_hexdigest raw.toList).take 10)
  s!"wfex-{execution_id}-{stem}-{hash}"

/-- The text of the placeholder row of a node without valid hosts. -/
def E0301 : String :=
  "E0301: Node requires_host=True but no valid hosts configured. " ++
    "Please select target hosts (host_ids / target_hosts) in node properties, " ++
    "or bind assets at workflow level."

/-- The rows of a node, one for each host, not saved yet. A node that requires a
host and has none gets one FAILED placeholder row. -/
def _prep_node_rows (env : Env) (execution : Execution) (node : Node) (user_id : Option Int)
    (attempt_no : Nat := 1) : List NodeExec :=
  let node_name := _sanitize_canonical_node_name node.node_type
    (if node.node_name = "" then node.node_key else node.node_name)
  let timeout_sec :=
    if node.timeout_sec = 0 ∧ _TIMEOUT_ELIGIBLE_NODE_TYPES.contains node.node_type then
      execution.global_timeout_sec
    else node.timeout_sec
  let exec_fs := if execution.fail_strategy = "" then "fail_fast" else execution.fail_strategy
  let row (host_id : String) (status : Status) : NodeExec :=
    { node_key := node.node_key, node_type := node.node_type, node_name, host_id, attempt_no,
      dispatch_id := _make_dispatch_id execution.pk node.node_key host_id attempt_no,
      status, timeout_sec, user_id,
      fail_strategy := resolve_node_fail_strategy node.fail_strategy exec_fs,
      queued_at := some env.now, update_datetime := some env.now }
  match expand_hosts node with
  | [] =>
    [{ row NO_HOST_SENTINEL .FAILED with
        started_at := some env.now, finished_at := some env.now, error_message := some E0301 }]
  | host_ids => host_ids.map fun hid => row hid .PENDING

/-- The base context of edge conditions and interpolation, without node data. -/
def _build_edge_ctx (execution : Execution) (ver : DagVersion) : EdgeCtx where
  workflow := [("id", .int ver.workflow.pk), ("name", .str ver.workflow.name),
    ("env", .obj ver.global_envs), ("secrets", .obj [])]
  trigger := execution.trigger_params
  node_statuses := []
  node_outputs := []

/-- The priority by which the host statuses of a node are folded into one. -/
def statusOrder : Status → Nat
  | .SUCCESS => 0
  | .SKIPPED => 1
  | .PENDING => 2
  | .RUNNING => 3
  | .CANCELLED => 4
  | .FAILED => 5

def foldStatus (prev new : Status) : Status :=
  if statusOrder prev < statusOrder new then new else prev

/-- One turn of `_refresh_ctx_from_db` on the node statuses. -/
def refreshStatus (d : Dict String Status) (r : NodeExec) : Dict String Status :=
  match Dict.get? d r.node_key with
  | none => Dict.set d r.node_key r.status
  | some prev => Dict.set d r.node_key (foldStatus prev r.status)

/-- The node statuses of `_refresh_ctx_from_db`. -/
def refreshStatuses (rows : List NodeExec) : Dict String Status := rows.foldl refreshStatus []

/-- The output of a node with that of one more row: all hosts under `__by_host__`,
and the fields of the outputs seen until one has brought an `rc`. -/
def addOutput (agg : Dict String Json) (r : NodeExec) : Dict String Json :=
  let by_host := ((getJson agg "__by_host__").obj?).getD []
  let agg := Dict.set agg "__by_host__" (.obj (Dict.set by_host r.host_id (.obj r.output)))
  if Dict.contains agg "rc" then agg
  else Dict.update agg (r.output.filter (·.1 ≠ "__by_host__"))

/-- One turn of `_refresh_ctx_from_db` on the node outputs. -/
def refreshOutput (d : Dict String (Dict String Json)) (r : NodeExec) :
    Dict String (Dict String Json) :=
  if r.output.isEmpty then d
  else Dict.set d r.node_key (addOutput ((Dict.get? d r.node_key).getD []) r)

/-- The node outputs of `_refresh_ctx_from_db`. -/
def refreshOutputs (rows : List NodeExec) : Dict String (Dict String Json) :=
  rows.foldl refreshOutput []

/-- Sync the latest status and output of the rows into the context. -/
def refresh_ctx (rows : List NodeExec) (ctx : EdgeCtx) : EdgeCtx :=
  { ctx with node_statuses := refreshStatuses rows, node_outputs := refreshOutputs rows }

def _refresh_ctx_from_db (ctx : EdgeCtx) : RunnerM EdgeCtx := fun w =>
  (.ok (refresh_ctx w.rows ctx), w)

/-- The interpolation context of an edge context: every node under `node_<key>`. -/
def _build_workflow_context (ctx : EdgeCtx) : WorkflowContext :=
  let status (k : String) : Dict String Json :=
    match Dict.get? ctx.node_statuses k with
    | some s => [("status", .int s.toInt)]
    | none => []
  let outputs : Dict String Json := ctx.node_outputs.map fun (k, out) =>
    ("node_" ++ k, .obj (("output", .obj (out.filter (·.1 ≠ "__by_host__"))) :: status k))
  let bare := ctx.node_statuses.filter fun (k, _) => !Dict.contains ctx.node_outputs k
  { workflow_env := ((getJson ctx.workflow "env").obj?).getD []
    secrets := ((getJson ctx.workflow "secrets").obj?).getD []
    trigger_params := ctx.trigger
    node_outputs := outputs ++ bare.map fun (k, s) =>
      ("node_" ++ k, .obj [("output", .obj []), ("status", .int s.toInt)]) }

/-- The configuration of a row with its rendered params. -/
def _build_rendered_cfg (env : Env) (execution : Execution) (row : NodeExec)
    (params : Dict String Json) : RenderedNodeConfig where
  execution_id := execution.pk
  node_key := row.node_key
  node_name := if row.node_name = "" then row.node_key else row.node_name
  host_id := if row.host_id = "" then NO_HOST_SENTINEL else row.host_id
  dispatch_id := row.dispatch_id
  attempt_no := if row.attempt_no = 0 then 1 else row.attempt_no
  user_id := row.user_id.getD 0
  global_timeout_sec := row.timeout_sec
  secrets_mask := row.secrets_mask
  params := params
  triggered_at := row.started_at.getD env.now

end taurus.engine.runner
