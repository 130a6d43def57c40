import Taurus.Engine.Runner.Passes

namespace taurus.engine.runner

open taurus.lib taurus.lib.Prog taurus.python taurus.engine.executor

structure TriggerResult where
  execution_id : Nat
  initial_runnables : List String

structure AdvanceTick where
  polled : Nat := 0
  newly_completed : Nat := 0
  newly_dispatched : Nat := 0
  newly_skipped : Nat := 0
  finished : Bool := false

/-- A control node's row, reached at once. -/
def reached (env : Env) (row : NodeExec) : NodeExec :=
  { row with
    status := .SUCCESS, queued_at := some env.now, started_at := some env.now,
    finished_at := some env.now }

/-- The rows of a runnable node; those of an end node are reached at once. -/
def runnable_rows (env : Env) (execution : Execution) (user_id : Option Int) (node : Node) :
    List NodeExec :=
  let rows := _prep_node_rows env execution node user_id
  if node.node_type = "end" then rows.map fun r => { reached env r with duration_ms := some 0 }
  else rows

/-- The rows of the runnable keys that have none yet. -/
def rows_for_keys (env : Env) (execution : Execution) (dag : Dag) (user_id : Option Int)
    (existing : String → List NodeExec) (keys : List String) : List NodeExec :=
  keys.flatMap fun nk =>
    if existing nk ≠ [] then []
    else match dag.node? nk with
    | none => []
    | some node => runnable_rows env execution user_id node

/-- `bulk_create` of runnable rows, when there are any. -/
def create_rows (rows : List NodeExec) : RunnerM (List NodeExec) :=
  if rows = [] then pure []
  else do
    record (.create rows)
    bulk_create rows

/-- The rows of the start nodes, reached at once. -/
def start_rows (env : Env) (execution : Execution) (dag : Dag) (user_id : Option Int) :
    List NodeExec :=
  (dag.nodes.filter (·.node_type = "start")).flatMap fun node =>
    (_prep_node_rows env execution node user_id).map (reached env)

/-- After the first dispatch, end nodes that have become runnable are reached. -/
def reach_end_nodes (env : Env) (execution : Execution) (ver : DagVersion) (user_id : Option Int) :
    RunnerM Unit := do
  let w ← getState
  let ctx2 ← _refresh_ctx_from_db (_build_edge_ctx execution ver)
  let (sync_runnables, _) :=
    compute_next_runnables ver.dag (node_rows w.rows) ctx2 execution.fail_strategy
  let _ ← Prog.forEach (fun nk =>
    match ver.dag.node? nk with
    | none => pure []
    | some node =>
      if node.node_type ≠ "end" then pure []
      else create_rows (runnable_rows env execution user_id node)) sync_runnables
  pure ()

/-- The part of `trigger_workflow` after the execution is created. -/
def start_execution (env : Env) (execution : Execution) (ver : DagVersion) (user_id : Option Int) :
    RunnerM TriggerResult := do
  let ctx := _build_edge_ctx execution ver
  let (runnables, ctx) :=
    compute_next_runnables ver.dag (fun _ => []) ctx execution.fail_strategy
  let inserts ← create_rows (start_rows env execution ver.dag user_id ++
    rows_for_keys env execution ver.dag user_id (fun _ => []) runnables)
  let _ ← _dispatch_pending env execution ver.dag inserts ctx user_id
  reach_end_nodes env execution ver user_id
  let _ ← _finalize_workflow_if_done env ver.dag
  pure { execution_id := execution.pk, initial_runnables := runnables }

/-- Create an execution of a released version and dispatch its first nodes. -/
def trigger_workflow (env : Env) (ver : DagVersion) (execution_id : Nat)
    (trigger_params : Dict String Json) (trigger_type : String) (user_id : Option Int)
    (fail_strategy : Option String) : RunnerM TriggerResult := transaction do
  if ver.dag.nodes = [] then
    raise (.WorkflowRunnerError "E3003: dag_version is missing nodes definition")
  else do
    let execution : Execution :=
      { pk := execution_id, status := .RUNNING,
        fail_strategy := resolve_fail_strategy ver.workflow fail_strategy,
        global_timeout_sec := ver.workflow.global_timeout_sec, trigger_params, trigger_type }
    modifyState fun w => { w with execution := some execution }
    start_execution env execution ver user_id

/-- The columns saved by a forced cancellation. -/
def cancelFields (user_id : Option Int) : List Field :=
  [.status, .finished_at, .error_message, .adapter_state, .output, .output_refs, .exit_code,
    .duration_ms, .update_datetime] ++ (if user_id.isSome then [.user_id] else [])

/-- The mark a failed adapter cancel leaves in the adapter state. -/
def cancel_error_state (state : Dict String Json) : Dict String Json :=
  let runner := ((getJson state "__runner__").obj?).getD []
  Dict.set state "__runner__" (.obj (Dict.set runner "cancel_error" (.bool true)))

/-- The row after its adapter, if it runs, was asked to cancel. `on_error` is what
a failing adapter leaves behind. -/
def cancel_answer (env : Env) (execution : Execution) (on_error : NodeExec → NodeExec)
    (row : NodeExec) : RunnerM NodeExec :=
  if row.status = .RUNNING then do
    match ← cancel_adapter env execution row with
    | .ok uo => pure (_apply_unit_output env row uo false).1
    | .error _ => pure (on_error row)
  else pure row

/-- The row forced to CANCELLED, whatever its adapter answered. -/
def cancelled_row (env : Env) (user_id : Option Int) (message : String)
    (row : NodeExec) : NodeExec :=
  { row with
    status := .CANCELLED
    finished_at := if row.status = .CANCELLED then row.finished_at else row.finished_at.or (some env.now)
    error_message := if row.error_message.getD "" = "" then some message else row.error_message
    user_id := user_id.or row.user_id }

/-- Cancel one loaded row. -/
def cancel_row (env : Env) (execution : Execution) (user_id : Option Int) (message : String)
    (on_error : NodeExec → NodeExec) (row : NodeExec) : RunnerM Unit := do
  let row ← cancel_answer env execution on_error row
  save env (cancelled_row env user_id message row) (cancelFields user_id)

def is_unfinished (row : NodeExec) : Bool := row.status = .PENDING || row.status = .RUNNING

/-- Cancel an execution with all its unfinished rows. -/
def cancel_workflow (env : Env) (reason : Option String) : RunnerM Unit := transaction do
  let w ← getState
  match w.execution with
  | none => raise (.WorkflowRunnerError "E3040: WorkflowExecution does not exist")
  | some execution => do
    let rows ← objects_filter is_unfinished
    let message := if reason.getD "" = "" then "workflow cancelled" else reason.getD ""
    let _ ← Prog.forEach (cancel_row env execution none message fun row =>
      { row with
        status := .CANCELLED, finished_at := some env.now,
        adapter_state := cancel_error_state row.adapter_state }) rows
    modifyState fun w => { w with
      execution := w.execution.map fun x =>
        { x with status := .CANCELLED, end_time := some env.now } }

/-- The fail-fast strategy: cancel everything unfinished. -/
def _apply_fail_fast_cancel (env : Env) (execution : Execution) (user_id : Option Int) :
    RunnerM Unit := do
  let rows ← objects_filter is_unfinished
  let _ ← Prog.forEach
    (cancel_row env execution user_id "fail_fast: upstream failed" id) rows
  pure ()

/-- Phase 2.1: one failed row cancels the rest under fail_fast. -/
def fail_fast_phase (env : Env) (execution : Execution) (user_id : Option Int) : RunnerM Unit := do
  let failed ← objects_filter fun r => r.status = .FAILED
  if execution.fail_strategy = "fail_fast" ∧ failed ≠ [] then
    _apply_fail_fast_cancel env execution user_id
  else pure ()

/-- Phases 5 to 5.2: create the runnable nodes, dispatch them with the pending
loop children, and aggregate the loops that ended at once. -/
def dispatch_phase (env : Env) (execution : Execution) (ver : DagVersion) (ctx : EdgeCtx)
    (user_id : Option Int) : RunnerM (Nat × Nat × EdgeCtx) := do
  let w ← getState
  let (next_keys, ctx) :=
    compute_next_runnables ver.dag (node_rows w.rows) ctx execution.fail_strategy
  let newly_created ← create_rows
    (rows_for_keys env execution ver.dag user_id (node_rows w.rows) next_keys)
  let loop_pending_rows ← objects_filter fun r => r.status = .PENDING && is_loop_child r
  let newly_dispatched ← _dispatch_pending env execution ver.dag
    (newly_created ++ loop_pending_rows) ctx user_id
  if 0 < newly_dispatched then do
    let ctx ← _refresh_ctx_from_db ctx
    let aggregated ← aggregate_loops env
    pure (newly_dispatched, aggregated, ctx)
  else pure (newly_dispatched, 0, ctx)

/-- Phases 3 to 7: refresh the context, dispatch, skip and finalize. -/
def schedule_phases (env : Env) (execution : Execution) (ver : DagVersion) (ctx : EdgeCtx)
    (user_id : Option Int) (tick : AdvanceTick) : RunnerM AdvanceTick := do
  let ctx ← _refresh_ctx_from_db ctx
  let (newly_dispatched, aggregated, ctx) ← dispatch_phase env execution ver ctx user_id
  let newly_skipped ← _mark_ineligible_nodes_skipped env execution ver.dag ctx user_id
  let finished ← _finalize_workflow_if_done env ver.dag
  pure { tick with
    newly_completed := tick.newly_completed + aggregated
    newly_dispatched, newly_skipped, finished }

/-- The transactional part of a tick. -/
def advance_phases (env : Env) (execution : Execution) (ver : DagVersion) (ctx : EdgeCtx)
    (user_id : Option Int) (tick : AdvanceTick) (completed_keys_this_tick : List String) :
    RunnerM AdvanceTick := do
  let _ ← _retry_failed_rows env execution ver.dag completed_keys_this_tick user_id
  fail_fast_phase env execution user_id
  let aggregated ← aggregate_loops env
  schedule_phases env execution ver ctx user_id
    { tick with newly_completed := tick.newly_completed + aggregated }

/-- Phase 2: poll all running rows. -/
def poll_phase (env : Env) (execution : Execution) : RunnerM (Nat × List NodeExec) := do
  let running_rows ← objects_filter fun r => r.status = .RUNNING
  let polled ← Prog.forEach (_poll_one_row env execution) running_rows
  pure (running_rows.length, polled)

/-- Advance an execution by one step. The poll phase is outside the transaction. -/
def advance_workflow (env : Env) (ver : DagVersion) (user_id : Option Int) :
    RunnerM AdvanceTick := do
  let w ← getState
  match w.execution with
  | none => raise (.WorkflowRunnerError "E3100: WorkflowExecution does not exist")
  | some execution => do
    let ctx := _build_edge_ctx execution ver
    let (polled, rows) ← poll_phase env execution
    let completed := rows.filter (·.status.terminal)
    transaction (advance_phases env execution ver ctx user_id
      { polled, newly_completed := completed.length } (completed.map (·.node_key)))

/-- The scheduler's call of `advance_workflow`, in a transaction of its own. -/
def scheduled_advance (env : Env) (ver : DagVersion) : RunnerM AdvanceTick :=
  transaction (advance_workflow env ver none)

end taurus.engine.runner
