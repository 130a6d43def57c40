import Mathlib.Algebra.GroupWithZero.Nat
import Taurus.Lib.Thread
import Taurus.Engine.Concurrent.Database
import Taurus.Engine.Steps.Polled
import Taurus.Engine.Runner.Runs

namespace taurus.engine.concurrent

open taurus.lib.Thread (andThen raise fromExcept forEach)
open taurus.lib taurus.python taurus.engine.executor taurus.engine.runner

/-- A call of the runner, statement by statement. -/
abbrev Session (α : Type) : Type := Thread Stmt Stmt.Answer Exn α

def statement (c : Stmt) : Session c.Answer := Thread.statement c

def select : Session (List NodeExec) := statement .select

def select_execution : Session (Option Execution) := statement .select_execution

def select_for_update (p : NodeExec → Bool) : Session (List NodeExec) :=
  statement (.select_for_update p)

def insert (rows : List NodeExec) : Session (Option (List NodeExec)) := statement (.insert rows)

def save (source : Source) (env : Env) (row : NodeExec) (fields : List Field) : Session Unit :=
  statement (.update source row env.now fields)

def save_execution (change : Execution → Execution) : Session Unit :=
  statement (.update_execution change)

/-- `transaction.atomic()` -/
def transaction {α : Type} (body : Session α) : Session α :=
  andThen (statement .begin) fun _ => body.ending .commit .rollback

/-- A savepoint: its exceptions leave the surrounding transaction too, which undoes the same. -/
def savepoint {α : Type} (body : Session α) : Session α := body

def objects_filter (p : NodeExec → Bool) : Session (List NodeExec) := do
  let rows ← select
  pure (rows.filter p)

/-- Split a list: the first `room` elements, and the rest in pieces of `size + 1`. -/
def pieces {α : Type} (size : Nat) : Nat → List α → List α × List (List α)
  | _, [] => ([], [])
  | 0, a :: rest =>
    let (first, more) := pieces size size rest
    ([], (a :: first) :: more)
  | room + 1, a :: rest =>
    let (first, more) := pieces size room rest
    (a :: first, more)

/-- The batches of `bulk_create(rows, batch_size=500)`. -/
def batches {α : Type} (rows : List α) : List (List α) := (pieces 499 0 rows).2

def insert_batch (rows : List NodeExec) : Session (List NodeExec) := do
  match ← insert rows with
  | some created => pure created
  | none => raise (.IntegrityError "UNIQUE constraint failed")

def bulk_create (rows : List NodeExec) : Session (List NodeExec) := do
  let created ← forEach insert_batch (batches rows)
  pure created.flatten

def create_rows (rows : List NodeExec) : Session (List NodeExec) :=
  if rows = [] then pure [] else bulk_create rows

def refresh_ctx_from_db (ctx : EdgeCtx) : Session EdgeCtx := do
  let rows ← select
  pure (refresh_ctx rows ctx)

/-- Poll one loaded row; a poll that writes no column saves nothing. -/
def poll_one_row (env : Env) (execution : Execution) (row : NodeExec) : Session NodeExec := do
  let (new, fields) ← fromExcept (polled env execution row)
  if fields = [] then pure new
  else do
    save (.poll env execution row) env new fields
    pure new

def poll_phase (env : Env) (execution : Execution) : Session (Nat × List NodeExec) := do
  let running_rows ← objects_filter fun r => r.status = .RUNNING
  let polled ← forEach (poll_one_row env execution) running_rows
  pure (running_rows.length, polled)

def retry_failed_rows (env : Env) (execution : Execution) (dag : Dag) (completed : List String)
    (user_id : Option Int) : Session Nat := do
  let rows ← select
  let created ← create_rows (retry_rows env execution dag completed user_id rows)
  pure created.length

/-- `adapter.cancel` of a row's adapter class; any exception is an error. -/
def adapter_cancel (env : Env) (execution : Execution) (row : NodeExec) : Except Exn UnitOutput :=
  match env.get_class row.node_type with
  | .error e => .error e
  | .ok adapter =>
    match adapter.construct with
    | .error e => .error e
    | .ok _ =>
      adapter.cancel (_build_rendered_cfg env execution row row.rendered_params) row.adapter_state

/-- The row after its adapter, if it runs, was asked to cancel. -/
def cancel_answer (env : Env) (execution : Execution) (on_error : NodeExec → NodeExec)
    (row : NodeExec) : NodeExec :=
  if row.status = .RUNNING then
    match adapter_cancel env execution row with
    | .ok uo => (_apply_unit_output env row uo false).1
    | .error _ => on_error row
  else row

def cancel_row (env : Env) (execution : Execution) (user_id : Option Int) (message : String)
    (on_error : NodeExec → NodeExec) (row : NodeExec) : Session Unit :=
  save .other env (cancelled_row env user_id message (cancel_answer env execution on_error row))
    (cancelFields user_id)

def fail_fast_phase (env : Env) (execution : Execution) (user_id : Option Int) : Session Unit :=
  if execution.fail_strategy = "fail_fast" then do
    let failed ← objects_filter fun r => r.status = .FAILED
    if failed ≠ [] then do
      let rows ← select_for_update is_unfinished
      let _ ← forEach (cancel_row env execution user_id "fail_fast: upstream failed" id) rows
      pure ()
    else pure ()
  else pure ()

def aggregate_loop_children (env : Env) (parent_row : NodeExec) : Session Nat := do
  let children ← objects_filter fun r => hasChildPrefix parent_row.node_key r.node_key
  let empty_loop :=
    (getJson parent_row.adapter_state "loop_items").truthy ∨ parent_row.node_type = "loop"
  if children = [] ∧ ¬ empty_loop then pure 0
  else if !children.all (·.status.terminal) then pure 0
  else do
    save .other env (aggregated_row env parent_row children) aggregateFields
    pure 1

def aggregate_loops (env : Env) : Session Nat := do
  let loop_parents ← objects_filter is_loop_parent
  let counts ← forEach (aggregate_loop_children env) loop_parents
  pure counts.sum

/-- The rows `_expand_loop_children` builds for a loop node's output. -/
def loop_children (env : Env) (execution : Execution) (parent_row : NodeExec) (uo : UnitOutput)
    (user_id : Option Int) : Except Exn (List NodeExec) :=
  let loop_items := getJson uo.output "loop_items"
  let body := getJson uo.output "body_node_type"
  let raw_params := getJson uo.output "body_params"
  let body_params := if raw_params.truthy then raw_params else .obj []
  if !loop_items.truthy || !body.truthy then .ok []
  else match iterate loop_items with
  | none => .error (.other "TypeError" "object is not iterable")
  | some items => .ok (items.mapIdx fun i item =>
      loop_child env execution parent_row user_id (columnText body) body_params items.length i item)

def expand_loop_children (env : Env) (execution : Execution) (parent_row : NodeExec)
    (uo : UnitOutput) (user_id : Option Int) : Session Unit := do
  let child_rows ← fromExcept (loop_children env execution parent_row uo user_id)
  let _ ← create_rows child_rows
  pure ()

/-- A row checked and rendered for its adapter, or the text it fails with. -/
def prepared (env : Env) (dag : Dag) (ctx : EdgeCtx) (row : NodeExec) :
    Except Exn (String ⊕ (Adapter × Dict String Json)) :=
  match dispatch_node dag row with
  | none => .ok (.inl s!"E3120: node_key={row.node_key} not found in DAG")
  | some node =>
    match env.get_class row.node_type with
    | .error e => .ok (.inl s!"E3121: adapter load failed node_type='{row.node_type}' err={e.text}")
    | .ok adapter =>
      match adapter.construct with
      | .error e => .error e
      | .ok _ =>
        match render_node_config env adapter node (_build_workflow_context ctx) row.host_id
            row.attempt_no row.fail_strategy with
        | .error (.ValueError m) => .ok (.inl s!"E3122: render failed {m}")
        | .error e => .error e
        | .ok rendered =>
          match adapter.validate_config rendered.params with
          | .error e => .ok (.inl s!"E3124: validate_config exception {e.name}: {e.text}")
          | .ok vr =>
            if vr.ok then .ok (.inr (adapter, rendered.params))
            else .ok (.inl s!"E3123: {validation_message vr}")

def dispatch_answer (env : Env) (execution : Execution) (row : NodeExec) (uo : UnitOutput)
    (user_id : Option Int) : Session Unit := do
  let (new, fields) := accepted env row uo user_id
  save .other env new fields
  if uo.status.terminal && (getJson uo.output "loop_items").truthy then
    expand_loop_children env execution new uo user_id
  else pure ()

/-- The row of a dispatch that raised. -/
def dispatch_failed (env : Env) (row : NodeExec) (e : Exn) : NodeExec :=
  { row with
    status := .FAILED, finished_at := some env.now,
    error_message := some s!"E3125: dispatch exception {e.name}: {e.text}" }

def dispatch_row (env : Env) (execution : Execution) (dag : Dag) (ctx : EdgeCtx)
    (user_id : Option Int) (row : NodeExec) : Session Bool :=
  if row.status ≠ .PENDING then pure false
  else do
    match ← fromExcept (prepared env dag ctx row) with
    | .inl message => do
      save .other env (failed_row env row message) failFields
      pure false
    | .inr (adapter, rendered) => do
      let row := handed_row env row rendered user_id
      let _ ← statement (.dispatch row)
      match adapter.dispatch (_build_rendered_cfg env execution row rendered) with
      | .error e =>
        if user_id.isSome then do
          save .other env (dispatch_failed env row e)
            [.status, .started_at, .finished_at, .error_message, .rendered_params, .user_id,
            .update_datetime]
          pure false
        else raise (.ValueError "The following fields do not exist in this model")
      | .ok uo => do
        dispatch_answer env execution row uo user_id
        pure true

def dispatch_pending (env : Env) (execution : Execution) (dag : Dag)
    (candidate_rows : List NodeExec) (ctx : EdgeCtx) (user_id : Option Int) : Session Nat := do
  let accepted ← forEach (dispatch_row env execution dag ctx user_id) candidate_rows
  pure (accepted.count true)

def dispatch_phase (env : Env) (execution : Execution) (ver : DagVersion) (ctx : EdgeCtx)
    (user_id : Option Int) : Session (Nat × Nat × EdgeCtx) := do
  let all_rows ← select
  let (next_keys, ctx) :=
    compute_next_runnables ver.dag (node_rows all_rows) ctx execution.fail_strategy
  let newly_created ← create_rows
    (rows_for_keys env execution ver.dag user_id (node_rows all_rows) next_keys)
  let loop_pending_rows ← objects_filter fun r => r.status = .PENDING && is_loop_child r
  let newly_dispatched ← dispatch_pending env execution ver.dag
    (newly_created ++ loop_pending_rows) ctx user_id
  if 0 < newly_dispatched then do
    let ctx ← refresh_ctx_from_db ctx
    let aggregated ← aggregate_loops env
    pure (newly_dispatched, aggregated, ctx)
  else pure (newly_dispatched, 0, ctx)

def mark_ineligible_nodes_skipped (env : Env) (execution : Execution) (dag : Dag) (ctx : EdgeCtx)
    (user_id : Option Int) : Session Nat := do
  let existing_rows ← select
  let inserts ← create_rows (skip_inserts env execution dag existing_rows ctx user_id)
  pure inserts.length

def finalize_workflow_if_done (env : Env) (dag : Dag) : Session Bool := do
  let rows ← select
  match final_status dag rows with
  | none => pure false
  | some status => do
    save_execution (fun x =>
      { x with status, error_message := final_message status, end_time := some env.now })
    pure true

/-- The transactional part of a tick. -/
def advance_phases (env : Env) (execution : Execution) (ver : DagVersion) (ctx : EdgeCtx)
    (user_id : Option Int) (tick : AdvanceTick) (completed_keys_this_tick : List String) :
    Session AdvanceTick := do
  let _ ← retry_failed_rows env execution ver.dag completed_keys_this_tick user_id
  fail_fast_phase env execution user_id
  let aggregated ← aggregate_loops env
  let ctx ← refresh_ctx_from_db ctx
  let (newly_dispatched, aggregated_2, ctx) ← dispatch_phase env execution ver ctx user_id
  let newly_skipped ← mark_ineligible_nodes_skipped env execution ver.dag ctx user_id
  let finished ← finalize_workflow_if_done env ver.dag
  pure { tick with
    newly_completed := tick.newly_completed + aggregated + aggregated_2
    newly_dispatched, newly_skipped, finished }

/-- `advance_workflow`; `atomic` is what its transaction is in the caller's. -/
def advance_workflow (env : Env) (ver : DagVersion) (user_id : Option Int)
    (atomic : Session AdvanceTick → Session AdvanceTick) : Session AdvanceTick := do
  match ← select_execution with
  | none => raise (.WorkflowRunnerError "E3100: WorkflowExecution does not exist")
  | some execution => do
    let ctx := _build_edge_ctx execution ver
    let (polled, rows) ← poll_phase env execution
    let completed := rows.filter (·.status.terminal)
    atomic (advance_phases env execution ver ctx user_id
      { polled, newly_completed := completed.length } (completed.map (·.node_key)))

def cancel_workflow (env : Env) (reason : Option String) : Session Unit := transaction do
  match ← select_execution with
  | none => raise (.WorkflowRunnerError "E3040: WorkflowExecution does not exist")
  | some execution => do
    let rows ← objects_filter is_unfinished
    let message := if reason.getD "" = "" then "workflow cancelled" else reason.getD ""
    let _ ← forEach (cancel_row env execution none message fun row =>
      { row with
        status := .CANCELLED, finished_at := some env.now,
        adapter_state := cancel_error_state row.adapter_state }) rows
    save_execution (fun x => { x with status := .CANCELLED, end_time := some env.now })

/-- A call that may go on beside others: one that advances on behalf of a request, the
scheduler's in a transaction of its own, or a cancellation. -/
inductive Client where
  | advance (env : Env) (user_id : Option Int)
  | scheduled (env : Env)
  | cancel (env : Env) (reason : Option String)

/-- The statements of a call on an execution of `ver`. -/
def Client.session (ver : DagVersion) : Client → Session Unit
  | advance env user_id => do
    let _ ← advance_workflow env ver user_id transaction
    pure ()
  | scheduled env => do
    let _ ← transaction (advance_workflow env ver none savepoint)
    pure ()
  | cancel env reason => cancel_workflow env reason

/-- Calls around one execution and the database they share. -/
abbrev Sessions : Type := Threads Database Stmt Stmt.Answer Exn

/-- The calls of `clients` begin while nobody else uses the database. -/
def Sessions.start (ver : DagVersion) (w : World) (clients : List Client) : Sessions where
  shared := { execution := w.execution, table := w.table }
  threads := clients.map (·.session ver)

/-- One statement of the `i`-th call. -/
def Sessions.step : Sessions → Nat → Option Sessions := Threads.step exec

end taurus.engine.concurrent
