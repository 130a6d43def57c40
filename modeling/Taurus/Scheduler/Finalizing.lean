import Mathlib.Algebra.Order.Field.Rat
import Taurus.Lib.Thread
import Taurus.Ops.Coroutine
import Taurus.Scheduler.ScriptTasks

namespace taurus.scheduler

open taurus.lib taurus.python taurus.engine

/-! The worker creates the executions of a script task one after the other and marks its record; meanwhile the executions
run, and the end of each one may finalize the record. -/

/-- The call of the worker, once it has found the hosts. -/
structure Job where
  task : ScriptTask
  execution_id : Int
  trigger_type : Json
  host_refs : List String
  hosts : List Host

namespace Job

variable (env : Environment) (job : Job)

def batch_id : String := scheduler.batch_id env job.task job.execution_id

def outcomes : List (Option OpsExecution × Json) :=
  dispatch_hosts env job.task job.execution_id job.hosts

/-- The rows that the loop creates. -/
def created : List OpsExecution := (job.outcomes env).filterMap (·.1)

def mark : Mark where
  status := if job.created env ≠ [] then .success else .failed
  result :=
    some (.obj [("batch_id", .str (job.batch_id env)), ("script_id", .int job.task.script.id),
      ("script_name", .str job.task.script.name),
      ("dispatched_hosts", .int (job.created env).length),
    ("failed_hosts", .int ((job.outcomes env).length - (job.created env).length)),
    ("hosts_detail", .arr ((job.outcomes env).map (·.2))), ("trigger_source", job.trigger_type)])
  executed_hosts := some (job.host_refs.map .str)

/-- What the worker writes after its loop. -/
def close (tables : Tables) : Tables :=
  (_mark_execution env job.execution_id (job.mark env) tables).update_task job.task.id fun task =>
    { task with last_exec_result := some (if job.created env ≠ [] then "success"
      else "fail"), last_exec_time := some env.now }

/-- The worker's `dispatch` is the loop and then `close`. -/
example (tables : Tables) :
    dispatch env job.task job.execution_id job.trigger_type job.host_refs job.hosts tables =
    job.close env { tables with ops := tables.ops ++ job.created env } := rfl

end Job

/-- The row as the executions' coroutines read it. -/
def OpsExecution.stored (op : OpsExecution) : ops.OpsExecution where
  execution_id := op.execution_id
  batch_id := some op.batch_id
  execution_type := "script"
  script_type := some op.script_type
  host_id := op.host.toNat
  timeout_seconds := op.timeout_seconds
  status := op.status

/-! The finalizer. -/

/-- The statements of `_try_finalize_script_task_execution`. -/
inductive Query where
  | count_ops (batch_id : String)
  | count_pending (batch_id : String)
  | count_failed (batch_id : String)
  | find_execution (batch_id : String)
  | save_execution (task_exec : ScriptTaskExecution)

abbrev Query.Answer : Query → Type
  | .count_ops _ | .count_pending _ | .count_failed _ => Nat
  | .find_execution _ => Option ScriptTaskExecution
  | .save_execution _ => Unit

abbrev Finalizer := Thread Query Query.Answer Empty Unit

def host_summary (total_ops failed_ops : Nat) : Json :=
  .obj [("total", .int total_ops), ("success", .int (total_ops - failed_ops)),
    ("failed", .int failed_ops), ("timeout", .int 0)]

namespace ScriptTaskExecution

variable (task_exec : ScriptTaskExecution)

/-- `task_exec.result or {}`; what is found by its batch is an object. -/
def result_dict : Dict String Json := task_exec.result.obj?.getD []

def finalized (total_ops failed_ops : Nat) (now : Time) : ScriptTaskExecution :=
  { task_exec with
    status := if failed_ops = 0 then .success else .failed
    end_time := some now
    duration := task_exec.start_time.map fun start_time => (now - start_time).tdiv (Time.seconds 1)
    result := .obj (Dict.set task_exec.result_dict "host_summary" (host_summary total_ops failed_ops)) }

/-- `result__batch_id=batch_id` -/
def in_batch (batch_id : String) : Bool :=
  isText (getJson task_exec.result_dict "batch_id") batch_id

/-- `save(update_fields=['status', 'end_time', 'duration', 'result', …])` on the row
that is stored. -/
def save_over (stored : ScriptTaskExecution) : ScriptTaskExecution :=
  { stored with
    status := task_exec.status
    end_time := task_exec.end_time
    duration := task_exec.duration
    result := task_exec.result }

end ScriptTaskExecution

namespace finalizer

/-- One statement of the finalizer. -/
def ask (q : Query) : Thread Query Query.Answer Empty q.Answer := Thread.statement q

variable (now : Time) (batch_id : String)

def save_summary (total_ops failed_ops : Nat) : Option ScriptTaskExecution → Finalizer
  | none => pure ()
  | some task_exec => ask (.save_execution (task_exec.finalized total_ops failed_ops now))

def look_up (total_ops failed_ops : Nat) : Finalizer :=
  ask (.find_execution batch_id) >>= save_summary now total_ops failed_ops

def count_failed (total_ops : Nat) : Finalizer :=
  ask (.count_failed batch_id) >>= look_up now batch_id total_ops

def count_pending (total_ops : Nat) : Finalizer :=
  ask (.count_pending batch_id) >>= fun pending : Nat =>
    if pending > 0 then pure () else count_failed now batch_id total_ops

def count_ops : Finalizer :=
  ask (.count_ops batch_id) >>= fun total_ops : Nat =>
    if total_ops = 0 then pure () else count_pending now batch_id total_ops

end finalizer

def _try_finalize_script_task_execution (now : Time) (batch_id : String) : Finalizer :=
  if batch_id = "" then pure ()
  else if !startswith batch_id.toList "st-".toList then pure ()
  else finalizer.count_ops now batch_id

/-! The worker and the executions together. -/

/-- The tables with the rows of the batch apart (`tables.ops` are those of others), what the worker
has still to do, and what the thread of the coroutines' database calls is doing. -/
structure Dispatching where
  tables : Tables
  rows : List ops.OpsExecution := []
  todo : List OpsExecution
  marked : Bool := false
  finalizer : Finalizer := pure ()

namespace Dispatching

def ops_in (s : Dispatching) (batch_id : String) (p : ops.OpsExecution → Bool) : Nat :=
  s.rows.countP fun row => row.batch_id = some batch_id ∧ p row

def is_pending (row : ops.OpsExecution) : Bool := row.status = .PENDING ∨ row.status = .RUNNING

/-- `Q(status=3) | Q(exit_code__isnull=False) & ~Q(exit_code=0)` -/
def is_failed (row : ops.OpsExecution) : Bool := row.status = .FAILED ∨ row.exit_code.any (· ≠ 0)

def execute (s : Dispatching) : (q : Query) → q.Answer × Dispatching
  | .count_ops batch_id => (s.ops_in batch_id fun _ => true, s)
  | .count_pending batch_id => (s.ops_in batch_id is_pending, s)
  | .count_failed batch_id => (s.ops_in batch_id is_failed, s)
  | .find_execution batch_id => (s.tables.executions.find? (·.in_batch batch_id), s)
  | .save_execution task_exec =>
    ((), { s with tables := s.tables.update_execution task_exec.id task_exec.save_over })

/-- A step of the worker (`create`, `mark`), of the execution in row `i`, or the next statement of
the finalizer. The coroutines make their database calls in one thread, so a row ends while no
finalizer is at work. -/
inductive Event where
  | create
  | mark
  | start (i : Nat) (now : Time)
  | finish (i : Nat) (attempt : ops.Attempt) (now : Time)
  | interrupt (i : Nat) (is_running : Bool) (now : Time)
  | query

def step (env : Environment) (job : Job) (s : Dispatching) : Event → Option Dispatching
  | .create =>
    match s.todo with
    | [] => none
    | op :: todo => some { s with rows := s.rows ++ [op.stored], todo }
  | .mark =>
    if s.todo = [] ∧ !s.marked then
      some { s with tables := job.close env s.tables, marked := true }
    else none
  | .start i now =>
    match s.rows[i]? with
    | some row =>
      if row.status = .PENDING then
        some { s with rows := s.rows.set i (ops.mark_running now row) }
      else none
    | none => none
  | .finish i attempt now =>
    match s.finalizer, s.rows[i]? with
    | .done _, some row =>
      if row.status = .RUNNING then
        some { s with
          rows := s.rows.set i (ops.update_execution_success now row attempt)
          finalizer := _try_finalize_script_task_execution now (row.batch_id.getD "") }
      else none
    | _, _ => none
  | .interrupt i is_running now =>
    match s.finalizer, s.rows[i]? with
    | .done _, some row =>
      if row.status = .RUNNING then
        some { s with rows := s.rows.set i (ops.mark_interrupted now row is_running) }
      else none
    | _, _ => none
  | .query =>
    match s.finalizer with
    | .done _ => none
    | .ask q k => some { (s.execute q).2 with finalizer := k (s.execute q).1 }

/-- The worker has found the hosts. -/
def initial (env : Environment) (job : Job) (tables : Tables) : Dispatching :=
  { tables, todo := job.created env }

def run (env : Environment) (job : Job) (s : Dispatching) (events : List Event) :
    Option Dispatching :=
  events.foldlM (step env job) s

/-- A run is continued by one event. -/
theorem run_append {env : Environment} {job : Job} {s s' : Dispatching} {events : List Event}
    {event : Event} :
    run env job s (events ++ [event]) = some s' ↔
      ∃ t, run env job s events = some t ∧ step env job t event = some s' := by
  simp [run, List.foldlM_append, Option.bind_eq_some_iff]

end Dispatching

/-- A row of a batch with the columns of the canary. -/
structure CanaryRow extends ops.OpsExecution where
  pilot_count : Int := 2
  pilot_success_rate : Int := 100

namespace OpsCanaryService

inductive Health where
  | pass
  | fail
  | waiting
  deriving DecidableEq

def Health.text : Health → String
  | pass => "pass"
  | fail => "fail"
  | waiting => "waiting"

structure Stats where
  total : Nat := 0
  success : Nat := 0
  failed : Nat := 0
  running : Nat := 0
  pending : Nat := 0
  interrupted : Nat := 0

def Stats.json (stats : Stats) : Json :=
  .obj [("total", .int stats.total), ("success", .int stats.success), ("failed", .int stats.failed),
    ("running", .int stats.running), ("pending", .int stats.pending),
    ("interrupted", .int stats.interrupted)]

/-- The pilot hosts, and the remaining ones. -/
def split_pilot_batch {α : Type} (hosts : List α) (pilot_count : Int) : List α × List α :=
  let n := pilot_count.toNat
  if n = 0 ∨ n ≥ hosts.length then ([], hosts) else (hosts.take n, hosts.drop n)

/-- One turn of the loop over the executions. -/
def count (stats : Stats) (status : ops.OpsStatus) : Stats :=
  let stats := { stats with total := stats.total + 1 }
  match status with
  | .SUCCESS => { stats with success := stats.success + 1 }
  | .FAILED | .REJECTED => { stats with failed := stats.failed + 1 }
  | .RUNNING => { stats with running := stats.running + 1 }
  | .ABORTED => { stats with interrupted := stats.interrupted + 1 }
  | .PENDING | .APPROVING => { stats with pending := stats.pending + 1 }

def check_pilot_health (executions : List ops.OpsStatus) (success_rate : Int) : Health × Stats :=
  let stats := executions.foldl count {}
  if stats.total = 0 then (.waiting, stats)
  else if stats.running + stats.pending > 0 then (.waiting, stats)
  else
    let ratio : Rat := stats.success * 100 / stats.total
    let threshold : Int := max 0 (min 100 (if success_rate = 0 then 100 else success_rate))
    (if ratio ≥ threshold then .pass else .fail, stats)

end OpsCanaryService

open OpsCanaryService in
/-- The result with the verdict of the canary. The rows stand in the order of their creation; the
query begins with the latest. -/
def with_canary (rows : List CanaryRow) (total_ops : Nat) (result : Dict String Json) :
    Dict String Json :=
  let first_ops := rows.getLast?
  let pilot_count : Int := (first_ops.map (·.pilot_count)).getD 0
  let pilot_success_rate : Int := (first_ops.map (·.pilot_success_rate)).getD 100
  let pilot_threshold : Int := if pilot_success_rate = 0 then 100 else pilot_success_rate
  if pilot_count > 0 ∧ pilot_count < total_ops then
    let (decision, stats) := check_pilot_health (rows.reverse.map (·.status)) pilot_threshold
    Dict.set result "canary" (.obj [("pilot_count", .int pilot_count), ("threshold",
      .int pilot_threshold), ("decision", .str decision.text), ("stats", stats.json)])
  else result

/-- What the finalizer makes of the record, with the service of the canary. -/
def finalized_with_canary (rows : List CanaryRow) (now : Time) (task_exec : ScriptTaskExecution) :
    ScriptTaskExecution :=
  let total_ops := rows.length
  let failed_ops := rows.countP fun row => Dispatching.is_failed row.toOpsExecution
  if rows = [] ∨ rows.any (fun row => Dispatching.is_pending row.toOpsExecution) then task_exec
  else
    let saved := task_exec.finalized total_ops failed_ops now
    { saved with result := .obj (with_canary rows total_ops saved.result_dict) }

/-- The decision under `result.canary`. -/
def ScriptTaskExecution.canary_decision (task_exec : ScriptTaskExecution) : Option String :=
  match getJson task_exec.result_dict "canary" with
  | .obj canary =>
    match getJson canary "decision" with
    | .str decision => some decision
    | _ => none
  | _ => none

end taurus.scheduler
