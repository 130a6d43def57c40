import Mathlib.Data.Finset.Sort
import Taurus.Engine.Runner.Advance

namespace taurus.scheduler

open taurus.engine taurus.engine.runner

/-- A row of the table of workflow executions, as far as the scheduler reads it. -/
structure WorkflowExecution where
  pk : Nat
  status : ExecStatus

structure ExecutionTable where
  rows : List WorkflowExecution
  pk_nodup : (rows.map (·.pk)).Nodup

/-- The executions that are running, ordered by primary key. -/
def ExecutionTable.running (t : ExecutionTable) : List Nat :=
  ((t.rows.filter (·.status = .RUNNING)).map (·.pk)).insertionSort (· ≤ ·)

/-- What one call of `_advance_running_workflows` finds: the table, whether the query
raises, `self._running` as each turn of the loop reads it, and what `advance_workflow`
answers for an execution. -/
structure Call where
  table : ExecutionTable
  query : Except Exn Unit
  running : Nat → Bool
  advance : Nat → Except Exn AdvanceTick

/-- The loop over the selected executions from the `i`-th turn on: how many were advanced,
and those that were passed to `advance_workflow`. -/
def Call.loop (c : Call) : Nat → List Nat → Nat × List Nat
  | _, [] => (0, [])
  | i, exec_id :: rest =>
    if c.running i then
      let (advanced, passed) := c.loop (i + 1) rest
      match c.advance exec_id with
      | .ok _ => (advanced + 1, exec_id :: passed)
      | .error _ => (advanced, exec_id :: passed)
    else (0, [])

def _advance_running_workflows (batch_size : Nat) (c : Call) : Nat × List Nat :=
  match c.query with
  | .error _ => (0, [])
  | .ok _ => c.loop 0 (c.table.running.take batch_size)

/-- The executions a call passes to `advance_workflow`. -/
def Call.passed (batch_size : Nat) (c : Call) : List Nat :=
  (_advance_running_workflows batch_size c).2

/-- The batch size of a command line option. -/
def batch_size (option : Int) : Nat := (max 1 option).toNat

end taurus.scheduler
