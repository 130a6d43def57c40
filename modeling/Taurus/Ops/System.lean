import Taurus.Lib.Transition
import Taurus.Ops.Coroutine

namespace taurus.ops

open taurus.lib taurus.lib.transition taurus.python taurus.engine

/-- A running piece of code around one execution. -/
inductive Task where
  | execute (co : Coroutine)
  | orphan (handler : Handler)
  | cancel (canceller : Canceller)

/-- One execution with everything that runs around it. `pending` and `orphan` say that
`_poll_pending_executions` has the execution on one of its lists, `triggers` how many
websockets have found it pending and are about to trigger it. -/
structure System extends Shared where
  tasks : List Task := []
  pending : Bool := false
  orphan : Bool := false
  triggers : Nat := 0

/-- One observable step of the system. -/
inductive Event where
  | submit
  | list_pending
  | visit_pending
  | list_orphans (now : Time)
  | visit_orphan
  | connect
  | trigger
  | cancel
  | run (i : Nat) (now : Time) (answer : Answer)

namespace System

def spawn (s : System) (task : Task) : System := { s with tasks := s.tasks ++ [task] }

/-- Put the result of a task's step back. -/
def resume (s : System) (i : Nat) (x : Shared) (task : Task) : System :=
  { s with toShared := x, tasks := s.tasks.set i task }

/-- One task goes on to its next await. -/
def run_task (s : System) (i : Nat) (now : Time) (answer : Answer) : Task → Option System
  | .execute co => (execute_step now s.toShared co answer).map fun p => s.resume i p.1 (.execute p.2)
  | .orphan handler =>
    (orphan_step now s.toShared handler answer).map fun p => s.resume i p.1 (.orphan p.2)
  | .cancel c => (cancel_step now s.toShared c answer).map fun p => s.resume i p.1 (.cancel p.2)

def step (s : System) : Event → Option System
  | .submit => some (s.spawn (.execute .created))
  | .list_pending => some { s with pending := s.stored.any fun ops => ops.status = .PENDING }
  | .visit_pending =>
    if !s.pending then none
    else if s.entry = .absent then
      some ({ s with pending := false, entry := .placeholder }.spawn (.execute .created))
    else some { s with pending := false }
  | .list_orphans now => some { s with orphan := s.stored.any (is_orphan now) }
  | .visit_orphan =>
    if !s.orphan then none
    else if s.entry = .absent then
      some ({ s with orphan := false, entry := .placeholder }.spawn (.orphan .created))
    else some { s with orphan := false }
  | .connect =>
    some { s with triggers := if s.stored.any fun ops => ops.status = .PENDING then s.triggers + 1 else s.triggers }
  | .trigger =>
    if s.triggers = 0 then none
    else if s.entry = .queue then some { s with triggers := s.triggers - 1 }
    else some ({ s with triggers := s.triggers - 1, entry := .placeholder }.spawn
      (.execute .created))
  | .cancel => some (s.spawn (.cancel .created))
  | .run i now answer => s.tasks[i]?.bind (s.run_task i now answer)

/-- The system as an execution finds it: nothing runs yet. -/
def initial (stored : Option OpsExecution) : System := { stored }

/-- The status of the stored row, if it is terminal. -/
def terminal? (s : System) : Option OpsStatus :=
  s.stored.bind fun ops => if ops.status.terminal then some ops.status else none

/-- The terminal status is the stored one. -/
theorem terminal?_eq_some {s : System} {st : OpsStatus} :
    s.terminal? = some st ↔ ∃ ops, s.stored = some ops ∧ ops.status = st ∧ st.terminal = true := by
  simp only [terminal?, Option.bind_eq_some_iff, Option.ite_none_right_eq_some, Option.some.injEq]
  constructor
  · rintro ⟨ops, hs, hterm, rfl⟩
    exact ⟨ops, hs, rfl, hterm⟩
  · rintro ⟨ops, hs, rfl, hterm⟩
    exact ⟨ops, hs, hterm, rfl⟩

end System

/-- A command that has not been run yet. -/
def queued : OpsExecution :=
  { execution_id := "wfex-1-deploy", execution_type := "command", host_id := 1, status := .PENDING }

def onlineHost : Host := { pk := 1, host_ip := "10.0.0.1", online_status := 1 }

/-- The thread runs alone and without exceptions, and reads the row at the time `now`. -/
def System.undisturbed (now : Time) (s : System) : Event → Bool
  | .run 0 _ .raised => false
  | .run 0 t _ =>
    match s.tasks.head? with
    | some (.execute .entered) => t = now
    | _ => true
  | _ => false

end taurus.ops
