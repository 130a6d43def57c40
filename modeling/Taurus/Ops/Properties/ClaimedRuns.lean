import Taurus.Ops.Exclusion
import Taurus.Ops.System

namespace taurus.ops

open taurus.lib taurus.lib.transition taurus.python taurus.engine

/-- The thread is through. -/
def System.finished (s : System) : Bool :=
  match s.tasks with
  | [.execute .done] => true
  | _ => false

/-- The command was passed to the executor, or the row is terminal. -/
def System.attended (s : System) : Bool := 0 < s.started || s.terminal?.isSome

/-- How many awaits of the coroutine are left, at most. -/
def Coroutine.rank : Coroutine → Nat
  | .created => 8
  | .entered => 7
  | .loaded .. => 6
  | .ready .. => 5
  | .connecting _ => 4
  | .executing _ => 3
  | .reporting .. => 2
  | .leaving => 1
  | .done => 0

namespace System

variable {s s' : System} {co : Coroutine} {now : Time} {e : Event}

/-- What an undisturbed step does to a system that consists of the thread. -/
theorem alone_move (htasks : s.tasks = [.execute co]) (hC : s.undisturbed now e = true)
    (h : s.step e = some s') :
    ∃ t answer x co', answer ≠ .raised ∧ (co = .entered → t = now) ∧
      ExecuteMove t s.toShared answer co x co' ∧
        s' = { s with toShared := x, tasks := [.execute co'] } := by
  have hi : s.tasks[0]? = some (.execute co) := by rw [htasks]; rfl
  cases e with
  | run i t answer =>
    cases i with
    | succ i => cases hC
    | zero =>
      have hanswer : answer ≠ .raised := by
        rintro rfl
        cases hC
      have ht : co = .entered → t = now := by
        rintro rfl
        cases answer <;> simp_all [undisturbed]
      simp only [step, hi, Option.bind_some, run_task] at h
      obtain ⟨p, hp, rfl⟩ := Option.map_eq_some_iff.mp h
      exact ⟨t, answer, p.1, p.2, hanswer, ht, execute_move hp, by simp [resume, htasks]⟩
  | _ => cases hC

end System

/-- The thread leaves the claimed row to itself: it finds a queue in the map or takes the
row for one that runs. -/
structure Idle (entry : QueueEntry) (stored : OpsExecution) (s : System) : Prop where
  stored : s.stored = some stored
  started : s.started = 0
  task : (s.tasks = [.execute .created] ∧ s.entry = entry) ∨
    (s.tasks = [.execute .entered] ∧ entry ≠ .queue) ∨
    s.tasks = [.execute .leaving] ∨ s.tasks = [.execute .done]

/-- The thread is on its way to the executor, or has been there. -/
structure Working (stored : OpsExecution) (s : System) : Prop where
  task : ∃ co, s.tasks = [.execute co] ∧
    match co with
    | .created => s.entry ≠ .queue ∧ s.stored = some stored
    | .entered => s.stored = some stored
    | .executing _ => 0 < s.started
    | .leaving | .done => s.attended = true
    | _ => True

namespace Idle

variable {entry : QueueEntry} {stored : OpsExecution} {s s' : System} {now : Time} {e : Event}

theorem step (h : Idle entry stored s)
    (hguarded : entry ≠ .queue → ∀ host, guarded now stored host = .leaving)
    (hC : s.undisturbed now e = true) (hstep : s.step e = some s') : Idle entry stored s' := by
  obtain ⟨hstored, hstarted, ⟨htasks, hentry⟩ | ⟨htasks, hentry⟩ | htasks | htasks⟩ := h
  all_goals obtain ⟨t, answer, x, co', hanswer, ht, hm, rfl⟩ := System.alone_move htasks hC hstep
  · cases hm with
    | skip => exact ⟨hstored, hstarted, Or.inr (Or.inr (Or.inr rfl))⟩
    | enter hne => exact ⟨hstored, hstarted, Or.inr (Or.inl ⟨rfl, hentry ▸ hne⟩)⟩
    | raised => exact absurd rfl hanswer
  · cases hm with
    | missing hnone => simp [hstored] at hnone
    | read ops host hs =>
      obtain rfl : stored = ops := Option.some.inj (hstored.symm.trans hs)
      rw [ht rfl, hguarded hentry host]
      exact ⟨hstored, hstarted, Or.inr (Or.inr (Or.inl rfl))⟩
    | raised => exact absurd rfl hanswer
  · cases hm with
    | leave => exact ⟨hstored, hstarted, Or.inr (Or.inr (Or.inr rfl))⟩
    | raised => exact absurd rfl hanswer
  · cases hm with
    | raised => exact absurd rfl hanswer

end Idle

namespace Working

variable {stored : OpsExecution} {s s' : System} {now : Time} {e : Event}

theorem step (h : Working stored s)
    (hguarded : ∀ host, guarded now stored host = .loaded stored host)
    (hC : s.undisturbed now e = true) (hstep : s.step e = some s') : Working stored s' := by
  obtain ⟨co, htasks, hco⟩ := h
  obtain ⟨t, answer, x, co', hanswer, ht, hm, rfl⟩ := System.alone_move htasks hC hstep
  refine ⟨co', rfl, ?_⟩
  cases hm with
  | skip hq => exact absurd hq hco.1
  | enter => exact hco.2
  | missing hnone => simp [hco] at hnone
  | read ops host hs =>
    obtain rfl : stored = ops := Option.some.inj (hco.symm.trans hs)
    rw [ht rfl, hguarded host]
    trivial
  | start => exact Nat.succ_pos _
  | report ops attempt =>
    have hterm : (update_execution_success t ops attempt).status.terminal = true := by
      simp only [update_execution_success]
      split_ifs <;> rfl
    simp [System.attended, System.terminal?, hterm]
  | leave => exact hco
  | raised => exact absurd rfl hanswer
  | mark | refuse | connect | fail | finish => trivial

/-- A working coroutine attends it to the end. -/
theorem attended (h : Working stored s) (hfinished : s.finished = true) : s.attended = true := by
  obtain ⟨co, htasks, hco⟩ := h
  cases co <;> simp_all [System.finished]

end Working

/-- A row that was put back to pending an hour after its first start. -/
def restarted : OpsExecution := { queued with started_at := some (Time.seconds (-3600)) }

end taurus.ops
