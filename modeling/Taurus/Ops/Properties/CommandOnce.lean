import Taurus.Ops.Exclusion

namespace taurus.ops

open taurus.lib taurus.lib.transition taurus.python taurus.engine

/-- The coroutine has read the row and is on its way to start the command. -/
def Coroutine.starts : Coroutine → Bool
  | .loaded _ host | .ready _ host => host.online_status = 1
  | .connecting _ => true
  | .created | .entered | .executing _ | .reporting .. | .leaving | .done => false

def Task.starts : Task → Bool
  | .execute co => co.starts
  | .orphan _ | .cancel _ => false

/-- A coroutine that reads the row after the command was started finds it successful or
running within its time, or finds the host offline. -/
def System.finds_started (s : System) : Event → Bool
  | .run i now (.host host) =>
    match s.tasks[i]? with
    | some (.execute .entered) =>
      s.started = 0 || s.stored.all fun ops =>
        ops.status = .SUCCESS || already_running now ops || host.online_status ≠ 1
    | _ => true
  | _ => true

/-- The condition on a step of the system. -/
def System.once_condition (s : System) (e : Event) : Bool := s.keeps_queue e && s.finds_started e

/-- The command was started at most once, and if it was, no coroutine is about to start it. -/
structure System.StartedOnce (s : System) : Prop where
  exclusive : s.Exclusive
  le : s.started ≤ 1
  rest : s.started = 1 → ∀ t ∈ s.tasks, t.starts = false

namespace System.StartedOnce

variable {s s' : System}

/-- The command is not started at first. -/
theorem initial (stored : Option OpsExecution) : (System.initial stored).StartedOnce where
  exclusive := .initial stored
  le := by simp [System.initial]
  rest := by simp [System.initial]

/-- A task goes on without starting the command. -/
private theorem resume {i : Nat} {x : Shared} {task task' : Task} (h : s.StartedOnce)
    (hexclusive : (s.resume i x task').Exclusive) (hi : s.tasks[i]? = some task)
    (hstarted : x.started = s.started)
    (hstarts : s.started = 1 → task.starts = false → task'.starts = false) :
    (s.resume i x task').StartedOnce where
  exclusive := hexclusive
  le := by
    show x.started ≤ 1
    rw [hstarted]
    exact h.le
  rest hone t ht := by
    have hone' : s.started = 1 := by rw [← hstarted]; exact hone
    obtain ⟨j, hj⟩ := List.mem_iff_getElem?.mp ht
    obtain ⟨_, rfl⟩ | ⟨_, hj'⟩ := System.resume_getElem? hj
    · exact hstarts hone' (h.rest hone' task (List.mem_of_getElem? hi))
    · exact h.rest hone' t (List.mem_of_getElem? hj')

/-- Each move starts it once at most. -/
theorem step {e : Event} (h : s.StartedOnce) (hC : s.once_condition e = true)
    (hmove : s.Move e s') :
    s'.StartedOnce := by
  obtain ⟨hkeeps, hfinds⟩ := Bool.and_eq_true_iff.mp hC
  have hexclusive := h.exclusive.step hkeeps hmove
  cases hmove with
  | idle hshared htasks =>
    refine ⟨hexclusive, ?_, fun hone => ?_⟩
    · rw [hshared]
      exact h.le
    · rw [htasks]
      exact h.rest (by rw [← hone, hshared])
  | spawn task hfresh htasks _ hstarted _ =>
    refine ⟨hexclusive, by rw [hstarted]; exact h.le, fun hone t ht => ?_⟩
    rw [htasks] at ht
    obtain ht | ht := List.mem_append.mp ht
    · exact h.rest (by rw [← hone, hstarted]) t ht
    · obtain rfl := List.mem_singleton.mp ht
      cases hfresh <;> rfl
  | @execute i now answer co co' x hi hm =>
    cases hm with
    | read ops host hs =>
      refine h.resume hexclusive hi rfl fun hone _ => ?_
      have hfound : ops.status = .SUCCESS ∨ already_running now ops = true ∨
          host.online_status ≠ 1 := by
        simpa [System.finds_started, hi, hone, hs, or_assoc] using hfinds
      simp only [guarded]
      split_ifs with hdone hrunning
      · rfl
      · rfl
      · simpa [Task.starts, Coroutine.starts]
          using (hfound.resolve_left hdone).resolve_left hrunning
      · simpa [Task.starts, Coroutine.starts]
          using (hfound.resolve_left hdone).resolve_left hrunning
    | start ops =>
      -- the coroutine that starts the command is the only one past the queue check
      have hzero : s.started = 0 := by
        by_contra hne
        have hrest := h.rest (by have := h.le; omega) _ (List.mem_of_getElem? hi)
        simp [Task.starts, Coroutine.starts] at hrest
      refine ⟨hexclusive, by simp [System.resume, hzero], fun _ t ht => ?_⟩
      obtain ⟨j, hj⟩ := List.mem_iff_getElem?.mp ht
      obtain ⟨_, rfl⟩ | ⟨hji, hj'⟩ := System.resume_getElem? hj
      · rfl
      · by_contra hstarts
        have howns : t.owns = true := by
          cases t with
          | execute co =>
            cases co <;> simp_all [Task.starts, Coroutine.starts, Task.owns, Coroutine.owns]
          | orphan | cancel => exact absurd rfl hstarts
        exact hji (h.exclusive.unique j i t _ hj' hi howns rfl)
    | connect ops host honline =>
      exact h.resume hexclusive hi rfl fun _ hstarts => by
        simp [Task.starts, Coroutine.starts, honline] at hstarts
    | skip | enter | missing | mark | refuse | fail | finish | report | raised | leave =>
      exact h.resume hexclusive hi rfl fun _ hstarts => by
        simp_all [Task.starts, Coroutine.starts]
  | orphan hi hm => exact h.resume hexclusive hi (by cases hm <;> rfl) fun _ _ => rfl
  | cancel hi hm => exact h.resume hexclusive hi (by cases hm <;> rfl) fun _ _ => rfl

end System.StartedOnce

/-- In every run in which coroutines that come after the start of the command find it
successful or running, and no orphan handler takes a queue away, the command is started
at most once. -/
theorem command_started_once {stored : Option OpsExecution} {s : System}
    (h : Runs System.step (fun s e => s.once_condition e = true) (.initial stored) s) :
    s.started ≤ 1 :=
  (h.invariant (I := System.StartedOnce)
    (fun _ _ _ h hC hstep => h.step hC (System.step_move hstep))
    (.initial stored)).le

/-- Task `i` runs the command from its queue check to the end of the `finally` block. -/
def full_run (i : Nat) (exit_code : Int) : List Event :=
  [.run i 0 .returned, .run i 0 (.host onlineHost), .run i 0 .returned, .run i 0 .returned,
    .run i 0 .returned, .run i 60 (.stream [] (some exit_code) none), .run i 60 .returned,
    .run i 60 .returned]

/-- A command that fails while the poller still has it on its list is run again. -/
theorem failed_command_restarted : ∃ stored s,
    Runs System.step (fun _ _ => True) (.initial stored) s ∧ s.started = 2 := by
  have hrun : ∃ s, Runs System.step (fun _ _ => True) (.initial (some queued)) s ∧
      decide (s.started = 2) = true :=
    exists_run_of_exec ([.list_pending, .submit] ++ full_run 0 1 ++ [.visit_pending,
      .run 1 90 .returned, .run 1 90 (.host onlineHost), .run 1 90 .returned, .run 1 90 .returned])
      (by decide +kernel)
  obtain ⟨s, hs, hstarted⟩ := hrun
  exact ⟨_, s, hs, of_decide_eq_true hstarted⟩

/-- After a success a second coroutine leaves the command alone. -/
theorem successful_command_once : ∃ s,
    Runs System.step (fun s e => s.once_condition e = true) (.initial (some queued)) s ∧
      s.tasks.length = 2 ∧ s.started = 1 ∧ s.started ≤ 1 := by
  have hrun : ∃ s, Runs System.step
    (fun s e => s.once_condition e = true) (.initial (some queued)) s ∧
      decide (s.tasks.length = 2 ∧ s.started = 1) = true :=
    exists_run_of_exec ([.list_pending, .submit] ++ full_run 0 0 ++ [.visit_pending,
      .run 1 90 .returned, .run 1 90 (.host onlineHost), .run 1 90 .returned]) (by decide +kernel)
  obtain ⟨s, hs, hend⟩ := hrun
  have hend' := of_decide_eq_true hend
  exact ⟨s, hs, hend'.1, hend'.2, command_started_once hs⟩

end taurus.ops
