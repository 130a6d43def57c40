import Taurus.Ops.Exclusion

namespace taurus.ops

open taurus.lib taurus.lib.transition taurus.python taurus.engine

/-- The coroutine holds a copy of the row that it may still save. -/
def Coroutine.active : Coroutine → Bool
  | .loaded .. | .ready .. | .connecting _ | .executing _ | .reporting .. => true
  | .created | .entered | .leaving | .done => false

def Task.active : Task → Bool
  | .execute co => co.active
  | .orphan _ | .cancel _ => false

/-- The task has found the execution unfinished and is about to abort it. -/
def Task.aborting : Task → Bool
  | .orphan (.loaded _) | .cancel .loaded => true
  | .execute _ | .orphan _ | .cancel _ => false

/-- An active task owns the execution. -/
theorem Task.owns_of_active {t : Task} (h : t.active = true) : t.owns = true := by
  cases t with
  | execute co => cases co <;> simp_all [Task.active, Coroutine.active, Task.owns, Coroutine.owns]
  | orphan | cancel => cases h

/-- The condition on a step: a coroutine reads no failed or aborted row, a result is not
saved while somebody is about to abort, nor an abort while a coroutine holds the row. -/
def System.final_condition (s : System) (e : Event) : Bool :=
  s.keeps_queue e &&
    match e with
    | .run i _ (.host _) =>
      match s.tasks[i]? with
      | some (.execute .entered) => s.terminal? ≠ some .FAILED ∧ s.terminal? ≠ some .ABORTED
      | _ => true
    | .run i _ .returned =>
      match s.tasks[i]? with
      | some (.execute (.reporting ..)) => s.tasks.all fun t => !t.aborting
      | some (.cancel .loaded) => s.tasks.all fun t => !t.active
      | _ => true
    | .run i _ (.executor _) =>
      match s.tasks[i]? with
      | some (.orphan (.loaded _)) => s.tasks.all fun t => !t.active
      | _ => true
    | _ => true

/-- Once the row is terminal no coroutine holds it, and only an aborted one is still to
be aborted. -/
structure System.Settled (s : System) : Prop where
  exclusive : s.Exclusive
  quiet : s.terminal?.isSome → ∀ t ∈ s.tasks, t.active = false
  aborting : ∀ t ∈ s.tasks, t.aborting = true → ∀ st, s.terminal? = some st → st = .ABORTED

/-- A terminal status stays, and the command is not started. -/
def Final (s s' : System) : Prop :=
  ∀ st, s.terminal? = some st → s'.terminal? = some st ∧ s'.started = s.started

namespace System.Settled

variable {s s' : System}

/-- The first state is settled. -/
theorem initial (stored : Option OpsExecution) : (System.initial stored).Settled where
  exclusive := .initial stored
  quiet := by simp [System.initial]
  aborting := by simp [System.initial]

/-- A task goes on and leaves the row alone. -/
private theorem resume_same {i : Nat} {x : Shared} {task task' : Task} (h : s.Settled)
    (hexclusive : (s.resume i x task').Exclusive) (hi : s.tasks[i]? = some task)
    (hstored : x.stored = s.stored)
    (hactive : task'.active = true → task.active = true ∨ s.terminal? = none)
    (haborting : task'.aborting = true → task.aborting = true ∨ s.terminal? = none) :
    (s.resume i x task').Settled := by
  have hterm : (s.resume i x task').terminal? = s.terminal? := by
    show x.stored.bind _ = s.stored.bind _
    rw [hstored]
  refine ⟨hexclusive, fun hsome t ht => ?_, fun t ht habort st hst => ?_⟩
  · rw [hterm] at hsome
    obtain ⟨j, hj⟩ := List.mem_iff_getElem?.mp ht
    obtain ⟨_, rfl⟩ | ⟨_, hj'⟩ := System.resume_getElem? hj
    · by_contra hne
      obtain hact | hnone := hactive (by simpa using hne)
      · simp [h.quiet hsome task (List.mem_of_getElem? hi)] at hact
      · simp [hnone] at hsome
    · exact h.quiet hsome t (List.mem_of_getElem? hj')
  · rw [hterm] at hst
    obtain ⟨j, hj⟩ := List.mem_iff_getElem?.mp ht
    obtain ⟨_, rfl⟩ | ⟨_, hj'⟩ := System.resume_getElem? hj
    · obtain hold | hnone := haborting habort
      · exact h.aborting task (List.mem_of_getElem? hi) hold st hst
      · simp [hnone] at hst
    · exact h.aborting t (List.mem_of_getElem? hj') habort st hst

/-- An abort is saved while no coroutine holds the row. -/
private theorem resume_aborted {i : Nat} {x : Shared} {task' : Task} {ops : OpsExecution}
    (hexclusive : (s.resume i x task').Exclusive) (hstored : x.stored = some ops)
    (hstatus : ops.status = .ABORTED) (hquiet : ∀ t ∈ s.tasks, t.active = false)
    (hnew : task'.active = false) : (s.resume i x task').Settled := by
  refine ⟨hexclusive, fun _ t ht => ?_, fun t ht habort st hst => ?_⟩
  · obtain ⟨j, hj⟩ := List.mem_iff_getElem?.mp ht
    obtain ⟨_, rfl⟩ | ⟨_, hj'⟩ := System.resume_getElem? hj
    · exact hnew
    · exact hquiet t (List.mem_of_getElem? hj')
  · obtain ⟨ops', hs, rfl, _⟩ := System.terminal?_eq_some.mp hst
    obtain rfl : ops = ops' := Option.some.inj (hstored.symm.trans hs)
    exact hstatus

/-- The guards let a coroutine go on from an unfinished row only, except for the two
statuses they do not know. -/
private theorem guarded_active {now : Time} {ops : OpsExecution} {host : Host}
    (h : (guarded now ops host).active = true) : ops.status ≠ .SUCCESS := by
  rintro hs
  simp [guarded, hs, Coroutine.active] at h

/-- Each move keeps it settled. -/
theorem step {e : Event} (h : s.Settled) (hC : s.final_condition e = true) (hmove : s.Move e s') :
    s'.Settled := by
  obtain ⟨hkeeps, hC⟩ := Bool.and_eq_true_iff.mp hC
  have hexclusive := h.exclusive.step hkeeps hmove
  cases hmove with
  | idle hshared htasks =>
    have hterm : s'.terminal? = s.terminal? := by rw [System.terminal?, hshared, System.terminal?]
    refine ⟨hexclusive, ?_, ?_⟩ <;> rw [hterm, htasks]
    · exact h.quiet
    · exact h.aborting
  | spawn task hfresh htasks hstored _ _ =>
    have hterm : s'.terminal? = s.terminal? := by rw [System.terminal?, hstored, System.terminal?]
    have hmem : ∀ t ∈ s'.tasks, t ∈ s.tasks ∨ (t.active = false ∧ t.aborting = false) := by
      intro t ht
      rw [htasks] at ht
      obtain ht | ht := List.mem_append.mp ht
      · exact Or.inl ht
      · obtain rfl := List.mem_singleton.mp ht
        cases hfresh <;> exact Or.inr ⟨rfl, rfl⟩
    refine ⟨hexclusive, fun hsome t ht => ?_, fun t ht habort => ?_⟩
    · rw [hterm] at hsome
      exact (hmem t ht).elim (h.quiet hsome t) (·.1)
    · rw [hterm]
      obtain hold | ⟨_, hnew⟩ := hmem t ht
      · exact h.aborting t hold habort
      · simp [hnew] at habort
  | @execute i now answer co co' x hi hm =>
    cases hm with
    | read ops host hs =>
      refine h.resume_same hexclusive hi rfl (fun hact => Or.inr ?_) fun habort => by cases habort
      have hfound : s.terminal? ≠ some .FAILED ∧ s.terminal? ≠ some .ABORTED := by
        simpa [hi] using hC
      have hsuccess := guarded_active hact
      by_contra hsome
      obtain ⟨st, hst⟩ := Option.ne_none_iff_exists'.mp hsome
      obtain ⟨ops', hs', rfl, hterm⟩ := System.terminal?_eq_some.mp hst
      obtain rfl : ops = ops' := Option.some.inj (hs.symm.trans hs')
      cases hstatus : ops.status <;> simp_all [OpsStatus.terminal]
    | mark ops host =>
      -- the row the coroutine has read is still unfinished, and so is the marked one
      have hnone : (s.resume i { s.toShared with stored := some (mark_running now ops) }
          (.execute (.ready (mark_running now ops) host))).terminal? = none := rfl
      exact ⟨hexclusive, by simp [hnone], by simp [hnone]⟩
    | report ops attempt =>
      have hothers : ∀ t ∈ s.tasks, t.aborting = false := by simpa [hi] using hC
      refine ⟨hexclusive, fun _ t ht => ?_, fun t ht habort => ?_⟩
      · obtain ⟨j, hj⟩ := List.mem_iff_getElem?.mp ht
        obtain ⟨_, rfl⟩ | ⟨hji, hj'⟩ := System.resume_getElem? hj
        · rfl
        · by_contra hact
          have howns := Task.owns_of_active (by simpa using hact)
          exact hji (h.exclusive.unique j i t _ hj' hi howns rfl)
      · obtain ⟨j, hj⟩ := List.mem_iff_getElem?.mp ht
        obtain ⟨_, rfl⟩ | ⟨_, hj'⟩ := System.resume_getElem? hj
        · cases habort
        · simp [hothers t (List.mem_of_getElem? hj')] at habort
    | skip | enter | missing | refuse | connect | fail | start | finish | raised | leave =>
      exact h.resume_same hexclusive hi rfl (fun hact => by simp_all [Task.active,
        Coroutine.active])
        fun habort => by cases habort
  | orphan hi hm =>
    cases hm with
    | read ops hs hrunning =>
      refine h.resume_same hexclusive hi rfl (fun hact => by cases hact) fun _ => Or.inr ?_
      simp [System.terminal?, hs, hrunning, OpsStatus.terminal]
    | interrupt ops is_running =>
      exact resume_aborted hexclusive rfl rfl (by simpa [hi] using hC) rfl
    | give_up | leave =>
      exact h.resume_same hexclusive hi rfl (fun hact => by cases hact) fun habort =>
        by cases habort
  | @cancel i now answer c c' x hi hm =>
    cases hm with
    | read ops hs hopen =>
      refine h.resume_same hexclusive hi rfl (fun hact => by cases hact) fun _ => Or.inr ?_
      simp [System.terminal?, hs, hopen]
    | abort =>
      obtain hs | ⟨ops, hs⟩ := Option.eq_none_or_eq_some s.stored
      · exact h.resume_same hexclusive hi (by simp [hs]) (fun hact => by cases hact) fun habort =>
          by cases habort
      · have hstored : s.stored.map (abort now) = some (abort now ops) := by
          rw [hs, Option.map_some]
        exact resume_aborted hexclusive hstored rfl (by simpa [hi] using hC) rfl
    | give_up =>
      exact h.resume_same hexclusive hi rfl (fun hact => by cases hact) fun habort =>
        by cases habort

/-- From a settled system no step moves a terminal row. -/
theorem final {e : Event} (h : s.Settled) (hmove : s.Move e s') : Final s s' := by
  intro st hst
  have hquiet := h.quiet (by simp [hst])
  have hsame : ∀ s'' : System, s''.stored = s.stored → s''.terminal? = some st := fun s'' hs => by
    rw [System.terminal?, hs]
    exact hst
  cases hmove with
  | idle hshared htasks => exact ⟨hsame _ (by rw [hshared]), by rw [hshared]⟩
  | spawn task _ _ hstored hstarted _ => exact ⟨hsame _ hstored, hstarted⟩
  | execute hi hm =>
    have hinactive := hquiet _ (List.mem_of_getElem? hi)
    cases hm with
    | mark | report | start => cases hinactive
    | skip | enter | missing | read | refuse | connect | fail | finish | raised | leave =>
      exact ⟨hsame _ rfl, rfl⟩
  | orphan hi hm =>
    cases hm with
    | interrupt ops is_running =>
      obtain rfl := h.aborting _ (List.mem_of_getElem? hi) rfl st hst
      exact ⟨rfl, rfl⟩
    | give_up | read | leave => exact ⟨hsame _ rfl, rfl⟩
  | cancel hi hm =>
    cases hm with
    | abort =>
      obtain rfl := h.aborting _ (List.mem_of_getElem? hi) rfl st hst
      obtain ⟨ops, hs, _, _⟩ := System.terminal?_eq_some.mp hst
      exact ⟨System.terminal?_eq_some.mpr ⟨_, by simp [System.resume, hs]; rfl, rfl, rfl⟩, rfl⟩
    | give_up | read => exact ⟨hsame _ rfl, rfl⟩

end System.Settled

/-- In every run in which no coroutine reads a failed or aborted row, no queue is taken
away, and results and aborts are not saved over one another, a terminal row keeps its
status and its command is not started any more. -/
theorem terminal_rows_final {stored : Option OpsExecution} {s s' : System}
    (h : Runs System.step (fun s e => s.final_condition e = true) (.initial stored) s)
    (h' : Runs System.step (fun s e => s.final_condition e = true) s s') : Final s s' := by
  have hsettled := h.invariant (I := System.Settled)
    (fun _ _ _ h hC hstep => h.step hC (System.step_move hstep)) (.initial stored)
  refine (h'.invariant (I := fun s' => s'.Settled ∧ Final s s') ?_
    ⟨hsettled, fun _ h => ⟨h, rfl⟩⟩).2
  rintro t e t' ⟨ht, hfinal⟩ hC hstep
  refine ⟨ht.step hC (System.step_move hstep), fun st hst => ?_⟩
  obtain ⟨hmid, hstarted⟩ := hfinal st hst
  obtain ⟨hlast, hstarted'⟩ := ht.final (System.step_move hstep) st hmid
  exact ⟨hlast, hstarted'.trans hstarted⟩

/-- A command that is cancelled while it waits is run all the same. -/
theorem aborted_command_started :
    ∃ stored s s', Runs System.step (fun _ _ => True) (.initial stored) s ∧
    Runs System.step (fun _ _ => True) s s' ∧ ¬ Final s s' := by
  have hrun : ∃ s, Runs System.step (fun _ _ => True) (.initial (some queued)) s ∧
      (exec System.step (fun _ _ => True) s [.submit, .run 1 5 .returned,
      .run 1 5 (.host onlineHost),
        .run 1 5 .returned, .run 1 5 .returned]).any
        (fun s' => s.terminal? = some .ABORTED ∧ s'.started ≠ s.started) = true :=
    exists_run_of_exec [.cancel, .run 0 1 .returned, .run 0 2 .returned] (by decide +kernel)
  obtain ⟨s, hs, hmore⟩ := hrun
  obtain ⟨s', hs', hend⟩ := exists_run_of_exec _ hmore
  have hend' := of_decide_eq_true hend
  exact ⟨_, s, s', hs, hs', fun hfinal => hend'.2 (hfinal _ hend'.1).2⟩

/-- A cancel and a second coroutine that come after a success change nothing. -/
theorem finished_command_final : ∃ s s',
    Runs System.step (fun s e => s.final_condition e = true) (.initial (some queued)) s ∧
    Runs System.step (fun s e => s.final_condition e = true) s s' ∧
    (s.terminal? = some .SUCCESS ∧ s'.tasks.length = 3) ∧ Final s s' := by
  have hrun : ∃ s, Runs System.step
    (fun s e => s.final_condition e = true) (.initial (some queued)) s ∧
      (exec System.step (fun s e => s.final_condition e = true) s [.cancel,
      .run 1 70 .returned, .submit,
        .run 2 70 .returned, .run 2 70 (.host onlineHost), .run 2 70 .returned]).any
        (fun s' => s.terminal? = some .SUCCESS ∧ s'.tasks.length = 3) = true :=
    exists_run_of_exec [.submit, .run 0 0 .returned, .run 0 0
      (.host onlineHost), .run 0 0 .returned, .run 0 0 .returned, .run 0 0 .returned,
      .run 0 60 (.stream [] (some 0) none), .run 0 60 .returned,
        .run 0 60 .returned] (by decide +kernel)
  obtain ⟨s, hs, hmore⟩ := hrun
  obtain ⟨s', hs', hend⟩ := exists_run_of_exec _ hmore
  exact ⟨s, s', hs, hs', of_decide_eq_true hend, terminal_rows_final hs hs'⟩

end taurus.ops
