import Taurus.Scheduler.AdvanceRunning

namespace taurus.scheduler

open taurus.engine taurus.engine.runner

section

variable {c : Call} {b : Nat}

theorem running_nodup (t : ExecutionTable) : t.running.Nodup := by
  rw [ExecutionTable.running, (List.perm_insertionSort _ _).nodup_iff]
  exact t.pk_nodup.sublist (List.filter_sublist.map _)

theorem loop_passed (c : Call) (i exec_id : Nat) (rest : List Nat) :
    (c.loop i (exec_id :: rest)).2 =
      if c.running i then exec_id :: (c.loop (i + 1) rest).2 else [] := by
  rw [Call.loop]
  split_ifs
  · obtain ⟨advanced, passed⟩ := c.loop (i + 1) rest
    cases c.advance exec_id <;> rfl
  · rfl

/-- The loop takes the first executions in order. -/
theorem loop_takes (c : Call) (i : Nat) (ids : List Nat) : (c.loop i ids).2 <+: ids := by
  induction ids generalizing i with
  | nil => exact List.prefix_refl _
  | cons exec_id rest ih =>
    rw [loop_passed]
    split_ifs
    · exact (List.prefix_cons_inj exec_id).mpr (ih (i + 1))
    · exact List.nil_prefix

/-- The loop passes all executions on if and only if no stop signal ends it before. -/
theorem loop_eq_iff (c : Call) (i : Nat) (ids : List Nat) :
    (c.loop i ids).2 = ids ↔ ∀ j < ids.length, c.running (i + j) = true := by
  induction ids generalizing i with
  | nil => simp [Call.loop]
  | cons exec_id rest ih =>
    have hshift : (∀ j < (exec_id :: rest).length, c.running (i + j) = true) ↔
        c.running i = true ∧ ∀ j < rest.length, c.running (i + 1 + j) = true := by
      rw [List.length_cons, Nat.forall_lt_succ_left']
      simp only [Nat.add_zero, Nat.add_assoc, Nat.add_comm 1]
    rw [hshift, ← ih (i + 1), loop_passed]
    cases c.running i <;> simp

/-- A call passes no execution on behind the first `b` ones. -/
theorem passed_subset (c : Call) : c.passed b ⊆ c.table.running.take b := by
  unfold Call.passed _advance_running_workflows
  split
  · exact List.nil_subset _
  · exact (loop_takes c 0 _).subset

/-- The query of the call answers and no stop signal arrives within its first `n` turns. -/
def Call.Undisturbed (c : Call) (n : Nat) : Prop := c.query = .ok () ∧ ∀ i < n, c.running i = true

/-- A call passes all of at most `b` executions on if and only if nothing disturbs it. -/
theorem passed_all_iff (hle : c.table.running.length ≤ b) (hsome : c.table.running ≠ []) :
    (∀ pk ∈ c.table.running, pk ∈ c.passed b) ↔ c.Undisturbed c.table.running.length := by
  unfold Call.passed _advance_running_workflows Call.Undisturbed
  cases c.query with
  | error e =>
    obtain ⟨pk, hpk⟩ := List.exists_mem_of_ne_nil _ hsome
    simp only [reduceCtorEq, false_and, iff_false]
    exact fun h => List.not_mem_nil (h pk hpk)
  | ok u =>
    rw [List.take_of_length_le hle]
    have hloop := loop_eq_iff c 0 c.table.running
    simp only [Nat.zero_add] at hloop
    simp only [true_and, ← hloop]
    constructor
    · intro hall
      have hlength := ((running_nodup c.table).subperm hall).length_le
      exact (loop_takes c 0 _).eq_of_length_le hlength
    · intro heq pk hpk
      rwa [heq]

/-- Calls that find the same executions running select from the same list. -/
theorem running_eq_sort {ids : Finset Nat} (h : c.table.running.toFinset = ids) :
    c.table.running = ids.sort := by
  rw [← h, (List.toFinset_sort (· ≤ ·) (running_nodup c.table)).mpr]
  exact List.pairwise_insertionSort _ _

/-- The execution behind the first `b` ones is passed on by no call. -/
theorem starved {ids : Finset Nat} (hlt : b < ids.card) {calls : List Call}
    (hsame : ∀ c ∈ calls, c.table.running.toFinset = ids) :
    ∃ pk ∈ ids, ∀ c ∈ calls, pk ∉ c.passed b := by
  have hb : b < ids.sort.length := by rwa [Finset.length_sort]
  refine ⟨ids.sort[b], (Finset.mem_sort _).mp (List.getElem_mem hb), fun c hc hmem => ?_⟩
  have htake := passed_subset c hmem
  rw [running_eq_sort (hsame c hc)] at htake
  obtain ⟨j, hj, heq⟩ := List.mem_iff_getElem.mp htake
  rw [List.getElem_take] at heq
  have hlength := List.length_take_le b ids.sort
  have hij := (List.Nodup.getElem_inj_iff (Finset.sort_nodup ids _)).mp heq
  omega

/-- As long as the same `n` executions run: every one of them is passed on within `⌈n / b⌉`
calls if and only if they are at most `b` and nothing disturbs the calls. -/
theorem none_starved_iff (hb : 1 ≤ b) {ids : Finset Nat} {calls : List Call}
    (hsame : ∀ c ∈ calls, c.table.running.toFinset = ids)
    (hlength : calls.length = (ids.card + b - 1) / b) :
    (∀ pk ∈ ids, ∃ c ∈ calls, pk ∈ c.passed b) ↔
      ids.card ≤ b ∧ ∀ c ∈ calls, c.Undisturbed ids.card := by
  obtain hlt | hle := Nat.lt_or_ge b ids.card
  · obtain ⟨pk, hpk, hstarved⟩ := starved hlt hsame
    constructor
    · intro hall
      obtain ⟨c, hc, hpassed⟩ := hall pk hpk
      exact absurd hpassed (hstarved c hc)
    · intro h
      omega
  rw [and_iff_right hle]
  obtain rfl | hsome := Finset.eq_empty_or_nonempty ids
  · obtain rfl : calls = [] := by
      apply List.eq_nil_of_length_eq_zero
      rw [hlength, Finset.card_empty]
      exact Nat.div_eq_of_lt (by omega)
    simp
  · have hone : calls.length = 1 := by
      have hpos := hsome.card_pos
      rw [hlength]
      apply Nat.div_eq_of_lt_le <;> omega
    obtain ⟨c, rfl⟩ := List.length_eq_one_iff.mp hone
    have hlist := running_eq_sort (hsame c List.mem_cons_self)
    have hcard : c.table.running.length = ids.card := by rw [hlist, Finset.length_sort]
    have hne : c.table.running ≠ [] := by
      intro hnil
      rw [hnil, List.length_nil] at hcard
      exact hsome.card_pos.ne hcard
    have hall := passed_all_iff (hcard.trans_le hle) hne
    rw [hcard, hlist] at hall
    simpa using hall

end

/-- Two executions run, and nothing disturbs the scheduler. -/
def twoRunning : Call where
  table := { rows := [⟨4, .RUNNING⟩, ⟨7, .SUCCESS⟩, ⟨2, .RUNNING⟩], pk_nodup := by decide }
  query := .ok ()
  running := fun _ => true
  advance := fun _ => .ok {}

/-- Two calls with a batch size of one both pass the first execution on. -/
theorem second_execution_starved :
    twoRunning.table.running.toFinset = {2, 4} ∧
      ¬ ∀ pk ∈ ({2, 4} : Finset Nat), ∃ c ∈ [twoRunning, twoRunning],
        pk ∈ c.passed (batch_size 1) := by
  decide +kernel

/-- One call with a batch size of two passes both on. -/
theorem both_executions_advanced :
    2 ∈ twoRunning.passed (batch_size 2) ∧ 4 ∈ twoRunning.passed (batch_size 2) := by
  have hsame : ∀ c ∈ [twoRunning], c.table.running.toFinset = {2, 4} := by decide +kernel
  have hserved := (none_starved_iff (b := batch_size 2) (by decide) hsame (by decide)).mpr
  have hundisturbed : ∀ c ∈ [twoRunning], c.Undisturbed 2 := by
    intro c hc
    obtain rfl := List.mem_singleton.mp hc
    exact ⟨rfl, fun _ _ => rfl⟩
  have hpassed := hserved ⟨by decide, hundisturbed⟩
  simpa using hpassed

end taurus.scheduler
