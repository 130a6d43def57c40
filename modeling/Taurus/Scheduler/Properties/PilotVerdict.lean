import Taurus.Scheduler.Finalizing

namespace taurus.scheduler

open taurus.lib taurus.python taurus.engine OpsCanaryService

/-- A row has ended: it succeeded, failed, or was interrupted or rejected. -/
def is_final : ops.OpsStatus → Bool
  | .SUCCESS | .FAILED | .ABORTED | .REJECTED => true
  | .PENDING | .RUNNING | .APPROVING => false

/-- A batch all rows of which have ended, in the order of their creation, some of
them pilot rows. -/
structure FinishedBatch where
  rows : List CanaryRow
  pilot_count : Nat
  pilot_success_rate : Nat
  columns : ∀ row ∈ rows, row.pilot_count = pilot_count ∧
    row.pilot_success_rate = pilot_success_rate
  final : ∀ row ∈ rows, is_final row.status = true
  pilot_pos : 0 < pilot_count
  pilot_lt : pilot_count < rows.length
  rate_le : pilot_success_rate ≤ 100

def successes (rows : List CanaryRow) : Nat := rows.countP fun row => row.status = .SUCCESS

/-- By how much a hundred times the successes exceed what the rate asks of so many rows. -/
def surplus (rate : Nat) (rows : List CanaryRow) : Int := 100 * successes rows - rate * rows.length

/-! What is counted. -/

/-- What counting all statuses gives. -/
theorem foldl_count (statuses : List ops.OpsStatus) (stats : Stats) :
    (statuses.foldl count stats).total = stats.total + statuses.length ∧
      (statuses.foldl count stats).success = stats.success + statuses.countP (· = .SUCCESS) ∧
      ((∀ s ∈ statuses, is_final s = true) → (statuses.foldl count stats).running = stats.running ∧
        (statuses.foldl count stats).pending = stats.pending) := by
  induction statuses generalizing stats with
  | nil => exact ⟨rfl, rfl, fun _ => ⟨rfl, rfl⟩⟩
  | cons s statuses ih =>
    obtain ⟨htotal, hsuccess, hopen⟩ := ih (count stats s)
    rw [List.foldl_cons, List.length_cons, List.countP_cons, List.forall_mem_cons]
    refine ⟨?_, ?_, fun hfinal => ?_⟩
    · rw [htotal]
      cases s <;> simp only [count] <;> omega
    · rw [hsuccess]
      cases s <;> simp [count, Nat.add_assoc, Nat.add_comm 1]
    · obtain ⟨hrunning, hpending⟩ := hopen hfinal.2
      rw [hrunning, hpending]
      cases s with
      | SUCCESS | FAILED | ABORTED | REJECTED => exact ⟨rfl, rfl⟩
      | PENDING | RUNNING | APPROVING => cases hfinal.1

/-- The verdict on rows that have ended: their successes reach the rate. -/
theorem check_pilot_health_pass_iff {statuses : List ops.OpsStatus}
    (hfinal : ∀ s ∈ statuses, is_final s = true) (hne : statuses ≠ []) (rate : Nat)
    (hpos : rate ≠ 0) (hle : rate ≤ 100) :
    (check_pilot_health statuses rate).1 = .pass ↔
      rate * statuses.length ≤ 100 * statuses.countP (· = .SUCCESS) := by
  obtain ⟨htotal, hsuccess, hopen⟩ := foldl_count statuses {}
  have hopen : (statuses.foldl count {}).running + (statuses.foldl count {}).pending = 0 := by
    rw [(hopen hfinal).1, (hopen hfinal).2]
    rfl
  replace htotal := htotal.trans (Nat.zero_add _)
  replace hsuccess := hsuccess.trans (Nat.zero_add _)
  have hlength : 0 < statuses.length := List.length_pos_of_ne_nil hne
  have hthreshold : max 0 (min 100 (if (rate : Int) = 0 then 100 else (rate : Int))) = rate := by
    rw [if_neg (by omega)]
    omega
  have hratio : (rate : Rat) ≤ ((statuses.foldl count {}).success : Rat) * 100 /
    ((statuses.foldl count {}).total : Rat) ↔
      rate * statuses.length ≤ 100 * statuses.countP (· = .SUCCESS) := by
    rw [htotal, hsuccess, le_div_iff₀ (by exact_mod_cast hlength), mul_comm _ (100 : Rat)]
    exact_mod_cast Iff.rfl
  unfold check_pilot_health
  simp only [hthreshold]
  rw [if_neg (by omega), if_neg (by omega)]
  simp only [ge_iff_le, Int.cast_natCast]
  rw [← hratio]
  split_ifs with hpass
  · exact iff_of_true rfl hpass
  · exact iff_of_false (fun h => by cases h) hpass

/-! The verdict of the finalizer. -/

namespace FinishedBatch

variable (batch : FinishedBatch)

/-- The pilot rows, and the others. -/
def pilots : List CanaryRow := (split_pilot_batch batch.rows batch.pilot_count).1

def others : List CanaryRow := (split_pilot_batch batch.rows batch.pilot_count).2

/-- The pilots come first. -/
theorem pilots_append_others :
    batch.pilots ++ batch.others = batch.rows ∧ batch.pilots.length = batch.pilot_count := by
  have hsplit : split_pilot_batch batch.rows batch.pilot_count =
      (batch.rows.take batch.pilot_count, batch.rows.drop batch.pilot_count) := by
    have hpos := batch.pilot_pos
    have hlt := batch.pilot_lt
    unfold split_pilot_batch
    rw [Int.toNat_natCast, if_neg (by omega)]
  rw [pilots, others, hsplit]
  exact ⟨List.take_append_drop _ _, List.length_take_of_le batch.pilot_lt.le⟩

/-- The surplus of a batch is that of its two parts. -/
theorem surplus_rows (rate : Nat) :
    surplus rate batch.rows = surplus rate batch.pilots + surplus rate batch.others := by
  obtain ⟨hrows, -⟩ := batch.pilots_append_others
  rw [← hrows, surplus, surplus, surplus, successes, List.countP_append, List.length_append]
  push_cast [successes]
  ring

/-- What the record says of the canary after the batch. -/
def decision (now : Time) (task_exec : ScriptTaskExecution) : Option String :=
  (finalized_with_canary batch.rows now task_exec).canary_decision

/-- The verdict passes if and only if the pilot rows reach the rate. -/
def JudgedByPilot (now : Time) (task_exec : ScriptTaskExecution) : Prop :=
  batch.decision now task_exec = some "pass" ↔
    batch.pilot_success_rate * batch.pilot_count ≤ 100 * successes batch.pilots

/-- The rate that the verdict goes by. -/
def threshold : Nat := if batch.pilot_success_rate = 0 then 100 else batch.pilot_success_rate

/-- The verdict is about all rows. -/
theorem decision_pass_iff (now : Time) (task_exec : ScriptTaskExecution) :
    batch.decision now task_exec = some "pass" ↔ 0 ≤ surplus batch.threshold batch.rows := by
  have hne : batch.rows ≠ [] := List.ne_nil_of_length_pos (batch.pilot_pos.trans batch.pilot_lt)
  have hfinal : ∀ s ∈ batch.rows.reverse.map (·.status), is_final s = true := by
    intro s hs
    obtain ⟨row, hrow, rfl⟩ := List.mem_map.mp hs
    exact batch.final row (List.mem_reverse.mp hrow)
  have hclosed : ¬ (batch.rows = [] ∨
    batch.rows.any (fun row => Dispatching.is_pending row.toOpsExecution)) := by
    rintro (hempty | hpending)
    · exact hne hempty
    · obtain ⟨row, hrow, hpending⟩ := List.any_eq_true.mp hpending
      have hrow := batch.final row hrow
      obtain hstatus | hstatus := of_decide_eq_true hpending
      · rw [hstatus] at hrow
        cases hrow
      · rw [hstatus] at hrow
        cases hrow
  obtain ⟨hcount, hrate⟩ := batch.columns _ (List.getLast_mem hne)
  have hthreshold :
      (if (batch.pilot_success_rate : Int) = 0 then 100 else (batch.pilot_success_rate : Int)) =
        batch.threshold := by
    unfold threshold
    split_ifs <;> omega
  have hrange : batch.threshold ≠ 0 ∧ batch.threshold ≤ 100 := by
    have hle := batch.rate_le
    unfold threshold
    split_ifs <;> omega
  have hpass :=
    check_pilot_health_pass_iff hfinal (by simpa using hne) batch.threshold hrange.1 hrange.2
  have hdecision : batch.decision now task_exec =
      some (check_pilot_health (batch.rows.reverse.map (·.status)) batch.threshold).1.text := by
    have hpos := batch.pilot_pos
    have hlt := batch.pilot_lt
    unfold decision finalized_with_canary with_canary
    rw [if_neg hclosed, List.getLast?_eq_some_getLast hne]
    simp only [Option.map_some, Option.getD_some, hcount, hrate, hthreshold]
    rw [if_pos (by omega)]
    generalize check_pilot_health (batch.rows.reverse.map (·.status)) batch.threshold = verdict
    unfold ScriptTaskExecution.canary_decision
    rw [ScriptTaskExecution.result_dict, Json.obj?, Option.getD_some, getJson, Dict.get?_set_self]
    rfl
  have htext : ∀ verdict : Health, some verdict.text = some "pass" ↔ verdict = .pass := by
    intro verdict
    cases verdict <;> decide
  have hcounts : (batch.rows.reverse.map (·.status)).countP (· = .SUCCESS) =
      successes batch.rows := by
    rw [List.countP_map, List.countP_reverse]
    rfl
  rw [hdecision, htext, hpass, hcounts, List.length_map, List.length_reverse, surplus,
    Int.sub_nonneg]
  exact_mod_cast Iff.rfl

/-- The verdict is about the pilot where the other rows do not outweigh its surplus or its lack, and
with a rate of zero where all rows succeed. -/
theorem judged_by_pilot_iff (now : Time) (task_exec : ScriptTaskExecution) :
    batch.JudgedByPilot now task_exec ↔
      if batch.pilot_success_rate = 0 then ∀ row ∈ batch.rows, row.status = .SUCCESS
      else 0 ≤ surplus batch.pilot_success_rate batch.pilots + surplus batch.pilot_success_rate batch.others ↔
        0 ≤ surplus batch.pilot_success_rate batch.pilots := by
  obtain ⟨-, hlength⟩ := batch.pilots_append_others
  have hpilots : batch.pilot_success_rate * batch.pilot_count ≤ 100 * successes batch.pilots ↔
      0 ≤ surplus batch.pilot_success_rate batch.pilots := by
    rw [surplus, hlength, Int.sub_nonneg]
    exact_mod_cast Iff.rfl
  unfold JudgedByPilot
  rw [batch.decision_pass_iff]
  split_ifs with hzero
  · have hall : 0 ≤ surplus 100 batch.rows ↔ ∀ row ∈ batch.rows, row.status = .SUCCESS := by
      have hle : successes batch.rows ≤ batch.rows.length := List.countP_le_length
      have hsuccess :=
        List.countP_eq_length (p :=
          fun row : CanaryRow => decide (row.status = .SUCCESS)) (l := batch.rows)
      simp only [decide_eq_true_eq] at hsuccess
      rw [← hsuccess, surplus, successes]
      unfold successes at hle
      omega
    rw [threshold, if_pos hzero, hall, hzero, Nat.zero_mul]
    exact iff_true_right (Nat.zero_le _)
  · rw [threshold, if_neg hzero, batch.surplus_rows, hpilots]

/-- Two pilot hosts on which the script succeeds, and a third host on which it fails. -/
def thirdFails : FinishedBatch where
  rows := [.SUCCESS, .SUCCESS, .FAILED].map fun status =>
    { execution_id := "", execution_type := "script", host_id := 1, status }
  pilot_count := 2
  pilot_success_rate := 100
  columns := by decide
  final := by decide
  pilot_pos := by decide
  pilot_lt := by decide
  rate_le := by decide

/-- The canary fails. -/
theorem canary_fails_for_third_host :
    ¬ ∀ (batch : FinishedBatch) (now : Time) (task_exec : ScriptTaskExecution),
      batch.JudgedByPilot now task_exec := by
  intro h
  have hjudged := h thirdFails 0 { id := 1, task_id := 1, status := .running }
  have hdecision : thirdFails.decision 0 { id := 1, task_id := 1, status := .running } =
      some "fail" := by decide +kernel
  have hpilots : successes thirdFails.pilots = 2 := by decide +kernel
  unfold JudgedByPilot at hjudged
  rw [hdecision, hpilots] at hjudged
  exact absurd (hjudged.mpr (by decide)) (by decide)

end FinishedBatch

end taurus.scheduler
