import Taurus.Engine.Steps.Skipping

namespace taurus.engine.runner

open taurus.lib taurus.python taurus.engine.executor

theorem mem_node_rows {rows : List NodeExec} {key : String} {r : NodeExec} :
    r ∈ node_rows rows key ↔ r ∈ rows ∧ r.node_key = key := by simp [node_rows]

theorem node_rows_eq_nil {rows : List NodeExec} {key : String} :
    node_rows rows key = [] ↔ ∀ r ∈ rows, r.node_key ≠ key := by simp [node_rows]

/-- The statuses of the rows of one node, folded by priority. -/
private def foldRows (acc : Option Status) (r : NodeExec) : Option Status :=
  some (match acc with
    | none => r.status
    | some prev => foldStatus prev r.status)

/-- The status of a key is folded over its rows alone. -/
private theorem refreshStatuses_foldl (rows : List NodeExec) (d : Dict String Status)
    (key : String) :
    Dict.get? (rows.foldl refreshStatus d) key =
      (node_rows rows key).foldl foldRows (Dict.get? d key) := by
  induction rows generalizing d with
  | nil => rfl
  | cons r rest ih =>
    rw [List.foldl_cons, ih]
    unfold node_rows
    by_cases hkey : r.node_key = key
    · subst hkey
      rw [List.filter_cons_of_pos (by simp), List.foldl_cons]
      congr 1
      cases h : Dict.get? d r.node_key <;> simp [refreshStatus, foldRows, h]
    · rw [List.filter_cons_of_neg (by simpa using hkey)]
      congr 1
      cases h : Dict.get? d r.node_key <;> simp [refreshStatus, h, hkey]

/-- The fold gives a status of the rows of the highest rank. -/
private theorem foldRows_spec (rows : List NodeExec) (acc : Option Status) :
    (rows = [] ∧ rows.foldl foldRows acc = acc) ∨
    ∃ s, rows.foldl foldRows acc = some s ∧
      (acc = some s ∨ ∃ r ∈ rows, r.status = s) ∧
      (∀ p, acc = some p → statusOrder p ≤ statusOrder s) ∧
      ∀ r ∈ rows, statusOrder r.status ≤ statusOrder s := by
  induction rows generalizing acc with
  | nil => exact Or.inl ⟨rfl, rfl⟩
  | cons r rest ih =>
    right
    have hstep : ∃ s, foldRows acc r = some s ∧ (acc = some s ∨ r.status = s) ∧
        (∀ p, acc = some p → statusOrder p ≤ statusOrder s) ∧
          statusOrder r.status ≤ statusOrder s := by
      cases acc with
      | none => exact ⟨r.status, rfl, Or.inr rfl, by simp, le_refl _⟩
      | some prev =>
        refine ⟨foldStatus prev r.status, rfl, ?_⟩
        unfold foldStatus
        split_ifs with hlt
        · exact ⟨Or.inr rfl, by rintro p ⟨⟩; exact hlt.le, le_refl _⟩
        · exact ⟨Or.inl rfl, by rintro p ⟨⟩; exact le_refl _, not_lt.mp hlt⟩
    obtain ⟨s, hs, hfrom, hprev, hle⟩ := hstep
    rw [List.foldl_cons, hs]
    obtain ⟨rfl, heq⟩ | ⟨t, ht, htfrom, htprev, htle⟩ := ih (some s)
    · refine ⟨s, heq, ?_, hprev, by simpa using hle⟩
      exact hfrom.imp_right fun h => ⟨r, List.mem_cons_self, h⟩
    · have hst := htprev s rfl
      refine ⟨t, ht, ?_, fun p hp => (hprev p hp).trans hst, fun q hq => ?_⟩
      · obtain heq | ⟨q, hq, hqs⟩ := htfrom
        · obtain rfl : s = t := by simpa using heq
          exact hfrom.imp_right fun h => ⟨r, List.mem_cons_self, h⟩
        · exact Or.inr ⟨q, List.mem_cons_of_mem _ hq, hqs⟩
      · obtain rfl | hq := List.mem_cons.mp hq
        · exact hle.trans hst
        · exact htle q hq

/-- The refreshed status of a node is one of its row statuses, the one of highest priority. -/
theorem refreshStatuses_eq_some {rows : List NodeExec} {key : String} {s : Status}
    (h : Dict.get? (refreshStatuses rows) key = some s) :
    (∃ r ∈ node_rows rows key, r.status = s) ∧
      ∀ r ∈ node_rows rows key, statusOrder r.status ≤ statusOrder s := by
  unfold refreshStatuses at h
  rw [refreshStatuses_foldl] at h
  obtain ⟨hnil, heq⟩ | ⟨t, ht, hfrom, _, hle⟩ := foldRows_spec (node_rows rows key) none
  · simp [hnil] at h
  · obtain rfl : t = s := by
      rw [Dict.get?_nil, ht] at h
      simpa using h
    exact ⟨by simpa using hfrom, hle⟩

/-- A key without rows has no status. -/
theorem refreshStatuses_eq_none {rows : List NodeExec} {key : String} :
    Dict.get? (refreshStatuses rows) key = none ↔ node_rows rows key = [] := by
  unfold refreshStatuses
  rw [refreshStatuses_foldl]
  obtain ⟨hnil, heq⟩ | ⟨t, ht, hfrom, _, _⟩ := foldRows_spec (node_rows rows key) none
  · simp [hnil]
  · rw [Dict.get?_nil, ht]
    obtain h | ⟨r, hr, _⟩ := hfrom
    · cases h
    · simp only [reduceCtorEq, false_iff]
      exact List.ne_nil_of_mem hr

/-- A node with rows has a refreshed status. -/
theorem refreshStatuses_isSome {rows : List NodeExec} {key : String} (h : node_rows rows key ≠ []) :
    ∃ s, Dict.get? (refreshStatuses rows) key = some s :=
  Option.ne_none_iff_exists'.mp (mt refreshStatuses_eq_none.mp h)

/-- The refreshed status of a node depends on its own rows only. -/
theorem refreshStatuses_congr {rows rows' : List NodeExec} {key : String}
    (h : node_rows rows key = node_rows rows' key) :
    Dict.get? (refreshStatuses rows) key = Dict.get? (refreshStatuses rows') key := by
  unfold refreshStatuses
  rw [refreshStatuses_foldl, refreshStatuses_foldl, h]

/-- Where all rows of a node are terminal, and none is skipped beside a successful one, its
refreshed status is the one its rows show, or a failure under a cancellation. -/
theorem expanded_status_of_terminal {rows : List NodeExec} {s : Status}
    (hterm : ∀ r ∈ rows, r.status.terminal = true) (hs : ∃ r ∈ rows, r.status = s)
    (hle : ∀ r ∈ rows, statusOrder r.status ≤ statusOrder s)
    (hmix : (∃ r ∈ rows, r.status = .SKIPPED) → ∀ r ∈ rows, r.status ≠ .SUCCESS) :
    expanded_status rows = s ∨ (expanded_status rows = .CANCELLED ∧ s = .FAILED) := by
  by_cases hcancel : ∃ r ∈ rows, r.status = .CANCELLED
  · have hstatus : expanded_status rows = .CANCELLED := by
      unfold expanded_status
      rw [if_pos (by simpa using hcancel)]
    obtain ⟨c, hc, hcs⟩ := hcancel
    have hc := hle c hc
    rw [hstatus]
    cases s <;> simp [hcs, statusOrder] at hc ⊢
  left
  obtain ⟨q, hq, rfl⟩ := hs
  have hany : ∀ t : Status, (∀ r ∈ rows, r.status ≠ t) → rows.any (·.status = t) = false :=
    fun t ht => List.any_eq_false.mpr fun r hr => by simpa using ht r hr
  have hrunning : ∀ r ∈ rows, r.status ≠ .RUNNING := by
    intro r hr heq
    simpa [heq] using hterm r hr
  have hall : rows.all (·.status.terminal) = true := List.all_eq_true.mpr hterm
  unfold expanded_status
  rw [hany .CANCELLED fun r hr heq => hcancel ⟨r, hr, heq⟩, hany .RUNNING hrunning, hall]
  simp only [Bool.false_eq_true, if_false, Bool.not_true]
  cases hstatus : q.status with
  | PENDING | RUNNING => simpa [hstatus] using hterm q hq
  | CANCELLED => exact absurd ⟨q, hq, hstatus⟩ hcancel
  | SUCCESS =>
    have hsuccess : ∀ r ∈ rows, r.status = .SUCCESS := by
      intro r hr
      have hr := hle r hr
      cases hrs : r.status <;> simp [hrs, hstatus, statusOrder] at hr ⊢
    rw [if_neg (by simpa using fun r hr => by simp [hsuccess r hr]),
      if_pos (by simpa using hsuccess)]
  | SKIPPED =>
    have hskipped : ∀ r ∈ rows, r.status = .SKIPPED := by
      intro r hr
      have hne := hmix ⟨q, hq, hstatus⟩ r hr
      have hr := hle r hr
      cases hrs : r.status <;> simp [hrs, hstatus, statusOrder] at hr hne ⊢
    rw [if_neg (by simpa using fun r hr => by simp [hskipped r hr]),
      if_neg (by simpa using ⟨q, hq, by simp [hstatus]⟩), if_pos (by simpa using hskipped)]
  | FAILED =>
    have hfailed : rows.any (·.status = .FAILED) = true := by simpa using ⟨q, hq, hstatus⟩
    rw [if_neg (c := rows.all (·.status = .SUCCESS)) (by simpa using ⟨q, hq, by simp [hstatus]⟩),
      if_neg (c := rows.all (·.status = .SKIPPED)) (by simpa using ⟨q, hq, by simp [hstatus]⟩),
      if_pos hfailed]
    split_ifs <;> rfl

/-- Where the rows of a node carry one strategy, the skip pass goes by it. -/
theorem node_fail_strategies_eq {rows : List NodeExec} {exec_fs key fs : String} (hfs : fs ≠ "")
    (hne : node_rows rows key ≠ []) (hall : ∀ r ∈ node_rows rows key, r.fail_strategy = fs) :
    Dict.get? (node_fail_strategies rows exec_fs) key =
      some (resolve_row_fail_strategy fs exec_fs) := by
  induction rows using List.reverseRecOn with
  | nil => simp [node_rows] at hne
  | append_singleton init r ih =>
    simp only [node_fail_strategies, List.foldl_append, List.foldl_cons, List.foldl_nil,
      Dict.get?_set]
    by_cases hkey : r.node_key = key
    · have hr := hall r (mem_node_rows.mpr ⟨by simp, hkey⟩)
      simp [hkey, hr, hfs]
    · rw [if_neg hkey]
      have hinit : node_rows (init ++ [r]) key = node_rows init key := by simp [node_rows, hkey]
      rw [hinit] at hne hall
      exact ih hne hall

/-- One turn of `_refresh_ctx_from_db` on the outputs of one node. -/
def foldOutputs (acc : Option (Dict String Json)) (r : NodeExec) : Option (Dict String Json) :=
  if r.output.isEmpty then acc else some (addOutput (acc.getD []) r)

theorem refreshOutputs_foldl (rows : List NodeExec) (d : Dict String (Dict String Json))
    (key : String) :
    Dict.get? (rows.foldl refreshOutput d) key =
      (node_rows rows key).foldl foldOutputs (Dict.get? d key) := by
  induction rows generalizing d with
  | nil => rfl
  | cons r rest ih =>
    rw [List.foldl_cons, ih]
    unfold node_rows
    by_cases hkey : r.node_key = key
    · subst hkey
      rw [List.filter_cons_of_pos (by simp), List.foldl_cons]
      congr 1
      by_cases hout : r.output.isEmpty <;> simp [refreshOutput, foldOutputs, hout]
    · rw [List.filter_cons_of_neg (by simpa using hkey)]
      congr 1
      by_cases hout : r.output.isEmpty <;> simp [refreshOutput, hout, hkey]

/-- So does its refreshed output. -/
theorem refreshOutputs_congr {rows rows' : List NodeExec} {key : String}
    (h : node_rows rows key = node_rows rows' key) :
    Dict.get? (refreshOutputs rows) key = Dict.get? (refreshOutputs rows') key := by
  unfold refreshOutputs
  rw [refreshOutputs_foldl, refreshOutputs_foldl, h]

end taurus.engine.runner
