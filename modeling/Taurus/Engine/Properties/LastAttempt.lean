import Taurus.Engine.Properties.Retries

namespace taurus.engine.runner

open taurus.lib taurus.lib.Prog taurus.python taurus.engine.executor

variable {ver : DagVersion} {env : Env} {x : Execution} {row : NodeExec} {w : World}

/-- The attempt after the one of a row. -/
def next_attempt (row : NodeExec) : String × String × Nat :=
  (row.node_key, row.host_id, row.attempt_no + 1)

/-- The retry pass returns if and only if the rows it builds fit, and then has created them. -/
theorem retry_pass_spec (dag : Dag) (completed : List String) (user_id : Option Int) (w : World) :
    (Table.Insertable w.rows (retry_rows env x dag completed user_id w.rows) →
      ∃ k w₃, _retry_failed_rows env x dag completed user_id w = (.ok k, w₃)) ∧
    ∀ k w₃, _retry_failed_rows env x dag completed user_id w = (.ok k, w₃) →
      Table.Insertable w.rows (retry_rows env x dag completed user_id w.rows) ∧
      ∃ created, Table.Created w.table w₃.table
        (retry_rows env x dag completed user_id w.rows) created := by
  have hall : w.rows.filter (fun _ => true) = w.rows := List.filter_eq_self.mpr (by simp)
  have hinsert := w.table.bulk_create_isSome_iff (retry_rows env x dag completed user_id w.rows)
  have hpass : _retry_failed_rows env x dag completed user_id w =
      (if retry_rows env x dag completed user_id (w.rows.filter fun _ => true) = [] then pure 0
        else (do
          record (.retry completed (retry_rows env x dag completed user_id (w.rows.filter
          fun _ => true)))
          let _ ← bulk_create (retry_rows env x dag completed user_id (w.rows.filter fun _ => true))
          pure (retry_rows env x dag completed user_id (w.rows.filter
            fun _ => true)).length) : RunnerM Nat) w := rfl
  rw [hall] at hpass
  generalize retry_rows env x dag completed user_id w.rows = retries at hinsert hpass ⊢
  by_cases hnil : retries = []
  · subst hnil
    rw [if_pos rfl] at hpass
    refine ⟨fun _ => ⟨0, w, hpass⟩, fun k w₃ h => ⟨hinsert.mp rfl, [], ?_⟩⟩
    obtain ⟨_, rfl⟩ := Prod.mk.inj (hpass.symm.trans h)
    exact Table.bulk_create_created rfl
  · rw [if_neg hnil] at hpass
    change _ = Prog.andThen (bulk_create retries) (fun _ => pure retries.length)
      (w.note (.retry completed retries)) at hpass
    unfold Prog.andThen bulk_create at hpass
    have htable : (w.note (.retry completed retries)).table = w.table := rfl
    rw [htable] at hpass
    cases hcreate : w.table.bulk_create retries with
    | none =>
      rw [hcreate] at hpass hinsert
      refine ⟨fun h => ?_, fun k w₃ h => ?_⟩
      · cases hinsert.mpr h
      · cases hpass.symm.trans h
    | some p =>
      rw [hcreate] at hpass hinsert
      refine ⟨fun _ => ⟨_, _, hpass⟩, fun k w₃ h => ⟨hinsert.mp rfl, p.2, ?_⟩⟩
      obtain ⟨_, rfl⟩ := Prod.mk.inj (hpass.symm.trans h)
      exact Table.bulk_create_created hcreate

/-- The stored row has the last attempt of its node and host. -/
def LastAttempt (rows : List NodeExec) (row : NodeExec) : Prop :=
  ∀ s ∈ rows, SameSlot s row → s.attempt_no ≤ row.attempt_no

/-- A save keeps the last attempt. -/
theorem LastAttempt.save {t : Table} {new row' : NodeExec} {now : Time} {fields : List Field}
    (h : LastAttempt t.rows row) (hid : row'.SameIdentity row) :
    LastAttempt (t.save new now fields).rows row' := by
  intro s hs hslot
  obtain ⟨s₀, hs₀, hids⟩ := t.exists_of_mem_save hs
  rw [hids.attempt_no, hid.attempt_no]
  refine h s₀ hs₀ ⟨?_, ?_⟩
  · rw [← hids.node_key, hslot.1, hid.node_key]
  · rw [← hids.host_id, hslot.2, hid.host_id]

/-- The retry pass builds the next attempt of the last one if and only if that failed in a
retryable way and its node is among the completed ones. -/
theorem next_attempt_built (env : Env) (x : Execution) (dag : Dag) (completed : List String)
    (user_id : Option Int) {rows : List NodeExec} {n : Node}
    (hnodup : (rows.map (·.attempt_key)).Nodup) (hrow : row ∈ rows) (hlast : LastAttempt rows row)
    (hnode : dag.node? row.node_key = some n) (hmore : (row.attempt_no : Int) < n.max_retries) :
    (∃ r ∈ retry_rows env x dag completed user_id rows, r.attempt_key = next_attempt row) ↔
      (row.status = .FAILED ∧ is_retryable row.error_message = true) ∧
        row.node_key ∈ completed := by
  have hwants : ∀ m, wants_retry dag row = some m ↔
      is_retryable row.error_message = true ∧ n = m := by
    intro m
    have hbounds : ¬ (n.max_retries ≤ 0 ∨ n.max_retries ≤ (row.attempt_no : Int)) := by omega
    unfold wants_retry
    rw [hnode]
    simp only [← or_assoc, hbounds, false_or]
    by_cases hretry : is_retryable row.error_message = true <;> simp [hretry]
  constructor
  · rintro ⟨r, hr, hkey⟩
    obtain ⟨old, ⟨⟨hold, _⟩, hin⟩, m, hm, rfl⟩ := (mem_retry_rows hnodup).mp hr
    simp only [NodeExec.attempt_key, retry_row, next_attempt, Prod.mk.injEq] at hkey
    have hsame : old.attempt_key = row.attempt_key := by
      simp only [NodeExec.attempt_key, Prod.mk.injEq]
      exact ⟨hkey.1, hkey.2.1, by omega⟩
    obtain rfl := List.inj_on_of_nodup_map hnodup hold.1 hrow hsame
    exact ⟨⟨hold.2, ((hwants m).mp hm).1⟩, hin⟩
  · rintro ⟨⟨hfailed, hretry⟩, hin⟩
    exact ⟨retry_row env x n user_id row, (mem_retry_rows hnodup).mpr
      ⟨row, ⟨⟨⟨hrow, hfailed⟩, fun s hs _ hslot => hlast s hs hslot⟩, hin⟩, n,
      (hwants n).mpr ⟨hretry, rfl⟩, rfl⟩, rfl⟩

/-- The attempts of each node and host are in order, and a later one exists of a
finished row only. -/
structure InOrder (dag : Dag) (rows : List NodeExec) : Prop where
  attempts : AttemptsOk dag rows
  finished : ∀ r ∈ rows, ∀ p ∈ rows, SameSlot r p → r.attempt_no = p.attempt_no + 1 →
    p.status.terminal = true

namespace InOrder

variable {dag : Dag} {t : Table} {rows : List NodeExec}

/-- An unfinished row is the last attempt. -/
theorem lastAttempt (h : InOrder dag rows) (hrow : row ∈ rows)
    (hopen : row.status.terminal = false) :
    LastAttempt rows row := by
  intro s hs hslot
  by_contra hlt
  obtain ⟨p, hp, hpslot, hno⟩ := h.attempts.below hs (n := row.attempt_no + 1) (by omega) (by omega)
  have hterm := h.finished p hp row hrow ⟨hpslot.1.trans hslot.1, hpslot.2.trans hslot.2⟩ hno
  rw [hopen] at hterm
  cases hterm

/-- A save that keeps finished rows finished and leaves no row pending keeps the order. -/
theorem save {old new : NodeExec} {now : Time} {fields : List Field} (h : InOrder dag t.rows)
    (hold : old ∈ t.rows) (hpk : new.pk = old.pk)
    (hpending : (old.write new now fields).status ≠ .PENDING)
    (hterm : old.status.terminal = true → (old.write new now fields).status.terminal = true) :
    InOrder dag (t.save new now fields).rows where
  attempts := h.attempts.save hold hpk hpending
  finished r hr p hp hslot hno := by
    obtain ⟨r₀, hr₀, hidr⟩ := t.exists_of_mem_save hr
    obtain ⟨p₀, hp₀, hidp⟩ := t.exists_of_mem_save hp
    have hterm₀ : p₀.status.terminal = true := by
      refine h.finished r₀ hr₀ p₀ hp₀ ⟨?_, ?_⟩ (by rw [← hidr.attempt_no, hno, hidp.attempt_no])
      · rw [← hidr.node_key, hslot.1, hidp.node_key]
      · rw [← hidr.host_id, hslot.2, hidp.host_id]
    obtain ⟨hp, _⟩ | rfl := (t.mem_save hold hpk p).mp hp
    · obtain rfl := t.eq_of_pk hp hp₀ hidp.pk
      exact hterm₀
    · obtain rfl := t.eq_of_pk hold hp₀ hidp.pk
      exact hterm hterm₀

theorem initial (dag : Dag) : InOrder dag World.initial.rows :=
  ⟨attemptsOk_initial dag, by simp [World.initial, World.rows, Table.empty]⟩

end InOrder

/-- A save never takes a finished row back. -/
theorem Write.keeps_terminal {log : List Entry} {rows : List NodeExec} {old new : NodeExec}
    (h : Write log rows old new) (hterm : old.status.terminal = true) :
    new.status.terminal = true := by
  cases h with
  | poll hrunning => simp [hrunning, Status.terminal] at hterm
  | refuse hpending | dispatch hpending => simp [hpending, Status.terminal] at hterm
  | cancel _ hnew => simp [hnew, Status.terminal]
  | aggregate env _ _ hnew =>
    rw [hnew]
    simp only [aggregated_row]
    split_ifs <;> rfl

/-- A row is inserted as a first attempt, or after a failed row. -/
theorem Step.inOrder {w w' : World} (h : Step ver w w') (hw : InOrder ver.dag w.rows) :
    InOrder ver.dag w'.rows := by
  refine ⟨h.attemptsOk hw.attempts, ?_⟩
  cases h with
  | begin | note | finish => exact hw.finished
  | save old row now fields hold hpk h =>
    exact (hw.save hold hpk h.status_ne_pending h.keeps_terminal).finished
  | insert act hx h hins =>
    rename_i x table created
    have hc := Table.bulk_create_created hins
    have hord := (Step.insert act hx h hins : Step ver w _).attemptsOk hw.attempts
    have hkey : ∀ {a b : NodeExec}, SameSlot a b → a.attempt_no = b.attempt_no →
        a.attempt_key = b.attempt_key := by
      rintro a b ⟨hk, hh⟩ hno
      simp only [NodeExec.attempt_key, hk, hh, hno]
    intro r hr p hp hslot hno
    -- the row of which `r` is the next attempt was there before
    have hold : ∃ q ∈ w.rows, q.attempt_key = p.attempt_key ∧
        (r ∉ w.rows → q.status.terminal = true) := by
      obtain hnew | hr := (hc.mem r).mp hr
      · obtain ⟨r₀, hr₀, heq⟩ := hc.row_of_mem r hnew
        have hno₀ : r.attempt_no = r₀.attempt_no := by rw [heq]
        have hslot₀ : SameSlot r r₀ := by rw [heq]; exact ⟨rfl, rfl⟩
        obtain hfirst | ⟨_, q, hq, hfailed, hqslot, hqno, _⟩ :=
          inserted_attempt w.table.attempt_nodup h hr₀
        · have hpos := hord.pos p hp
          omega
        · refine ⟨q, hq, hkey ⟨?_, ?_⟩ (by omega), fun _ => by rw [hfailed]; rfl⟩
          · rw [← hqslot.1, ← hslot₀.1, hslot.1]
          · rw [← hqslot.2, ← hslot₀.2, hslot.2]
      · obtain hfirst | ⟨q, hq, hqslot, hqno⟩ := hw.attempts.pred r hr
        · have hpos := hord.pos p hp
          omega
        · refine ⟨q, hq, hkey ⟨?_, ?_⟩ (by omega), fun hnot => absurd hr hnot⟩
          · rw [← hqslot.1, hslot.1]
          · rw [← hqslot.2, hslot.2]
    obtain ⟨q, hq, hqkey, hterm⟩ := hold
    obtain rfl : q = p := table.eq_of_attempt_key ((hc.mem q).mpr (Or.inr hq)) hp hqkey
    by_cases hr' : r ∈ w.rows
    · exact hw.finished r hr' q hq hslot hno
    · exact hterm hr'

/-- Along any steps the attempts are in order. -/
theorem Moves.inOrder {w w' : World} (h : Moves ver w w') (hw : InOrder ver.dag w.rows) :
    InOrder ver.dag w'.rows :=
  history.Moves.invariant (C := fun _ => True) (T := fun s : Db => InOrder ver.dag s.2.rows)
    (fun _ _ h => h.log_grows) (fun _ _ h _ hw => h.inOrder hw) h (fun _ _ => trivial) hw

end taurus.engine.runner
