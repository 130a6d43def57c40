import Mathlib.Data.List.Nodup
import Taurus.Engine.Models

namespace taurus.engine.Table

open taurus.lib taurus.python

/-- The primary key identifies a row. -/
theorem eq_of_pk (t : Table) {a b : NodeExec} (ha : a ∈ t.rows) (hb : b ∈ t.rows)
    (h : a.pk = b.pk) : a = b := List.inj_on_of_nodup_map t.pk_nodup ha hb h

/-- So do the columns of `uniq_node_exec_attempt`. -/
theorem eq_of_attempt_key (t : Table) {a b : NodeExec} (ha : a ∈ t.rows) (hb : b ∈ t.rows)
    (h : a.attempt_key = b.attempt_key) : a = b := List.inj_on_of_nodup_map t.attempt_nodup ha hb h

/-- A save replaces the stored row and leaves all others as they are. -/
theorem mem_save (t : Table) {old row : NodeExec} {now : Time} {fields : List Field}
    (hold : old ∈ t.rows) (hpk : row.pk = old.pk) (x : NodeExec) :
    x ∈ (t.save row now fields).rows ↔
      (x ∈ t.rows ∧ x.pk ≠ old.pk) ∨ x = old.write row now fields := by
  simp only [save, List.mem_map, hpk]
  constructor
  · rintro ⟨r, hr, rfl⟩
    by_cases h : r.pk = old.pk
    · obtain rfl := t.eq_of_pk hr hold h
      exact Or.inr (by simp)
    · exact Or.inl (by simp [h, hr])
  · rintro (⟨hx, hne⟩ | rfl)
    · exact ⟨x, hx, by simp [hne]⟩
    · exact ⟨old, hold, by simp⟩

/-- A save keeps which rows there are. -/
theorem exists_of_mem_save (t : Table) {row x : NodeExec} {now : Time} {fields : List Field}
    (hx : x ∈ (t.save row now fields).rows) : ∃ r ∈ t.rows, x.SameIdentity r := by
  obtain ⟨r, hr, rfl⟩ := List.mem_map.mp hx
  refine ⟨r, hr, ?_⟩
  split_ifs
  · exact r.write_sameIdentity _ _ _
  · exact .refl r

/-- Every row is still there after a save. -/
theorem exists_mem_save (t : Table) (row : NodeExec) (now : Time) (fields : List Field)
    {r : NodeExec} (hr : r ∈ t.rows) : ∃ x ∈ (t.save row now fields).rows, x.SameIdentity r := by
  refine ⟨_, List.mem_map_of_mem hr, ?_⟩
  split_ifs
  · exact r.write_sameIdentity _ _ _
  · exact .refl r

/-- A save rewrites the row of its key. -/
theorem save_rows (t : Table) (row : NodeExec) (now : Time) (fields : List Field) :
    (t.save row now fields).rows =
      t.rows.map fun r => if r.pk = row.pk then r.write row now fields else r := rfl

@[simp] theorem save_next_pk (t : Table) (row : NodeExec) (now : Time) (fields : List Field) :
    (t.save row now fields).next_pk = t.next_pk := rfl

/-- An insert adds the stored row. -/
theorem mem_insert (t : Table) (r : NodeExec) (h : t.Fresh r) (x : NodeExec) :
    x ∈ (t.insert r h).rows ↔ x = t.stored r ∨ x ∈ t.rows := List.mem_orderedInsert _

/-- The rows of a key that the inserted row does not have stay as they are, in order. -/
theorem insert_filter (t : Table) (r : NodeExec) (h : t.Fresh r) {p : NodeExec → Bool}
    (hp : p (t.stored r) = false) : (t.insert r h).rows.filter p = t.rows.filter p := by
  simp only [insert]
  induction t.rows with
  | nil => simp [hp]
  | cons x rest ih =>
    rw [List.orderedInsert_cons]
    split_ifs
    · simp [hp]
    · simp [List.filter_cons, ih]

/-- What `bulk_create` answers for `rows`: the rows as stored. -/
structure Created (t t' : Table) (rows created : List NodeExec) : Prop where
  mem : ∀ x, x ∈ t'.rows ↔ x ∈ created ∨ x ∈ t.rows
  row_of_mem : ∀ c ∈ created, ∃ r ∈ rows, c = { r with pk := c.pk }
  mem_of_row : ∀ r ∈ rows, ∃ c ∈ created, c = { r with pk := c.pk }
  pk_le : ∀ c ∈ created, t.next_pk ≤ c.pk
  fresh : ∀ r ∈ rows, ∀ x ∈ t.rows, x.attempt_key ≠ r.attempt_key
  pk_nodup : (created.map (·.pk)).Nodup
  next_pk : t.next_pk ≤ t'.next_pk
  filter : ∀ p : NodeExec → Bool, (∀ r ∈ rows, ∀ n, p { r with pk := n } = false) →
    t'.rows.filter p = t.rows.filter p

/-- A bulk insert creates its rows, or nothing. -/
theorem bulk_create_created {t t' : Table} {rows created : List NodeExec}
    (h : t.bulk_create rows = some (t', created)) : Created t t' rows created := by
  induction rows generalizing t created with
  | nil =>
    simp only [bulk_create, Option.some.injEq, Prod.mk.injEq] at h
    obtain ⟨rfl, rfl⟩ := h
    constructor <;> simp
  | cons r rest ih =>
    simp only [bulk_create] at h
    split at h
    · rename_i hfresh
      cases hrest : bulk_create (t.insert r hfresh) rest with
      | none => simp [hrest] at h
      | some p =>
        obtain ⟨t₂, created₂⟩ := p
        simp only [hrest, Option.some.injEq, Prod.mk.injEq] at h
        obtain ⟨rfl, rfl⟩ := h
        have hc := ih hrest
        have hlt : t.next_pk < (t.insert r hfresh).next_pk := by simp [insert]
        have hle : ∀ c ∈ created₂, t.next_pk < c.pk := by
          intro c hcm
          have := hc.pk_le c hcm
          omega
        constructor
        · intro x
          rw [hc.mem, mem_insert, List.mem_cons]
          tauto
        · intro c hcm
          obtain rfl | hcm := List.mem_cons.mp hcm
          · exact ⟨r, List.mem_cons_self, rfl⟩
          · obtain ⟨s, hs, heq⟩ := hc.row_of_mem c hcm
            exact ⟨s, List.mem_cons_of_mem _ hs, heq⟩
        · intro s hs
          obtain rfl | hs := List.mem_cons.mp hs
          · exact ⟨t.stored s, List.mem_cons_self, rfl⟩
          · obtain ⟨c, hcm, heq⟩ := hc.mem_of_row s hs
            exact ⟨c, List.mem_cons_of_mem _ hcm, heq⟩
        · intro c hcm
          obtain rfl | hcm := List.mem_cons.mp hcm
          · exact le_refl _
          · exact (hle c hcm).le
        · intro s hs x hx
          obtain rfl | hs := List.mem_cons.mp hs
          · exact hfresh.1 x hx
          · exact hc.fresh s hs x ((mem_insert _ _ _ _).mpr (Or.inr hx))
        · rw [List.map_cons, List.nodup_cons]
          refine ⟨?_, hc.pk_nodup⟩
          intro hmem
          obtain ⟨c, hcm, hpk⟩ := List.mem_map.mp hmem
          have := hle c hcm
          simp only [Table.stored] at hpk
          omega
        · have := hc.next_pk
          omega
        · intro p hp
          rw [hc.filter p fun s hs n => hp s (List.mem_cons_of_mem _ hs) n]
          exact insert_filter t r hfresh (hp r List.mem_cons_self _)
    · cases h

/-- New rows violate no unique constraint beside the rows of a table. -/
def Insertable (rows new : List NodeExec) : Prop :=
  ((rows ++ new).map (·.attempt_key)).Nodup ∧ ((rows ++ new).map (·.dispatch_id)).Nodup

instance (rows new : List NodeExec) : Decidable (Insertable rows new) := by
  unfold Insertable; infer_instance

/-- Rows can be inserted together if they can one after the other. -/
theorem insertable_cons {t : Table} {r : NodeExec} (h : t.Fresh r) (rest : List NodeExec) :
    Insertable t.rows (r :: rest) ↔ Insertable (t.insert r h).rows rest := by
  have hperm : (t.rows ++ r :: rest).Perm ((r :: t.rows) ++ rest) := List.perm_middle
  have hinsert : ((t.insert r h).rows ++ rest).Perm ((t.stored r :: t.rows) ++ rest) :=
    (perm_orderedInsert _ _).append_right rest
  unfold Insertable
  rw [(hperm.map _).nodup_iff, (hperm.map _).nodup_iff, (hinsert.map _).nodup_iff,
    (hinsert.map _).nodup_iff]
  rfl

/-- `bulk_create` succeeds if and only if the rows violate no unique constraint. -/
theorem bulk_create_isSome_iff (t : Table) (rows : List NodeExec) :
    (t.bulk_create rows).isSome = true ↔ Insertable t.rows rows := by
  induction rows generalizing t with
  | nil => simp [bulk_create, Insertable, t.attempt_nodup, t.dispatch_nodup]
  | cons r rest ih =>
    simp only [bulk_create]
    by_cases h : t.Fresh r
    · rw [dif_pos h, insertable_cons h, ← ih]
      cases (t.insert r h).bulk_create rest <;> simp
    · rw [dif_neg h]
      refine iff_of_false (by simp) fun hins => h ⟨fun x hx heq => ?_, fun x hx heq => ?_⟩
      · rw [Insertable, List.map_append, List.map_cons] at hins
        exact (List.nodup_append.mp hins.1).2.2 _ (List.mem_map_of_mem hx) _ List.mem_cons_self heq
      · rw [Insertable, List.map_append, List.map_append, List.map_cons, List.map_cons] at hins
        exact (List.nodup_append.mp hins.2).2.2 _ (List.mem_map_of_mem hx) _ List.mem_cons_self heq

namespace Created

variable {t t' : Table} {rows created : List NodeExec}

/-- Created rows get larger keys. -/
theorem pk_lt (h : Created t t' rows created) {c x : NodeExec} (hc : c ∈ created)
    (hx : x ∈ t.rows) : x.pk < c.pk := (t.pk_lt x hx).trans_le (h.pk_le c hc)

end Created

end taurus.engine.Table
