import Taurus.Engine.Concurrent.Database
import Taurus.Engine.Concurrent.Session

namespace taurus.engine.concurrent

open taurus.lib taurus.python taurus.engine.runner

/-- What a session may still do: whether its transaction is open, the rows it has created
and the loop children it has read, and the row whose answer it has to save next. -/
structure Standing where
  active : Bool := false
  created : List NodeExec := []
  children : List NodeExec := []
  flight : Option NodeExec := none

namespace Standing

/-- After an insert the session may go on with created rows that are no loop children. -/
def Creates (h : Standing) (answer : Option (List NodeExec)) (h' : Standing) : Prop :=
  ∃ created, h' = { h with created } ∧
    ∀ c ∈ created, c ∈ h.created ∨ (is_loop_child c = false ∧ ∃ rows, answer = some rows ∧ c ∈ rows)

/-- After a read the session may go on with loop children it has read. -/
def Reads (h : Standing) (rows : List NodeExec) (h' : Standing) : Prop :=
  ∃ children, h' = { h with children } ∧ ∀ r ∈ children, r ∈ h.children ∨
  (is_loop_child r = true ∧ r ∈ rows)

end Standing

/-- Two rows with different keys. -/
def Apart (a b : NodeExec) : Prop := a.pk ≠ b.pk ∧ a.dispatch_id ≠ b.dispatch_id

/-- A row that is said to come from a poll does. -/
def Source.Honest (row : NodeExec) (fields : List Field) : Source → Prop
  | poll env execution loaded => polled env execution loaded = .ok (row, fields)
  | other => True

/-- How the runner works on the database: no save makes a row pending, the answer of an
adapter is saved before anything else is done, and only created rows and loop children
that were read are dispatched. -/
def discipline : Protocol Stmt Stmt.Answer Standing where
  allowed h
    | .update source row _ fields => source.Honest row fields ∧
        (.status ∈ fields → row.status ≠ .PENDING) ∧ ∀ f, h.flight = some f →
        row.pk = f.pk ∧ .status ∈ fields
    | .insert _ => h.active = true ∧ h.flight = none
    | .dispatch row => h.flight = none ∧
        if is_loop_child row then
          ∃ r ∈ h.children, row.SameIdentity r
        else ∃ r ∈ h.created, row.SameIdentity r
    | .rollback => True
    | _ => h.flight = none
  answers h
    | .insert rows, some created => (∀ c ∈ created, ∃ r ∈ rows, c = { r with pk := c.pk }) ∧
        created.Pairwise Apart ∧ ∀ c ∈ created, ∀ r ∈ h.created, Apart r c
    | _, _ => True
  next h
    | .begin, _, h' => h' = { active := true }
    | .commit, _, h' | .rollback, _, h' => h' = {}
    | .update _ row _ _, _, h' =>
      h' = { h with created := h.created.filter (·.pk ≠ row.pk), flight := none }
    | .dispatch row, _, h' =>
        h' = { h with created := h.created.filter (·.dispatch_id ≠ row.dispatch_id), flight := some row }
    | .insert _, answer, h' => h.Creates answer h'
    | .select, rows, h' => h.Reads rows h'
    | .select_execution, _, h' | .select_for_update _, _, h' | .update_execution _, _, h' => h' = h

/-- The standing of session `i` fits the database. -/
structure Fits (d : Database) (i : Nat) (h : Standing) : Prop where
  active : h.active = true → i ∈ d.transactions
  created : ∀ c ∈ h.created, is_loop_child c = false ∧ c ∈ d.rows ∧
    { owner := i, pk := c.pk, before := none } ∈ d.locks
  children : ∀ r ∈ h.children, is_loop_child r = true ∧ Seen d i r
  apart : ∀ c ∈ h.created, ∀ r ∈ h.children, c.dispatch_id ≠ r.dispatch_id
  flight : ∀ f, h.flight = some f → (i, f) ∈ d.unsaved ∧ Seen d i f

/-- The standings of all sessions fit the database. -/
structure Sound (d : Database) (hs : Nat → Standing) : Prop where
  locked : WellLocked d
  fits : ∀ i, Fits d i (hs i)

/-- What a change of the database leaves to session `j`. -/
structure Leaves (j : Nat) (d d' : Database) : Prop where
  active : j ∈ d.transactions → j ∈ d'.transactions
  own : ∀ c ∈ d.rows, { owner := j, pk := c.pk, before := none } ∈ d.locks →
    c ∈ d'.rows ∧ { owner := j, pk := c.pk, before := none } ∈ d'.locks
  seen : ∀ r, Seen d j r → Seen d' j r
  unsaved : ∀ f, (j, f) ∈ d.unsaved → (j, f) ∈ d'.unsaved

variable {d d' : Database} {i j : Nat} {h h' : Standing} {hs : Nat → Standing}

theorem Leaves.refl (j : Nat) (d : Database) : Leaves j d d where
  active := id
  own _ hc hl := ⟨hc, hl⟩
  seen _ := id
  unsaved _ := id

/-- What a session knows survives what others do. -/
theorem Fits.of_leaves (hfits : Fits d j h) (hleaves : Leaves j d d') : Fits d' j h where
  active ha := hleaves.active (hfits.active ha)
  created c hc :=
    have ⟨hchild, hrow, hlock⟩ := hfits.created c hc
    ⟨hchild, hleaves.own c hrow hlock⟩
  children r hr := ⟨(hfits.children r hr).1, hleaves.seen r (hfits.children r hr).2⟩
  apart := hfits.apart
  flight f hf := ⟨hleaves.unsaved f (hfits.flight f hf).1, hleaves.seen f (hfits.flight f hf).2⟩

/-- A statement that leaves the other sessions what they have keeps the database sound, if
the session itself still fits. -/
theorem Sound.update (hsound : Sound d hs) (hlocked : WellLocked d')
    (hleaves : ∀ j, j ≠ i → Leaves j d d') (hfits : Fits d' i h') :
    Sound d' (Function.update hs i h') where
  locked := hlocked
  fits j := by
    by_cases hj : j = i
    · subst hj
      rw [Function.update_self]
      exact hfits
    · rw [Function.update_of_ne hj]
      exact (hsound.fits j).of_leaves (hleaves j hj)

/-- A session that knows nothing fits. -/
theorem fits_empty (d : Database) (i : Nat) : Fits d i {} where
  active ha := by cases ha
  created := by simp
  children := by simp
  apart := by simp
  flight := by simp

/-- A created row has been seen by its session. -/
theorem Fits.seen_of_created (hfits : Fits d i h) (hlocked : WellLocked d) {c : NodeExec}
    (hc : c ∈ h.created) :
    Seen d i c := by
  obtain ⟨_, hrow, hlock⟩ := hfits.created c hc
  refine ⟨c, hrow, .refl c, fun l hl hpk _ => ?_⟩
  obtain rfl := hlocked.eq_of_pk hl hlock hpk
  rfl

/-- Beginning a transaction keeps all sessions sound. -/
theorem sound_begin (hsound : Sound d hs) :
    Sound { d with transactions := i :: d.transactions }
      (Function.update hs i { active := true }) := by
  refine hsound.update ⟨hsound.locked.pk_nodup, hsound.locked.pk_lt⟩ (fun j _ => ?_) ?_
  · exact ⟨List.mem_cons_of_mem _, fun c hc hl => ⟨hc, hl⟩, fun _ hr => hr, fun _ => id⟩
  · exact { fits_empty _ i with active := fun _ => List.mem_cons_self }

section close

/-- The locks of the other sessions stay when one closes its transaction. -/
theorem wellLocked_others (h : WellLocked d) (hlocks : d'.locks = d.others i)
    (hpk : d'.table.next_pk = d.table.next_pk) : WellLocked d' where
  pk_nodup := hlocks ▸ others_pk_nodup h i
  pk_lt l hl := by
    rw [hlocks, mem_others] at hl
    exact hpk ▸ h.pk_lt l hl.1

theorem sound_commit (hsound : Sound d hs) : Sound (d.commit i) (Function.update hs i {}) := by
  refine hsound.update (wellLocked_others hsound.locked rfl rfl) (fun j hj => ?_) (fits_empty _ i)
  constructor
  · exact fun hmem => List.mem_filter.mpr ⟨hmem, by simpa using hj⟩
  · exact fun c hc hl => ⟨hc, mem_others.mpr ⟨hl, hj⟩⟩
  · rintro r ⟨x, hx, hid, hinserted⟩
    exact ⟨x, hx, hid, fun l hl => hinserted l (mem_others.mp hl).1⟩
  · exact fun f hf => List.mem_filter.mpr ⟨hf, by simpa using hj⟩

/-- A rollback leaves the rows that the session has not inserted. -/
theorem mem_rollback (hlocked : WellLocked d) {x : NodeExec} (hx : x ∈ d.rows)
    (hinserted : ∀ l ∈ d.locks, l.pk = x.pk → l.before = none → l.owner ≠ i) :
    ∃ x' ∈ (d.rollback i).rows, x'.SameIdentity x ∧
      (x' = x ∨ ∃ l ∈ d.own i, l.pk = x.pk ∧ ∃ b, l.before = some b ∧ x' = revert x b) := by
  by_cases hown : ∃ l ∈ d.own i, l.pk = x.pk
  · obtain ⟨l, hl, hpk⟩ := hown
    obtain ⟨hin, howner⟩ := mem_own.mp hl
    obtain ⟨b, hb⟩ : ∃ b, l.before = some b := by
      cases hbefore : l.before with
      | none => exact absurd howner (hinserted l hin hpk hbefore)
      | some b => exact ⟨b, rfl⟩
    have hrow : undo_row (d.own i) x = some (revert x b) := by
      rw [undo_row_locked (own_pk_nodup hlocked i) hl hpk, hb, Option.map_some]
    exact ⟨revert x b, List.mem_filterMap.mpr ⟨x, hx, hrow⟩, undo_row_sameIdentity hrow,
      Or.inr ⟨l, hl, hpk, b, hb, rfl⟩⟩
  · have hrow : undo_row (d.own i) x = some x :=
      undo_row_unlocked fun l hl hpk => hown ⟨l, hl, hpk⟩
    exact ⟨x, List.mem_filterMap.mpr ⟨x, hx, hrow⟩, .refl x, Or.inl rfl⟩

theorem sound_rollback (hsound : Sound d hs) : Sound (d.rollback i) (Function.update hs i {}) := by
  refine hsound.update (wellLocked_others hsound.locked rfl rfl) (fun j hj => ?_) (fits_empty _ i)
  constructor
  · exact fun hmem => List.mem_filter.mpr ⟨hmem, by simpa using hj⟩
  · intro c hc hl
    refine ⟨List.mem_filterMap.mpr ⟨c, hc, undo_row_unlocked fun l hl' hpk => ?_⟩,
      mem_others.mpr ⟨hl, hj⟩⟩
    obtain ⟨hin, howner⟩ := mem_own.mp hl'
    obtain rfl := hsound.locked.eq_of_pk hin hl hpk
    exact hj howner
  · rintro r ⟨x, hx, hid, hinserted⟩
    obtain ⟨x', hx', hid', _⟩ := mem_rollback hsound.locked (i := i) hx fun l hl hpk hbefore => by
      rw [hinserted l hl hpk hbefore]
      exact hj
    refine ⟨x', hx', hid'.trans hid, fun l hl hpk => ?_⟩
    exact hinserted l (mem_others.mp hl).1 (hpk.trans hid'.pk)
  · exact fun f hf => List.mem_filter.mpr ⟨hf, by simpa using hj⟩

end close

section writes

/-- Locks on stored rows keep the database well locked. -/
theorem wellLocked_lock (hlocked : WellLocked d) {rows : List NodeExec}
    (hsub : ∀ r ∈ rows, ∃ x ∈ d.rows, x.pk = r.pk) (hnodup : (rows.map (·.pk)).Nodup)
    (hfree : ∀ r ∈ rows, d.held i r.pk = false) (hlocks : d'.locks = d.lock i rows)
    (hpk : d'.table.next_pk = d.table.next_pk) : WellLocked d' where
  pk_nodup := hlocks ▸ lock_pk_nodup hlocked hnodup hfree
  pk_lt l hl := by
    rw [hlocks] at hl
    rw [hpk]
    obtain hl | ⟨_, r, hr, _, rfl⟩ := mem_lock.mp hl
    · exact hlocked.pk_lt l hl
    · obtain ⟨x, hx, hxpk⟩ := hsub r hr
      exact hxpk ▸ d.table.pk_lt x hx

/-- A save keeps which rows are stored. -/
theorem exists_mem_saved {row : NodeExec} {now : Time} {fields : List Field} (x : NodeExec)
    (hx : x ∈ d.rows) :
    ∃ x' ∈ (d.table.save row now fields).rows, x'.SameIdentity x :=
  d.table.exists_mem_save row now fields hx

theorem sound_update {row : NodeExec} {now : Time} {fields : List Field} (hsound : Sound d hs)
    (hupdate : d.update i row now fields = some d') : Sound d' (Function.update hs i
      { hs i with created := (hs i).created.filter (·.pk ≠ row.pk), flight := none }) := by
  unfold Database.update at hupdate
  split_ifs at hupdate with hheld
  rw [Bool.not_eq_true] at hheld
  obtain rfl := Option.some.inj hupdate
  have hseen : ∀ {j r}, Seen d j r → Seen { d with
      table := d.table.save row now fields
      locks := d.lock i (d.rows.filter (·.pk = row.pk))
      unsaved := d.unsaved.filter fun p => ¬(p.1 = i ∧ p.2.pk = row.pk) } j r :=
    fun h => h.of_lock rfl rfl exists_mem_saved
  have hlock : ∀ {j pk}, { owner := j, pk, before := none } ∈ d.locks →
      { owner := j, pk, before := none } ∈ d.lock i (d.rows.filter (·.pk = row.pk)) :=
    fun h => mem_lock.mpr (Or.inl h)
  have hstored : ∀ {c}, c ∈ d.rows → c.pk ≠ row.pk → c ∈ (d.table.save row now fields).rows := by
    intro c hc hpk
    exact List.mem_map.mpr ⟨c, hc, if_neg hpk⟩
  have hlocked := @wellLocked_lock _ { d with
      table := d.table.save row now fields
      locks := d.lock i (d.rows.filter (·.pk = row.pk))
      unsaved := d.unsaved.filter fun p => ¬(p.1 = i ∧ p.2.pk = row.pk) } i hsound.locked
        (d.rows.filter (·.pk = row.pk))
  refine hsound.update (hlocked ?_ ?_ ?_ rfl rfl) (fun j hj => ?_) ?_
  · exact fun r hr => ⟨r, (List.mem_filter.mp hr).1, rfl⟩
  · exact d.table.pk_nodup.sublist (List.filter_sublist.map _)
  · intro r hr
    have hpk : r.pk = row.pk := by simpa using (List.mem_filter.mp hr).2
    rw [hpk]
    exact hheld
  · refine ⟨id, fun c hc hl => ⟨hstored hc fun hpk => ?_, hlock hl⟩, fun _ => hseen, fun f hf => ?_⟩
    · exact hj (held_eq_false.mp hheld _ hl hpk)
    · exact List.mem_filter.mpr ⟨hf, by simp [hj]⟩
  · have hfits := hsound.fits i
    refine ⟨hfits.active, fun c hc => ?_, fun r hr => ?_, fun c hc => ?_, fun f hf => by cases hf⟩
    · obtain ⟨hc, hpk⟩ := List.mem_filter.mp hc
      obtain ⟨hchild, hrow, hl⟩ := hfits.created c hc
      exact ⟨hchild, hstored hrow (by simpa using hpk), hlock hl⟩
    · exact ⟨(hfits.children r hr).1, hseen (hfits.children r hr).2⟩
    · exact hfits.apart c (List.mem_filter.mp hc).1

theorem sound_select_for_update {p : NodeExec → Bool} {rows : List NodeExec} (hsound : Sound d hs)
    (hselect : d.select_for_update i p = some (rows, d')) :
    Sound d' (Function.update hs i (hs i)) := by
  unfold Database.select_for_update at hselect
  split_ifs at hselect with hwaits
  obtain ⟨rfl, rfl⟩ := Prod.mk.inj (Option.some.inj hselect)
  rw [Bool.not_eq_true, List.any_eq_false] at hwaits
  have hleaves : ∀ j, Leaves j d { d with locks := d.lock i ((d.visible i).filter p) } := by
    intro j
    refine ⟨id, fun c hc hl => ⟨hc, mem_lock.mpr (Or.inl hl)⟩, fun r hr => ?_, fun _ => id⟩
    exact hr.of_lock rfl rfl fun x hx => ⟨x, hx, .refl x⟩
  have hlocked :=
    @wellLocked_lock _ { d with locks := d.lock i ((d.visible i).filter p) } i hsound.locked
    ((d.visible i).filter p)
  refine hsound.update (hlocked ?_ ?_ ?_ rfl rfl) (fun j _ => hleaves j)
    ((hsound.fits i).of_leaves (hleaves i))
  · intro r hr
    obtain ⟨x, hx, hrow⟩ := List.mem_filterMap.mp (List.mem_filter.mp hr).1
    exact ⟨x, hx, (undo_row_sameIdentity hrow).pk.symm⟩
  · exact (undo_nodup (·.pk) d.table.pk_nodup).sublist (List.filter_sublist.map _)
  · intro r hr
    obtain ⟨hvisible, hp⟩ := List.mem_filter.mp hr
    obtain ⟨x, hx, hrow⟩ := List.mem_filterMap.mp hvisible
    have hwait := hwaits x hx
    rw [(undo_row_sameIdentity hrow).pk]
    by_contra hheld
    rw [Bool.not_eq_false] at hheld
    exact hwait (by simp [hheld, hrow, hp])

theorem sound_select (hsound : Sound d hs) (hreads : (hs i).Reads (d.visible i) h') :
    Sound d (Function.update hs i h') := by
  obtain ⟨children, rfl, hchildren⟩ := hreads
  have hfits := hsound.fits i
  refine hsound.update hsound.locked (fun j _ => .refl j d) ?_
  refine ⟨hfits.active, hfits.created, fun r hr => ?_, fun c hc r hr => ?_, hfits.flight⟩
  · obtain hr | ⟨hchild, hr⟩ := hchildren r hr
    · exact hfits.children r hr
    · exact ⟨hchild, seen_of_visible hsound.locked hr⟩
  · obtain hr | ⟨hchild, hr⟩ := hchildren r hr
    · exact hfits.apart c hc r hr
    · intro hid
      obtain ⟨hno, hrow, hl⟩ := hfits.created c hc
      rw [visible_eq_of_own hsound.locked hrow hl rfl rfl hr hid.symm, hno] at hchild
      cases hchild

end writes

section inserts

variable {table : Table} {rows created : List NodeExec}

/-- Stored rows with different primary keys are apart. -/
theorem apart_of_stored {t : Table} {a b : NodeExec} (ha : a ∈ t.rows) (hb : b ∈ t.rows)
    (hpk : a.pk ≠ b.pk) :
    Apart a b := by
  refine ⟨hpk, fun hid => ?_⟩
  obtain rfl := List.inj_on_of_nodup_map t.dispatch_nodup ha hb hid
  exact hpk rfl

/-- The database after an insert. -/
def inserted (d : Database) (i : Nat) (table : Table) (created : List NodeExec) : Database :=
  { d with
    table, locks := if i ∈ d.transactions then
      d.locks ++ created.map fun c => { owner := i, pk := c.pk, before := none : Lock } else d.locks }

/-- A bulk insert stores its rows, or meets a duplicate. -/
theorem insert_eq_some {answer : Option (List NodeExec)} (h : d.insert i rows = some (answer, d')) :
    (answer = none ∧ d' = d) ∨ ∃ table created, d.table.bulk_create rows = some (table, created) ∧
      answer = some created ∧ d' = inserted d i table created := by
  unfold Database.insert at h
  split at h
  · rename_i table created hcreate
    obtain ⟨rfl, rfl⟩ := Prod.mk.inj (Option.some.inj h)
    exact Or.inr ⟨table, created, hcreate, rfl, rfl⟩
  · split_ifs at h
    obtain ⟨rfl, rfl⟩ := Prod.mk.inj (Option.some.inj h)
    exact Or.inl ⟨rfl, rfl⟩

/-- An insert locks what it created. -/
theorem mem_inserted_locks {l : Lock} (hl : l ∈ (inserted d i table created).locks) :
    l ∈ d.locks ∨ ∃ c ∈ created, l = { owner := i, pk := c.pk, before := none } := by
  unfold inserted at hl
  simp only at hl
  split_ifs at hl
  · obtain hl | hl := List.mem_append.mp hl
    · exact Or.inl hl
    · obtain ⟨c, hc, rfl⟩ := List.mem_map.mp hl
      exact Or.inr ⟨c, hc, rfl⟩
  · exact Or.inl hl

theorem subset_inserted_locks : d.locks ⊆ (inserted d i table created).locks := by
  intro l hl
  unfold inserted
  simp only
  split_ifs
  · exact List.mem_append_left _ hl
  · exact hl

variable (hins : Table.Created d.table table rows created)
include hins

/-- The locks stay well formed. -/
theorem wellLocked_insert (hlocked : WellLocked d) : WellLocked (inserted d i table created) where
  pk_nodup := by
    unfold inserted
    simp only
    split_ifs
    · rw [List.map_append, List.nodup_append, List.map_map]
      refine ⟨hlocked.pk_nodup, hins.pk_nodup, fun a ha b hb hab => ?_⟩
      obtain ⟨l, hl, rfl⟩ := List.mem_map.mp ha
      obtain ⟨c, hc, rfl⟩ := List.mem_map.mp hb
      have hlt := hlocked.pk_lt l hl
      have hle := hins.pk_le c hc
      simp only [Function.comp_apply] at hab
      omega
    · exact hlocked.pk_nodup
  pk_lt l hl := by
    obtain hl | ⟨c, hc, rfl⟩ := mem_inserted_locks hl
    · have hlt := hlocked.pk_lt l hl
      have hle := hins.next_pk
      change l.pk < table.next_pk
      omega
    · exact table.pk_lt c ((hins.mem c).mpr (Or.inl hc))

/-- An insert leaves every session what it has. -/
theorem leaves_insert (j : Nat) : Leaves j d (inserted d i table created) where
  active := id
  own c hc hl := ⟨(hins.mem c).mpr (Or.inr hc), subset_inserted_locks hl⟩
  seen := by
    rintro r ⟨x, hx, hid, hinserted⟩
    refine ⟨x, (hins.mem x).mpr (Or.inr hx), hid, fun l hl hpk => ?_⟩
    obtain hl | ⟨c, hc, rfl⟩ := mem_inserted_locks hl
    · exact hinserted l hl hpk
    · have hlt := hins.pk_lt hc hx
      simp only at hpk
      omega
  unsaved _ := id

/-- Created rows differ in their attempts. -/
theorem created_apart : created.Pairwise Apart := by
  have hmem : ∀ c ∈ created, c ∈ table.rows := fun c hc => (hins.mem c).mpr (Or.inl hc)
  have hpks := List.pairwise_map.mp hins.pk_nodup
  exact hpks.imp_of_mem fun ha hb hne => apart_of_stored (hmem _ ha) (hmem _ hb) hne

/-- They differ from the rows before, too. -/
theorem created_apart_from {c r : NodeExec} (hc : c ∈ created) (hr : r ∈ d.rows) : Apart r c := by
  refine apart_of_stored (t := table) ((hins.mem r).mpr (Or.inr hr))
    ((hins.mem c).mpr (Or.inl hc)) ?_
  have hlt := hins.pk_lt hc hr
  omega

/-- The session knows what it created. -/
theorem sound_inserted (hsound : Sound d hs) (hactive : (hs i).active = true)
    (hcreates : (hs i).Creates (some created) h') :
    Sound (inserted d i table created) (Function.update hs i h') := by
  obtain ⟨held, rfl, hheld⟩ := hcreates
  refine hsound.update (wellLocked_insert hins hsound.locked) (fun j _ => leaves_insert hins j) ?_
  have hfits := (hsound.fits i).of_leaves (leaves_insert hins (i := i) i)
  refine ⟨hfits.active, fun c hc => ?_, hfits.children, fun c hc r hr => ?_, hfits.flight⟩
  · obtain hc | ⟨hno, _, heq, hc⟩ := hheld c hc
    · exact hfits.created c hc
    · obtain rfl := Option.some.inj heq
      refine ⟨hno, (hins.mem c).mpr (Or.inl hc), ?_⟩
      unfold inserted
      rw [if_pos ((hsound.fits i).active hactive)]
      exact List.mem_append_right _ (List.mem_map.mpr ⟨c, hc, rfl⟩)
  · obtain hc | ⟨_, _, heq, hc⟩ := hheld c hc
    · exact hfits.apart c hc r hr
    · obtain rfl := Option.some.inj heq
      obtain ⟨_, x, hx, hid, _⟩ := (hsound.fits i).children r hr
      rw [← hid.dispatch_id]
      exact (created_apart_from hins hc hx).2.symm

end inserts

/-- A row that was seen may be handed out. -/
theorem sound_dispatch {row r : NodeExec} (hsound : Sound d hs) (hid : row.SameIdentity r)
    (hseen : Seen d i r) :
    Sound { d with handed := d.handed ++ [(i, row)], unsaved := d.unsaved ++ [(i, row)] }
      (Function.update hs i
        { hs i with created := (hs i).created.filter (·.dispatch_id ≠ row.dispatch_id), flight := some row }) := by
  have hleaves : ∀ j, Leaves j d
      { d with handed := d.handed ++ [(i, row)], unsaved := d.unsaved ++ [(i, row)] } :=
    fun j => ⟨id, fun _ hc hl => ⟨hc, hl⟩, fun _ h => h, fun _ => List.mem_append_left _⟩
  refine hsound.update ⟨hsound.locked.pk_nodup, hsound.locked.pk_lt⟩ (fun j _ => hleaves j) ?_
  have hfits := (hsound.fits i).of_leaves (hleaves i)
  refine ⟨hfits.active, fun c hc => hfits.created c (List.mem_filter.mp hc).1, hfits.children,
    fun c hc => hfits.apart c (List.mem_filter.mp hc).1, fun f hf => ?_⟩
  obtain rfl := Option.some.inj hf
  exact ⟨List.mem_append_right _ (List.mem_singleton_self _), hseen.congr hid.symm⟩

/-- The row a session dispatches has been seen by it. -/
theorem seen_of_dispatch {row : NodeExec} (hsound : Sound d hs)
    (hallowed : discipline.allowed (hs i) (.dispatch row)) :
    ∃ r, row.SameIdentity r ∧ Seen d i r := by
  obtain ⟨_, hcases⟩ := hallowed
  split_ifs at hcases
  · obtain ⟨r, hr, hid⟩ := hcases
    exact ⟨r, hid, ((hsound.fits i).children r hr).2⟩
  · obtain ⟨r, hr, hid⟩ := hcases
    exact ⟨r, hid, (hsound.fits i).seen_of_created hsound.locked hr⟩

/-- Saving the execution changes no row. -/
theorem sound_update_execution {change : Execution → Execution} (hsound : Sound d hs)
    (hupdate : d.update_execution i change = some d') : Sound d' (Function.update hs i (hs i)) := by
  have hsame : d'.table = d.table ∧ d'.locks = d.locks ∧ d'.transactions = d.transactions ∧
      d'.unsaved = d.unsaved := by
    unfold Database.update_execution at hupdate
    split at hupdate
    · split_ifs at hupdate
      obtain rfl := Option.some.inj hupdate
      exact ⟨rfl, rfl, rfl, rfl⟩
    · obtain rfl := Option.some.inj hupdate
      exact ⟨rfl, rfl, rfl, rfl⟩
  obtain ⟨htable, hlocks, htransactions, hunsaved⟩ := hsame
  have hleaves : ∀ j, Leaves j d d' := by
    intro j
    refine ⟨fun h => htransactions ▸ h, fun c hc hl => ?_, fun r hr => ?_,
      fun f hf => hunsaved ▸ hf⟩
    · rw [Database.rows, htable, hlocks]
      exact ⟨hc, hl⟩
    · obtain ⟨x, hx, hid, hinserted⟩ := hr
      refine ⟨x, ?_, hid, hlocks ▸ hinserted⟩
      rw [Database.rows, htable]
      exact hx
  refine hsound.update ⟨hlocks ▸ hsound.locked.pk_nodup, fun l hl => ?_⟩ (fun j _ => hleaves j)
    ((hsound.fits i).of_leaves (hleaves i))
  rw [htable]
  exact hsound.locked.pk_lt l (hlocks ▸ hl)

/-- Every statement of a session that keeps to the discipline keeps the database sound. -/
theorem sound_exec {c : Stmt} {answer : c.Answer} (hsound : Sound d hs)
    (hallowed : discipline.allowed (hs i) c) (hexec : exec i c d = some (answer, d')) :
    discipline.answers (hs i) c answer ∧
      ∀ h', discipline.next (hs i) c answer h' → Sound d' (Function.update hs i h') := by
  cases c with
  | begin =>
    obtain ⟨_, rfl⟩ := Prod.mk.inj (Option.some.inj hexec)
    exact ⟨trivial, fun h' hnext => hnext ▸ sound_begin hsound⟩
  | commit =>
    obtain ⟨_, rfl⟩ := Prod.mk.inj (Option.some.inj hexec)
    exact ⟨trivial, fun h' hnext => hnext ▸ sound_commit hsound⟩
  | rollback =>
    obtain ⟨_, rfl⟩ := Prod.mk.inj (Option.some.inj hexec)
    exact ⟨trivial, fun h' hnext => hnext ▸ sound_rollback hsound⟩
  | select_execution =>
    obtain ⟨_, rfl⟩ := Prod.mk.inj (Option.some.inj hexec)
    refine ⟨trivial, fun h' hnext => ?_⟩
    obtain rfl : h' = hs i := hnext
    rwa [Function.update_eq_self]
  | select =>
    obtain ⟨rfl, rfl⟩ := Prod.mk.inj (Option.some.inj hexec)
    exact ⟨trivial, fun h' hnext => sound_select hsound hnext⟩
  | select_for_update p =>
    refine ⟨trivial, fun h' hnext => ?_⟩
    obtain rfl : h' = hs i := hnext
    exact sound_select_for_update hsound hexec
  | update source row now fields =>
    obtain ⟨d₁, hupdate, heq⟩ := Option.map_eq_some_iff.mp hexec
    obtain ⟨_, rfl⟩ := Prod.mk.inj heq
    exact ⟨trivial, fun h' hnext => hnext ▸ sound_update hsound hupdate⟩
  | update_execution change =>
    obtain ⟨d₁, hupdate, heq⟩ := Option.map_eq_some_iff.mp hexec
    obtain ⟨_, rfl⟩ := Prod.mk.inj heq
    refine ⟨trivial, fun h' hnext => ?_⟩
    obtain rfl : h' = hs i := hnext
    exact sound_update_execution hsound hupdate
  | insert rows =>
    obtain ⟨rfl, rfl⟩ | ⟨table, created, hcreate, rfl, rfl⟩ := insert_eq_some hexec
    · refine ⟨trivial, fun h' hnext => ?_⟩
      obtain ⟨held, rfl, hheld⟩ := hnext
      refine hsound.update hsound.locked (fun j _ => .refl j d') ?_
      have hfits := hsound.fits i
      have hsub : ∀ c ∈ held, c ∈ (hs i).created := by
        intro c hc
        obtain hc | ⟨_, _, heq, _⟩ := hheld c hc
        · exact hc
        · cases heq
      exact ⟨hfits.active, fun c hc => hfits.created c (hsub c hc), hfits.children,
        fun c hc => hfits.apart c (hsub c hc), hfits.flight⟩
    · have hins := Table.bulk_create_created hcreate
      refine ⟨⟨hins.row_of_mem, created_apart hins, fun c hc r hr => ?_⟩,
        fun h' hnext => sound_inserted hins hsound hallowed.1 hnext⟩
      exact created_apart_from hins hc ((hsound.fits i).created r hr).2.1
  | dispatch row =>
    obtain ⟨r, hid, hseen⟩ := seen_of_dispatch hsound hallowed
    obtain ⟨_, rfl⟩ := Prod.mk.inj (Option.some.inj hexec)
    exact ⟨trivial, fun h' hnext => hnext ▸ sound_dispatch hsound hid hseen⟩

end taurus.engine.concurrent
