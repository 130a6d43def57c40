import Taurus.Engine.Runner.World
import Taurus.Engine.Tables

namespace taurus.engine.concurrent

open taurus.lib taurus.python taurus.engine.runner

/-- A row that an open transaction has written, with the row as it was before; none for a
row that the transaction has inserted. -/
structure Lock where
  owner : Nat
  pk : Nat
  before : Option NodeExec

/-- What a saved row comes from: a poll of the row as it was loaded, or anything else. -/
inductive Source where
  | poll (env : Env) (execution : Execution) (loaded : NodeExec)
  | other

/-- The statements of the runner. The call of `adapter.dispatch` is no statement of the
database, but other sessions may go on before and after it. -/
inductive Stmt where
  | begin
  | commit
  | rollback
  | select_execution
  | select
  | select_for_update (p : NodeExec → Bool)
  | update (source : Source) (row : NodeExec) (now : Time) (fields : List Field)
  | update_execution (change : Execution → Execution)
  | insert (rows : List NodeExec)
  | dispatch (row : NodeExec)

/-- What a statement answers; a violated unique constraint is none. -/
def Stmt.Answer : Stmt → Type
  | select_execution => Option Execution
  | select | select_for_update _ => List NodeExec
  | insert _ => Option (List NodeExec)
  | begin | commit | rollback | update .. | update_execution _ | dispatch _ => Unit

/-- The stored row `r` with the columns a save may have changed as they were in `b`. -/
def revert (r b : NodeExec) : NodeExec :=
  { r with
    status := b.status, adapter_state := b.adapter_state, output := b.output,
    output_refs := b.output_refs, exit_code := b.exit_code, error_message := b.error_message,
    started_at := b.started_at, finished_at := b.finished_at, duration_ms := b.duration_ms,
    poll_count := b.poll_count, rendered_params := b.rendered_params, user_id := b.user_id,
    update_datetime := b.update_datetime }

/-- A stored row without what the transactions that hold `locks` have done to it. -/
def undo_row (locks : List Lock) (r : NodeExec) : Option NodeExec :=
  match locks.find? (·.pk = r.pk) with
  | none => some r
  | some l => l.before.map (revert r)

/-- Undoing keeps the identity of a row. -/
theorem undo_row_sameIdentity {locks : List Lock} {r x : NodeExec} (h : undo_row locks r = some x) :
    x.SameIdentity r := by
  unfold undo_row at h
  split at h
  · exact Option.some.inj h ▸ .refl x
  · obtain ⟨b, _, rfl⟩ := Option.map_eq_some_iff.mp h
    constructor <;> rfl

/-- Columns that `undo_row` keeps stay distinct. -/
theorem undo_nodup {β : Type} {locks : List Lock} {rows : List NodeExec} {key : NodeExec → β}
    (hkey : ∀ {x r : NodeExec}, x.SameIdentity r → key x = key r) (h : (rows.map key).Nodup) :
    ((rows.filterMap (undo_row locks)).map key).Nodup := by
  refine h.sublist ?_
  clear h
  induction rows with
  | nil => exact List.Sublist.refl _
  | cons r rest ih =>
    cases hrow : undo_row locks r with
    | none =>
      rw [List.filterMap_cons_none hrow]
      exact ih.cons _
    | some x =>
      rw [List.filterMap_cons_some hrow, List.map_cons, List.map_cons,
        hkey (undo_row_sameIdentity hrow)]
      exact ih.cons_cons _

/-- The table without what the transactions that hold `locks` have done. -/
def undo (t : Table) (locks : List Lock) : Table where
  rows := t.rows.filterMap (undo_row locks)
  next_pk := t.next_pk
  pk_nodup := undo_nodup (·.pk) t.pk_nodup
  pk_lt := by
    intro x hx
    obtain ⟨r, hr, hrow⟩ := List.mem_filterMap.mp hx
    rw [(undo_row_sameIdentity hrow).pk]
    exact t.pk_lt r hr
  attempt_nodup := by
    refine undo_nodup (fun h => ?_) t.attempt_nodup
    simp only [NodeExec.attempt_key, h.node_key, h.host_id, h.attempt_no]
  dispatch_nodup := undo_nodup (·.dispatch_id) t.dispatch_nodup

/-- The stored rows a list of new rows collides with first. -/
def collisions : Table → List NodeExec → List NodeExec
  | _, [] => []
  | t, r :: rest =>
    if h : t.Fresh r then collisions (t.insert r h) rest
    else t.rows.filter fun x => x.attempt_key = r.attempt_key ∨ x.dispatch_id = r.dispatch_id

/-- The database as the sessions around one execution share it: `table` with everything
that open transactions have written, the locks they hold for it, and the row of the
execution likewise. The others are history variables: the rows given to `adapter.dispatch`,
those of them whose answer is not saved yet, those whose answer a rollback has undone, and
the rows written by the committed transactions. -/
structure Database where
  execution : Option Execution
  table : Table
  locks : List Lock := []
  execution_lock : Option (Nat × Option Execution) := none
  transactions : List Nat := []
  handed : List (Nat × NodeExec) := []
  unsaved : List (Nat × NodeExec) := []
  lost : List (Nat × NodeExec) := []
  commits : List (Nat × List NodeExec) := []

namespace Database

variable (d : Database) (i : Nat)

def rows : List NodeExec := d.table.rows

/-- The locks of a session. -/
def own : List Lock := d.locks.filter (·.owner = i)

/-- The locks of all other sessions. -/
def others : List Lock := d.locks.filter (·.owner ≠ i)

/-- Another session holds the row. -/
def held (pk : Nat) : Bool := (d.others i).any (·.pk = pk)

/-- The rows as the session sees them: committed ones and its own. -/
def visible : List NodeExec := d.rows.filterMap (undo_row (d.others i))

/-- The locks after the session has written the rows, as they were before. Without an open
transaction a statement is a transaction of its own. -/
def lock (rows : List NodeExec) : List Lock :=
  if i ∈ d.transactions then
    d.locks ++ (rows.filter fun r => !(d.own i).any (·.pk = r.pk)).map fun r =>
      { owner := i, pk := r.pk, before := some r }
  else d.locks

def update (row : NodeExec) (now : Time) (fields : List Field) : Option Database :=
  if d.held i row.pk then none
  else some { d with
    table := d.table.save row now fields
    locks := d.lock i (d.rows.filter (·.pk = row.pk))
    unsaved := d.unsaved.filter fun p => ¬(p.1 = i ∧ p.2.pk = row.pk) }

/-- A locking read waits for every row that it would have to decide on. -/
def select_for_update (p : NodeExec → Bool) : Option (List NodeExec × Database) :=
  if d.rows.any fun r => d.held i r.pk && (p r || (undo_row (d.others i) r).any p) then none
  else
    let rows := (d.visible i).filter p
    some (rows, { d with locks := d.lock i rows })

/-- A row of another session's open transaction makes an insert wait, any other one
makes it fail. -/
def insert (rows : List NodeExec) : Option (Option (List NodeExec) × Database) :=
  match d.table.bulk_create rows with
  | some (table, created) =>
    let inserted := created.map fun c => { owner := i, pk := c.pk, before := none : Lock }
    some (some created, { d with
      table, locks := if i ∈ d.transactions then d.locks ++ inserted else d.locks })
  | none =>
    if (collisions d.table rows).any fun x => (d.others i).any fun l => l.pk = x.pk ∧
      l.before.isNone then none
    else some (none, d)

def select_execution : Option Execution :=
  match d.execution_lock with
  | some (owner, before) => if owner = i then d.execution else before
  | none => d.execution

def update_execution (change : Execution → Execution) : Option Database :=
  match d.execution_lock with
  | some (owner, _) =>
    if owner = i then some { d with execution := d.execution.map change } else none
  | none => some { d with
      execution := d.execution.map change
      execution_lock := if i ∈ d.transactions then some (i, d.execution) else none }

/-- The transaction of the session is over. -/
def close : Database :=
  { d with
    locks := d.others i
    execution_lock := d.execution_lock.filter (·.1 ≠ i)
    transactions := d.transactions.filter (· ≠ i)
    unsaved := d.unsaved.filter (·.1 ≠ i) }

def commit : Database :=
  { d.close i with
    commits := d.commits ++ [(i, d.rows.filter fun r => (d.own i).any (·.pk = r.pk))] }

/-- The rows that the session has given to an adapter for an answer it has in its open
transaction or has not saved. -/
def undone : List (Nat × NodeExec) :=
  d.handed.filter fun p => p.1 = i ∧
    ((d.own i).any (·.pk = p.2.pk) ∨ d.unsaved.any fun q => q.1 = i ∧ q.2.pk = p.2.pk)

def rollback : Database :=
  { d.close i with
    table := undo d.table (d.own i)
    lost := d.lost ++ d.undone i
    execution := match d.execution_lock with
      | some (owner, before) => if owner = i then before else d.execution
      | none => d.execution }

end Database

/-- One statement of session `i`; none when it has to wait. -/
def exec (i : Nat) : (c : Stmt) → Database → Option (c.Answer × Database)
  | .begin, d => some ((), { d with transactions := i :: d.transactions })
  | .commit, d => some ((), d.commit i)
  | .rollback, d => some ((), d.rollback i)
  | .select_execution, d => some (d.select_execution i, d)
  | .select, d => some (d.visible i, d)
  | .select_for_update p, d => d.select_for_update i p
  | .update _ row now fields, d => (d.update i row now fields).map fun d => ((), d)
  | .update_execution change, d => (d.update_execution i change).map fun d => ((), d)
  | .insert rows, d => d.insert i rows
  | .dispatch row, d => some ((), { d with
      handed := d.handed ++ [(i, row)], unsaved := d.unsaved ++ [(i, row)] })

variable {d : Database} {i j : Nat} {locks : List Lock} {r x : NodeExec}

/-- Each stored row has at most one lock, and only stored rows have one. -/
structure WellLocked (d : Database) : Prop where
  pk_nodup : (d.locks.map (·.pk)).Nodup
  pk_lt : ∀ l ∈ d.locks, l.pk < d.table.next_pk

/-- A row has one lock. -/
theorem WellLocked.eq_of_pk (h : WellLocked d) {l l' : Lock} (hl : l ∈ d.locks) (hl' : l' ∈ d.locks)
    (hpk : l.pk = l'.pk) : l = l' := List.inj_on_of_nodup_map h.pk_nodup hl hl' hpk

/-- A row that a session may know about: stored, and no open transaction of another session
has inserted it. -/
def Seen (d : Database) (i : Nat) (r : NodeExec) : Prop :=
  ∃ x ∈ d.rows, x.SameIdentity r ∧ ∀ l ∈ d.locks, l.pk = x.pk → l.before = none → l.owner = i

theorem Seen.congr {r' : NodeExec} (h : Seen d i r) (hid : r.SameIdentity r') : Seen d i r' := by
  obtain ⟨x, hx, hsame, hlocks⟩ := h
  exact ⟨x, hx, hsame.trans hid, hlocks⟩

/-- A row without a lock is left by a rollback. -/
theorem undo_row_unlocked (h : ∀ l ∈ locks, l.pk ≠ r.pk) : undo_row locks r = some r := by
  have hfind : locks.find? (fun l => l.pk = r.pk) = none := by
    rw [List.find?_eq_none]
    intro l hl
    simpa using h l hl
  simp only [undo_row, hfind]

/-- A locked row goes back to what it was. -/
theorem undo_row_locked (hnodup : (locks.map (·.pk)).Nodup) {l : Lock} (hl : l ∈ locks)
    (hpk : l.pk = r.pk) :
    undo_row locks r = l.before.map (revert r) := by
  cases hfind : locks.find? (fun l => l.pk = r.pk) with
  | none =>
    have hne := List.find?_eq_none.mp hfind l hl
    simp [hpk] at hne
  | some l' =>
    have hpk' : l'.pk = r.pk := by simpa using List.find?_some hfind
    have hmem' := List.mem_of_find?_eq_some hfind
    obtain rfl := List.inj_on_of_nodup_map hnodup hmem' hl (hpk'.trans hpk.symm)
    simp only [undo_row, hfind]

theorem mem_own {l : Lock} : l ∈ d.own i ↔ l ∈ d.locks ∧ l.owner = i := by simp [Database.own]

theorem mem_others {l : Lock} : l ∈ d.others i ↔ l ∈ d.locks ∧ l.owner ≠ i := by
  simp [Database.others]

/-- A row is free for a session when nobody else locks it. -/
theorem held_eq_false {pk : Nat} :
    d.held i pk = false ↔ ∀ l ∈ d.locks, l.pk = pk → l.owner = i := by
  simp only [Database.held, List.any_eq_false, mem_others, decide_eq_true_eq]
  constructor
  · intro h l hl hpk
    by_contra hne
    exact h l ⟨hl, hne⟩ hpk
  · rintro h l ⟨hl, hne⟩ hpk
    exact hne (h l hl hpk)

theorem own_pk_nodup (h : WellLocked d) (i : Nat) : ((d.own i).map (·.pk)).Nodup :=
  h.pk_nodup.sublist (List.filter_sublist.map _)

theorem others_pk_nodup (h : WellLocked d) (i : Nat) : ((d.others i).map (·.pk)).Nodup :=
  h.pk_nodup.sublist (List.filter_sublist.map _)

/-- A row the session sees is stored, and not inserted by another open transaction. -/
theorem seen_of_visible (h : WellLocked d) (hr : r ∈ d.visible i) : Seen d i r := by
  obtain ⟨x, hx, hrow⟩ := List.mem_filterMap.mp hr
  refine ⟨x, hx, (undo_row_sameIdentity hrow).symm, fun l hl hpk hbefore => ?_⟩
  by_contra hne
  rw [undo_row_locked (others_pk_nodup h i) (mem_others.mpr ⟨hl, hne⟩) hpk, hbefore] at hrow
  cases hrow

/-- A session sees its own rows as they are stored. -/
theorem visible_eq_of_own (h : WellLocked d) {c : NodeExec} {l : Lock} (hc : c ∈ d.rows)
    (hl : l ∈ d.locks) (howner : l.owner = i) (hpk : l.pk = c.pk) (hr : r ∈ d.visible i)
    (hid : r.dispatch_id = c.dispatch_id) :
    r = c := by
  obtain ⟨x, hx, hrow⟩ := List.mem_filterMap.mp hr
  have hxid : x.dispatch_id = c.dispatch_id := by
    rw [← (undo_row_sameIdentity hrow).dispatch_id, hid]
  obtain rfl := List.inj_on_of_nodup_map d.table.dispatch_nodup hx hc hxid
  rw [undo_row_unlocked] at hrow
  · exact (Option.some.inj hrow).symm
  · intro l' hl' hpk'
    obtain ⟨hin, hne⟩ := mem_others.mp hl'
    obtain rfl := h.eq_of_pk hin hl (hpk'.trans hpk.symm)
    exact hne howner

/-- The locks after locking some rows. -/
theorem mem_lock {rows : List NodeExec} {l : Lock} :
    l ∈ d.lock i rows ↔ l ∈ d.locks ∨ (i ∈ d.transactions ∧
      ∃ r ∈ rows, (∀ l' ∈ d.own i, l'.pk ≠ r.pk) ∧
        l = { owner := i, pk := r.pk, before := some r }) := by
  unfold Database.lock
  by_cases hi : i ∈ d.transactions
  · simp only [hi, if_true, List.mem_append, List.mem_map, List.mem_filter, Bool.not_eq_true',
      List.any_eq_false, decide_eq_true_eq, true_and]
    refine or_congr_right ⟨?_, ?_⟩
    · rintro ⟨r, ⟨hr, hown⟩, rfl⟩
      exact ⟨r, hr, hown, rfl⟩
    · rintro ⟨r, hr, hown, rfl⟩
      exact ⟨r, ⟨hr, hown⟩, rfl⟩
  · simp [hi]

/-- Locking rows nobody else holds keeps one lock for each row. -/
theorem lock_pk_nodup (h : WellLocked d) {rows : List NodeExec} (hrows : (rows.map (·.pk)).Nodup)
    (hfree : ∀ r ∈ rows, d.held i r.pk = false) : ((d.lock i rows).map (·.pk)).Nodup := by
  unfold Database.lock
  split_ifs
  · rw [List.map_append, List.nodup_append]
    refine ⟨h.pk_nodup, ?_, ?_⟩
    · rw [List.map_map]
      exact hrows.sublist (List.filter_sublist.map _)
    · intro a ha b hb hab
      obtain ⟨l, hl, rfl⟩ := List.mem_map.mp ha
      obtain ⟨l', hl', rfl⟩ := List.mem_map.mp hb
      obtain ⟨r, hr, rfl⟩ := List.mem_map.mp hl'
      obtain ⟨hr, hown⟩ := List.mem_filter.mp hr
      have howner := held_eq_false.mp (hfree r hr) l hl hab
      simp only [Bool.not_eq_true', List.any_eq_false, decide_eq_true_eq] at hown
      exact hown l (mem_own.mpr ⟨hl, howner⟩) hab
  · exact h.pk_nodup

/-- New locks are on rows that were there before. -/
theorem Seen.of_lock {rows rows' : List NodeExec} {d' : Database} (h : Seen d i r)
    (hlocks : d'.locks = d.lock j rows) (hrows : d'.rows = rows')
    (hkept : ∀ x ∈ d.rows, ∃ x' ∈ rows', x'.SameIdentity x) : Seen d' i r := by
  obtain ⟨x, hx, hid, hinserted⟩ := h
  obtain ⟨x', hx', hid'⟩ := hkept x hx
  refine ⟨x', hrows ▸ hx', hid'.trans hid, fun l hl hpk hbefore => ?_⟩
  rw [hlocks] at hl
  obtain hl | ⟨_, s, _, _, rfl⟩ := mem_lock.mp hl
  · exact hinserted l hl (hpk.trans hid'.pk) hbefore
  · cases hbefore

end taurus.engine.concurrent
