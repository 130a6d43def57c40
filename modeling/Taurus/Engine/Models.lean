import Mathlib.Data.List.Sort
import Taurus.Engine.Schemas

namespace taurus.engine

open taurus.lib taurus.python

/-- A row of the table of node executions: one node on one host in one attempt. -/
structure NodeExec where
  pk : Nat := 0
  node_key : String
  node_type : String
  node_name : String
  host_id : String
  dispatch_id : String
  attempt_no : Nat
  rendered_params : Dict String Json := []
  secrets_mask : List String := []
  status : Status
  exit_code : Option Int := none
  error_message : Option String := none
  adapter_state : Dict String Json := []
  output : Dict String Json := []
  output_refs : List Json := []
  queued_at : Option Time := none
  started_at : Option Time := none
  finished_at : Option Time := none
  duration_ms : Option Int := none
  update_datetime : Option Time := none
  timeout_sec : Nat := 0
  poll_count : Nat := 0
  user_id : Option Int := none
  fail_strategy : String
  last_error_code : Option String := none
  deriving Inhabited

/-- The columns named in an `update_fields` list of the runner. -/
inductive Field where
  | status
  | adapter_state
  | output
  | output_refs
  | exit_code
  | error_message
  | started_at
  | finished_at
  | duration_ms
  | poll_count
  | rendered_params
  | user_id
  | update_datetime
  deriving DecidableEq, Repr

namespace NodeExec

/-- The columns of the constraint `uniq_node_exec_attempt`. -/
def attempt_key (r : NodeExec) : String × String × Nat := (r.node_key, r.host_id, r.attempt_no)

/-- `Meta.ordering`: node_key, then the latest attempt first; equal rows keep
their insertion order. -/
def before (a b : NodeExec) : Prop :=
  a.node_key < b.node_key ∨ (a.node_key = b.node_key ∧
    (b.attempt_no < a.attempt_no ∨ (b.attempt_no = a.attempt_no ∧ a.pk ≤ b.pk)))

instance : DecidableRel before := fun a b => by unfold before; infer_instance

/-- The stored row `r` after `row.save(update_fields=fields)` of the in-memory `row`. -/
def write (r row : NodeExec) (now : Time) (fields : List Field) : NodeExec :=
  { r with
    status := if .status ∈ fields then row.status else r.status
    adapter_state := if .adapter_state ∈ fields then row.adapter_state else r.adapter_state
    output := if .output ∈ fields then row.output else r.output
    output_refs := if .output_refs ∈ fields then row.output_refs else r.output_refs
    exit_code := if .exit_code ∈ fields then row.exit_code else r.exit_code
    error_message := if .error_message ∈ fields then row.error_message else r.error_message
    started_at := if .started_at ∈ fields then row.started_at else r.started_at
    finished_at := if .finished_at ∈ fields then row.finished_at else r.finished_at
    duration_ms := if .duration_ms ∈ fields then row.duration_ms else r.duration_ms
    poll_count := if .poll_count ∈ fields then row.poll_count else r.poll_count
    rendered_params := if .rendered_params ∈ fields then row.rendered_params else r.rendered_params
    user_id := if .user_id ∈ fields then row.user_id else r.user_id
    update_datetime := if .update_datetime ∈ fields then some now else r.update_datetime }

/-- The columns no save of the runner touches. -/
structure SameIdentity (a b : NodeExec) : Prop where
  pk : a.pk = b.pk
  node_key : a.node_key = b.node_key
  node_type : a.node_type = b.node_type
  node_name : a.node_name = b.node_name
  host_id : a.host_id = b.host_id
  dispatch_id : a.dispatch_id = b.dispatch_id
  attempt_no : a.attempt_no = b.attempt_no
  timeout_sec : a.timeout_sec = b.timeout_sec
  fail_strategy : a.fail_strategy = b.fail_strategy

theorem SameIdentity.refl (a : NodeExec) : SameIdentity a a := by constructor <;> rfl

theorem SameIdentity.symm {a b : NodeExec} (h : SameIdentity a b) : SameIdentity b a where
  pk := h.pk.symm
  node_key := h.node_key.symm
  node_type := h.node_type.symm
  node_name := h.node_name.symm
  host_id := h.host_id.symm
  dispatch_id := h.dispatch_id.symm
  attempt_no := h.attempt_no.symm
  timeout_sec := h.timeout_sec.symm
  fail_strategy := h.fail_strategy.symm

theorem SameIdentity.trans {a b c : NodeExec} (h : SameIdentity a b) (h' : SameIdentity b c) :
    SameIdentity a c where
  pk := h.pk.trans h'.pk
  node_key := h.node_key.trans h'.node_key
  node_type := h.node_type.trans h'.node_type
  node_name := h.node_name.trans h'.node_name
  host_id := h.host_id.trans h'.host_id
  dispatch_id := h.dispatch_id.trans h'.dispatch_id
  attempt_no := h.attempt_no.trans h'.attempt_no
  timeout_sec := h.timeout_sec.trans h'.timeout_sec
  fail_strategy := h.fail_strategy.trans h'.fail_strategy

/-- Writing columns keeps the identity of a row. -/
theorem write_sameIdentity (r row : NodeExec) (now : Time) (fields : List Field) :
    SameIdentity (r.write row now fields) r := by constructor <;> rfl

@[simp] theorem write_attempt_key (r row : NodeExec) (now : Time) (fields : List Field) :
    (r.write row now fields).attempt_key = r.attempt_key := rfl

@[simp] theorem write_pk (r row : NodeExec) (now : Time) (fields : List Field) :
    (r.write row now fields).pk = r.pk := rfl

@[simp] theorem write_node_key (r row : NodeExec) (now : Time) (fields : List Field) :
    (r.write row now fields).node_key = r.node_key := rfl

end NodeExec

/-- The rows of one execution in `Meta.ordering`, with the primary key and the
two unique constraints of the table. -/
structure Table where
  rows : List NodeExec
  next_pk : Nat
  pk_nodup : (rows.map (·.pk)).Nodup
  pk_lt : ∀ r ∈ rows, r.pk < next_pk
  attempt_nodup : (rows.map (·.attempt_key)).Nodup
  dispatch_nodup : (rows.map (·.dispatch_id)).Nodup

namespace Table

def empty : Table where
  rows := []
  next_pk := 1
  pk_nodup := by simp
  pk_lt := by simp
  attempt_nodup := by simp
  dispatch_nodup := by simp

/-- `row.save(update_fields=fields)` -/
def save (t : Table) (row : NodeExec) (now : Time) (fields : List Field) : Table where
  rows := t.rows.map fun r => if r.pk = row.pk then r.write row now fields else r
  next_pk := t.next_pk
  pk_nodup := by
    rw [List.map_map, List.map_congr_left (g := fun r => r.pk)]
    · exact t.pk_nodup
    · intro r _
      by_cases h : r.pk = row.pk <;> simp [h]
  pk_lt := by
    intro r hr
    obtain ⟨r₀, hr₀, rfl⟩ := List.mem_map.mp hr
    have hlt := t.pk_lt r₀ hr₀
    split <;> simpa using hlt
  attempt_nodup := by
    rw [List.map_map, List.map_congr_left (g := fun r => r.attempt_key)]
    · exact t.attempt_nodup
    · intro r _
      by_cases h : r.pk = row.pk <;> simp [h]
  dispatch_nodup := by
    rw [List.map_map, List.map_congr_left (g := fun r => r.dispatch_id)]
    · exact t.dispatch_nodup
    · intro r _
      by_cases h : r.pk = row.pk <;> simp [h, NodeExec.write]

/-- The row as `bulk_create` stores it. -/
def stored (t : Table) (r : NodeExec) : NodeExec := { r with pk := t.next_pk }

/-- No stored row has the key columns or the dispatch id of `r`. -/
def Fresh (t : Table) (r : NodeExec) : Prop :=
  (∀ x ∈ t.rows, x.attempt_key ≠ r.attempt_key) ∧ ∀ x ∈ t.rows, x.dispatch_id ≠ r.dispatch_id

instance (t : Table) (r : NodeExec) : Decidable (t.Fresh r) := by unfold Fresh; infer_instance

theorem perm_orderedInsert (r : NodeExec) (rows : List NodeExec) :
    (rows.orderedInsert NodeExec.before r).Perm (r :: rows) := List.perm_orderedInsert _ r rows

/-- Insert one row that violates no unique constraint. -/
def insert (t : Table) (r : NodeExec) (h : t.Fresh r) : Table where
  rows := t.rows.orderedInsert NodeExec.before (t.stored r)
  next_pk := t.next_pk + 1
  pk_nodup := by
    rw [((perm_orderedInsert _ _).map _).nodup_iff, List.map_cons, List.nodup_cons]
    refine ⟨?_, t.pk_nodup⟩
    intro hmem
    obtain ⟨x, hx, hpk⟩ := List.mem_map.mp hmem
    have := t.pk_lt x hx
    simp only [stored] at hpk
    omega
  pk_lt := by
    intro x hx
    obtain rfl | hx := (List.mem_orderedInsert _).mp hx
    · simp [stored]
    · have := t.pk_lt x hx
      omega
  attempt_nodup := by
    rw [((perm_orderedInsert _ _).map _).nodup_iff, List.map_cons, List.nodup_cons]
    refine ⟨?_, t.attempt_nodup⟩
    intro hmem
    obtain ⟨x, hx, hkey⟩ := List.mem_map.mp hmem
    exact h.1 x hx hkey
  dispatch_nodup := by
    rw [((perm_orderedInsert _ _).map _).nodup_iff, List.map_cons, List.nodup_cons]
    refine ⟨?_, t.dispatch_nodup⟩
    intro hmem
    obtain ⟨x, hx, hid⟩ := List.mem_map.mp hmem
    exact h.2 x hx hid

/-- `bulk_create`: the rows are inserted in order; a violated constraint is none. -/
def bulk_create : Table → List NodeExec → Option (Table × List NodeExec)
  | t, [] => some (t, [])
  | t, r :: rest =>
    if h : t.Fresh r then
      match bulk_create (t.insert r h) rest with
      | some (t', created) => some (t', t.stored r :: created)
      | none => none
    else none

end Table

end taurus.engine
