import Taurus.OpsApproval.Actions
import Taurus.Python.Json

namespace taurus.ops_approval.entries

open taurus.lib taurus.python taurus.engine
open taurus.approval (User ActionRecord User.record)

/-- The columns of `OpsExecutionApproval` that say who approves it. The entries of
`candidate_approvers` are any objects. -/
structure Approval where
  id : Nat
  candidate_approvers : List (Dict String Json)
  approver_id : Option Int := none
  approval_mode : Mode := .any
  approval_records : List ActionRecord := []

/-- `isinstance(v, int)`, and which int it is. -/
def int_of? : Json → Option Int
  | .bool b => some (if b then 1 else 0)
  | .int n => some n
  | _ => none

/-- `v == id` -/
def is_id (v : Json) (id : Int) : Bool := v.number? = some (id : Rat)

/-- `v and v in s`, where `found` says whether the set `s` has an equal element. -/
def truthy_in (v : Json) (found : Bool) : Except Exn Bool :=
  if !v.truthy then .ok false
  else match unhashable v with
  | some message => .error (.other "TypeError" message)
  | none => .ok found

/-- `c.get('role_key') or c.get('key')` -/
def role_key_of (c : Dict String Json) : Json :=
  let role_key := getJson c "role_key"
  if role_key.truthy then role_key else getJson c "key"

section

variable (roles : List Role) (user : User)

/-- Some role of the user has the key of the entry. -/
def key_found (c : Dict String Json) : Bool := roles.any fun role => isText (role_key_of c) role.key

def id_found (c : Dict String Json) : Bool :=
  roles.any fun role => is_id (getJson c "role_id") role.id

def entry_hit (c : Dict String Json) : Except Exn Bool := do
  if ← truthy_in (role_key_of c) (key_found roles c) then pure true
  else truthy_in (getJson c "role_id") (id_found roles c)

/-- The loop over the entries, which stops at the first hit. -/
def role_hit : List (Dict String Json) → Except Exn Bool
  | [] => .ok false
  | c :: rest => do if ← entry_hit roles c then pure true else role_hit rest

end

namespace Approval

variable (app : Approval)

def cids : List Int := app.candidate_approvers.filterMap fun c => int_of? (getJson c "user_id")

/-- `approval.approver_id and approval.approver_id == user.id` -/
def approver_is (user : User) : Bool := app.approver_id.any fun id => id ≠ 0 && id = user.id

def add_record (record : ActionRecord) : Approval :=
  { app with approval_records := app.approval_records ++ [record] }

/-- The users of the approve records. -/
def approved_ids : List Int :=
  (app.approval_records.filter fun r => r.action = .approve ∧ r.user_id ≠ 0).map (·.user_id)

/-- `[c['user_id'] for c in candidates]` -/
def candidate_ids : Except Exn (List Json) :=
  app.candidate_approvers.mapM fun c =>
    match Dict.get? c "user_id" with
    | some v => .ok v
    | none => .error (.other "KeyError" "'user_id'")

end Approval

/-- `set(values)` -/
def hash_all (values : List Json) : Except Exn (List Json) :=
  values.mapM fun v =>
    match unhashable v with
    | some message => .error (.other "TypeError" message)
    | none => .ok v

section

variable (roles : List Role) (user : User)

def _is_user_candidate_approver (approval : Approval) : Except Exn Bool := do
  if user.id ∈ approval.cids then pure true
  else if ← role_hit roles approval.candidate_approvers then pure true
  else pure (approval.cids.isEmpty && approval.approver_is user)

/-- One turn of `_user_visible_candidate_ids`. -/
def visible_turn (visible_ids : List Nat) (app : Approval) : Except Exn (List Nat) := do
  if user.id ∈ app.cids then pure (visible_ids ++ [app.id])
  else
    let hit ← role_hit roles app.candidate_approvers
    if hit then pure (visible_ids ++ [app.id])
    else if app.cids.isEmpty && !hit && app.approver_is user then pure (visible_ids ++ [app.id])
    else pure visible_ids

def _user_visible_candidate_ids (queryset : List Approval) : Except Exn (List Nat) :=
  queryset.foldlM (visible_turn roles user) []

end

def _is_approved_by_mode (approval : Approval) : Except Exn Bool := do
  let approved_set := approval.approved_ids
  let candidate_ids ← approval.candidate_ids
  if candidate_ids.isEmpty then pure (decide (1 ≤ approved_set.length))
  else
    let candidate_set ← hash_all candidate_ids
    match approval.approval_mode with
    | .all => pure (candidate_set.all fun v => approved_set.any (is_id v))
    | .any => pure (candidate_set.any fun v => approved_set.any (is_id v))

end taurus.ops_approval.entries

namespace taurus.ops_approval

open taurus.lib taurus.python taurus.engine
open taurus.approval (User ActionRecord)

/-- A candidate as an object. -/
def Candidate.entry (c : Candidate) : Dict String Json :=
  (c.user_id.map fun id => ("user_id", .int id)).toList ++
    (c.role_key.map fun key => ("role_key", .str key)).toList ++
    (c.role_id.map fun id => ("role_id", .int id)).toList

/-- The columns of a row. -/
def Approval.entries (row : Approval) (id : Nat) : entries.Approval where
  id := id
  candidate_approvers := row.candidate_approvers.map (·.entry)
  approver_id := row.approver_id
  approval_mode := row.approval_mode
  approval_records := row.approval_records

section

variable {c : Candidate} {roles : List Role} {row : Approval} {user : User} {site : Site} {id : Nat}

theorem get?_entry_user_id : Dict.get? c.entry "user_id" = c.user_id.map .int := by
  cases hu : c.user_id <;> cases hk : c.role_key <;> cases hr : c.role_id <;>
    simp [Candidate.entry, hu, hk, hr, Dict.get?_cons]

/-- What an entry holds under the keys of a role. -/
theorem getJson_entry :
    getJson c.entry "role_key" = (c.role_key.map .str).getD .null ∧ getJson c.entry "key" = .null ∧
    getJson c.entry "role_id" = (c.role_id.map .int).getD .null := by
  cases hu : c.user_id <;> cases hk : c.role_key <;> cases hr : c.role_id <;>
    simp [Candidate.entry, getJson, hu, hk, hr, Dict.get?_cons]

@[simp] theorem is_id_int {n k : Int} : entries.is_id (.int n) k = decide (n = k) := by
  simp [entries.is_id, Json.number?]

/-- Two ways to compare the key of a role. -/
theorem key_eq_iff {key : String} (hkey : key ≠ "") :
    (fun role : Role => isText (.str key) role.key) =
    fun role => some key = some role.key && role.key ≠ "" := by
  funext role
  by_cases heq : key = role.key
  · simp [isText, ← heq, hkey]
  · simp [isText, heq]

/-- Two ways to compare its number. -/
theorem id_eq_iff {id : Int} (hid : id ≠ 0) : (fun role : Role => entries.is_id (.int id) role.id) =
    fun role => some id = some role.id && role.id ≠ 0 := by
  funext role
  by_cases heq : id = role.id
  · simp [← heq, hid]
  · simp [heq]

/-- Looking for the key of an entry among the roles never fails. -/
theorem key_in_entry :
    entries.truthy_in (entries.role_key_of c.entry) (entries.key_found roles c.entry) =
    .ok (roles.any fun role => c.role_key = some role.key && role.key ≠ "") := by
  obtain ⟨hkey, hother, -⟩ := @getJson_entry c
  unfold entries.truthy_in entries.key_found entries.role_key_of
  rw [hkey, hother]
  cases c.role_key with
  | none => simp [Json.truthy]
  | some key =>
    by_cases hempty : key = ""
    · have hnone : (roles.any fun role => some key = some role.key && role.key ≠ "") = false := by
        rw [List.any_eq_false]
        intro role _ h
        simp only [Bool.and_eq_true, decide_eq_true_eq, Option.some.injEq] at h
        exact h.2 (h.1.symm.trans hempty)
      rw [hnone, hempty]
      rfl
    · have htruthy : (Json.str key).truthy = true := by simpa [Json.truthy] using hempty
      simp only [Option.map_some, Option.getD_some, htruthy, if_true, Bool.not_true,
        Bool.false_eq_true, if_false, unhashable, key_eq_iff hempty]

/-- Neither does looking for its number. -/
theorem id_in_entry :
    entries.truthy_in (getJson c.entry "role_id") (entries.id_found roles c.entry) =
    .ok (roles.any fun role => c.role_id = some role.id && role.id ≠ 0) := by
  obtain ⟨-, -, hid⟩ := @getJson_entry c
  unfold entries.truthy_in entries.id_found
  rw [hid]
  cases c.role_id with
  | none => simp [Json.truthy]
  | some id =>
    by_cases hzero : id = 0
    · have hnone : (roles.any fun role => some id = some role.id && role.id ≠ 0) = false := by
        rw [List.any_eq_false]
        intro role _ h
        simp only [Bool.and_eq_true, decide_eq_true_eq, Option.some.injEq] at h
        exact h.2 (h.1.symm.trans hzero)
      rw [hnone, hzero]
      rfl
    · have htruthy : (Json.int id).truthy = true := by simpa [Json.truthy] using hzero
      simp only [Option.map_some, Option.getD_some, htruthy, Bool.not_true,
        Bool.false_eq_true, if_false, unhashable, id_eq_iff hzero]

/-- On entries of candidates both readers of a role agree. -/
theorem entry_hit_entry : entries.entry_hit roles c.entry = .ok (role_hit roles c) := by
  have hsplit : role_hit roles c =
    ((roles.any fun role => c.role_key = some role.key && role.key ≠ "") ||
      roles.any fun role => c.role_id = some role.id && role.id ≠ 0) := by
    unfold role_hit
    induction roles with
    | nil => rfl
    | cons role rest ih =>
      rw [List.any_cons, List.any_cons, List.any_cons, ih]
      ac_rfl
  rw [hsplit, entries.entry_hit, key_in_entry, id_in_entry]
  cases roles.any fun role => c.role_key = some role.key && role.key ≠ "" <;> rfl

theorem role_hit_entries (candidates : List Candidate) :
    entries.role_hit roles (candidates.map (·.entry)) = .ok (candidates.any (role_hit roles)) := by
  induction candidates with
  | nil => rfl
  | cons c rest ih =>
    rw [List.map_cons, entries.role_hit, entry_hit_entry, List.any_cons, ih]
    cases role_hit roles c <;> rfl

/-- Both see the same user ids. -/
theorem cids_entries : (row.entries id).cids = row.cids := by
  unfold entries.Approval.cids Approval.cids Approval.entries
  rw [List.filterMap_map]
  refine List.filterMap_congr fun c _ => ?_
  simp only [Function.comp_apply, getJson, get?_entry_user_id]
  cases c.user_id <;> rfl

/-- Users count as candidates of a row as they do of its columns. -/
theorem is_user_candidate_approver_entries (hid : user.id ≠ 0) :
    entries._is_user_candidate_approver (site.role user.id) user (row.entries id) =
      .ok (_is_user_candidate_approver site row user) := by
  have happrover : (row.entries id).approver_is user = decide (row.approver_id = some user.id) := by
    unfold entries.Approval.approver_is Approval.entries
    cases row.approver_id with
    | none => rfl
    | some k =>
      by_cases hk : k = user.id
      · simp [hk, hid]
      · simp [hk]
  unfold entries._is_user_candidate_approver _is_user_candidate_approver
  rw [cids_entries, happrover]
  have hrole : entries.role_hit (site.role user.id) (row.entries id).candidate_approvers = _ :=
    role_hit_entries row.candidate_approvers
  rw [hrole]
  by_cases hin : user.id ∈ row.cids
  · rw [if_pos hin, List.contains_iff_mem.mpr hin]
    rfl
  · rw [if_neg hin, Bool.eq_false_iff.mpr (mt List.contains_iff_mem.mp hin)]
    cases row.candidate_approvers.any (role_hit (site.role user.id)) <;> rfl

/-- Both need the key `user_id` in every entry. -/
theorem candidate_ids_entries : (row.entries id).candidate_ids = match row.candidate_ids with
    | .ok ids => .ok (ids.map .int)
    | .error _ => .error (.other "KeyError" "'user_id'") := by
  unfold entries.Approval.candidate_ids Approval.candidate_ids Approval.entries
  dsimp only
  induction row.candidate_approvers with
  | nil => rfl
  | cons c rest ih =>
    rw [List.map_cons, List.mapM_cons, List.mapM_cons, ih, get?_entry_user_id]
    cases c.user_id with
    | none => rfl
    | some id =>
      simp only [Option.map_some]
      generalize List.mapM (m := Except Error) _ rest = ids
      cases ids <;> rfl

/-- A set of integers can always be made. -/
theorem hash_all_ints (ids : List Int) : entries.hash_all (ids.map .int) = .ok (ids.map .int) := by
  unfold entries.hash_all
  induction ids with
  | nil => rfl
  | cons id rest ih =>
    rw [List.map_cons, List.mapM_cons, ih]
    rfl

/-- And so are rows approved. -/
theorem is_approved_by_mode_entries :
    entries._is_approved_by_mode (row.entries id) = match _is_approved_by_mode row with
    | .ok approved => .ok approved
    | .error _ => .error (.other "KeyError" "'user_id'") := by
  unfold entries._is_approved_by_mode _is_approved_by_mode
  rw [candidate_ids_entries]
  cases row.candidate_ids with
  | error e => rfl
  | ok ids =>
    cases ids with
    | nil => rfl
    | cons first rest =>
      have happroved : (row.entries id).approved_ids = (row.approval_records.filter fun r =>
          r.action = .approve ∧ r.user_id ≠ 0).map (·.user_id) := rfl
      have hmode : (row.entries id).approval_mode = row.approval_mode := rfl
      simp only [bind, Except.bind, hash_all_ints, happroved, hmode]
      generalize (row.approval_records.filter fun r => r.action = .approve ∧
        r.user_id ≠ 0).map (·.user_id) = approved
      have hin : ∀ k : Int, approved.any (entries.is_id (.int k)) = approved.contains k := by
        intro k
        rw [Bool.eq_iff_iff, List.any_eq_true, List.contains_iff_mem]
        simp
      cases row.approval_mode with
      | all =>
        refine congrArg Except.ok ?_
        rw [List.all_map]
        exact congrArg _ (funext fun k => hin k)
      | any =>
        refine congrArg Except.ok ?_
        rw [List.any_map, Bool.eq_iff_iff, List.any_eq_true, List.any_eq_true]
        simp only [Function.comp_apply, hin, List.contains_iff_mem]
        exact exists_congr fun k => and_comm

end

end taurus.ops_approval
