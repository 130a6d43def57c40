import Taurus.Lib.Program
import Taurus.OpsApproval.Entries

namespace taurus.ops_approval.entries

open taurus.lib taurus.python taurus.engine
open taurus.approval (User ActionRecord User.record)

section

variable (roles : List Role) (user : User) (queryset : List Approval)

/-- Whoever counts as an approver can approve, alone where anyone may, and is listed the
approvals where he counts. -/
structure ApproversAgree : Prop where
  approves : ∀ approval ∈ queryset, _is_user_candidate_approver roles user approval = .ok true →
    ∀ reason now, ∃ passed, _is_approved_by_mode
    (approval.add_record (user.record .approve reason now)) = .ok passed ∧
      (approval.approval_mode = .any → passed = true)
  listed : _user_visible_candidate_ids roles user queryset =
    .ok ((queryset.filter fun approval => _is_user_candidate_approver roles user approval =
    .ok true).map (·.id))

/-- A value that can be looked up in a set, or that is not. -/
def Testable (v : Json) : Prop := v.truthy = true → unhashable v = none

/-- The role of an entry can be looked up. -/
def Readable (c : Dict String Json) : Prop :=
  Testable (role_key_of c) ∧
  ((role_key_of c).truthy = true ∧ key_found roles c = true ∨ Testable (getJson c "role_id"))

/-- So can the roles of all entries before which the user has none. -/
def RolesReadable (entries : List (Dict String Json)) : Prop :=
  ∀ earlier c later, entries = earlier ++ c :: later →
  (∀ d ∈ earlier, entry_hit roles d ≠ .ok true) → Readable roles c

/-- Every entry names a user that can be put into a set. -/
def Complete (entries : List (Dict String Json)) : Prop :=
  ∀ c ∈ entries, ∃ v, Dict.get? c "user_id" = some v ∧ unhashable v = none

/-- Where the user counts, every entry names a user, and anyone who approves is one of these. -/
structure EntriesComplete : Prop where
  user_ids : ∀ approval ∈ queryset, _is_user_candidate_approver roles user approval = .ok true →
    Complete approval.candidate_approvers
  approvers : ∀ approval ∈ queryset, _is_user_candidate_approver roles user approval = .ok true →
    approval.approval_mode = .any → ∃ id, id ≠ 0 ∧ (id = user.id ∨ id ∈ approval.approved_ids) ∧
      (approval.candidate_approvers = [] ∨
      ∃ c ∈ approval.candidate_approvers, is_id (getJson c "user_id") id = true)
  roles : ∀ approval ∈ queryset, user.id ∈ approval.cids ∨
    RolesReadable roles approval.candidate_approvers

end

section

variable {roles : List Role} {user : User} {queryset : List Approval} {approval : Approval}
  {v : Json} {found : Bool}

/-- Looking a value up in a set fails only on a true value that has no hash. -/
theorem truthy_in_ok_iff : (∃ b, truthy_in v found = .ok b) ↔ Testable v := by
  unfold truthy_in Testable
  cases v.truthy with
  | false => simp
  | true => cases unhashable v <;> simp

/-- It is found if it is true, has a hash and has an equal there. -/
theorem truthy_in_true_iff :
    truthy_in v found = .ok true ↔ v.truthy = true ∧ unhashable v = none ∧ found = true := by
  unfold truthy_in
  cases v.truthy with
  | false => simp
  | true => cases unhashable v <;> simp

/-- An entry can be tested exactly when both its role columns can. -/
theorem entry_hit_ok_iff {c : Dict String Json} :
    (∃ b, entry_hit roles c = .ok b) ↔ Readable roles c := by
  unfold entry_hit Readable
  rw [← @truthy_in_ok_iff (role_key_of c) (key_found roles c),
    ← @truthy_in_ok_iff (getJson c "role_id") (id_found roles c)]
  cases hkey : truthy_in (role_key_of c) (key_found roles c) with
  | error e => simp [bind, Except.bind]
  | ok b =>
    cases b with
    | true =>
      obtain ⟨htruthy, -, hfound⟩ := truthy_in_true_iff.mp hkey
      exact iff_of_true ⟨true, rfl⟩ ⟨⟨true, rfl⟩, Or.inl ⟨htruthy, hfound⟩⟩
    | false =>
      have hnot : ¬ ((role_key_of c).truthy = true ∧ key_found roles c = true) := by
        rintro ⟨htruthy, hfound⟩
        have hhash := truthy_in_ok_iff.mp ⟨false, hkey⟩ htruthy
        rw [truthy_in_true_iff.mpr ⟨htruthy, hhash, hfound⟩] at hkey
        cases hkey
      refine ⟨fun h => ⟨⟨false, rfl⟩, Or.inr h⟩, ?_⟩
      rintro ⟨-, hfound | h⟩
      · exact absurd hfound hnot
      · exact h

/-- The loop comes to the later entries only when the first is no hit. -/
theorem rolesReadable_cons {c : Dict String Json} {rest : List (Dict String Json)} :
    RolesReadable roles (c :: rest) ↔
      Readable roles c ∧ (entry_hit roles c ≠ .ok true → RolesReadable roles rest) := by
  constructor
  · intro h
    refine ⟨h [] c rest rfl nofun, fun hhit earlier d later hsplit hearlier => ?_⟩
    refine h (c :: earlier) d later (by rw [hsplit]; rfl) fun d' hd' => ?_
    obtain rfl | hd' := List.mem_cons.mp hd'
    · exact hhit
    · exact hearlier d' hd'
  · rintro ⟨hc, hrest⟩ earlier d later hsplit hearlier
    cases earlier with
    | nil =>
      obtain ⟨rfl, -⟩ := List.cons.inj hsplit
      exact hc
    | cons first earlier =>
      obtain ⟨rfl, hlater⟩ := List.cons.inj hsplit
      exact hrest (hearlier c List.mem_cons_self) earlier d later hlater fun d' hd' =>
        hearlier d' (List.mem_cons_of_mem _ hd')

/-- The loop ends without an exception. -/
theorem role_hit_ok_iff {entries : List (Dict String Json)} :
    (∃ b, role_hit roles entries = .ok b) ↔ RolesReadable roles entries := by
  induction entries with
  | nil =>
    refine iff_of_true ⟨false, rfl⟩ fun earlier c later hsplit => ?_
    cases earlier <;> cases hsplit
  | cons c rest ih =>
    rw [rolesReadable_cons, ← entry_hit_ok_iff, ← ih, role_hit]
    cases entry_hit roles c with
    | error e => simp [bind, Except.bind]
    | ok b => cases b <;> simp [bind, Except.bind, pure, Except.pure]

/-- The check fails only for a user who is no listed user and reaches an unreadable role. -/
theorem is_candidate_ok_iff : (∃ b, _is_user_candidate_approver roles user approval = .ok b) ↔
    user.id ∈ approval.cids ∨ RolesReadable roles approval.candidate_approvers := by
  rw [← role_hit_ok_iff]
  unfold _is_user_candidate_approver
  by_cases hin : user.id ∈ approval.cids
  · rw [if_pos hin]
    exact iff_of_true ⟨true, rfl⟩ (Or.inl hin)
  · rw [if_neg hin]
    cases role_hit roles approval.candidate_approvers with
    | error e => simp [bind, Except.bind, hin]
    | ok b => cases b <;> simp [bind, Except.bind, pure, Except.pure]

/-- The listing asks the same question of every row. -/
theorem visible_turn_eq (visible_ids : List Nat) : visible_turn roles user visible_ids approval =
    (_is_user_candidate_approver roles user approval).map fun b =>
      if b then visible_ids ++ [approval.id] else visible_ids := by
  unfold visible_turn _is_user_candidate_approver
  by_cases hin : user.id ∈ approval.cids
  · rw [if_pos hin, if_pos hin]
    rfl
  · rw [if_neg hin, if_neg hin]
    cases role_hit roles approval.candidate_approvers with
    | error e => rfl
    | ok hit =>
      cases hit with
      | true => rfl
      | false =>
        simp only [bind, Except.bind, pure, Except.pure, Except.map, Bool.not_false, Bool.and_true,
          Bool.false_eq_true, if_false]
        split_ifs <;> rfl

/-- The list shows all rows that the user may decide exactly when the check fails on
none of them. -/
theorem listed_iff : _user_visible_candidate_ids roles user queryset =
      .ok ((queryset.filter fun approval => _is_user_candidate_approver roles user approval =
        .ok true).map (·.id)) ↔
    ∀ approval ∈ queryset, ∃ b, _is_user_candidate_approver roles user approval = .ok b := by
  have hfold : ∀ ids, queryset.foldlM (visible_turn roles user) ids =
        .ok (ids ++ (queryset.filter
        fun approval => _is_user_candidate_approver roles user approval = .ok true).map (·.id)) ↔
      ∀ approval ∈ queryset, ∃ b, _is_user_candidate_approver roles user approval = .ok b := by
    induction queryset with
    | nil => simp [pure, Except.pure]
    | cons approval rest ih =>
      intro ids
      rw [List.foldlM_cons, visible_turn_eq, List.forall_mem_cons]
      cases hcandidate : _is_user_candidate_approver roles user approval with
      | error e => simp [Except.map, bind, Except.bind]
      | ok b =>
        cases b with
        | true =>
          have hrest := ih (ids ++ [approval.id])
          rw [List.append_assoc] at hrest
          rw [List.filter_cons_of_pos (by simpa using hcandidate), List.map_cons]
          exact hrest.trans ⟨fun h => ⟨⟨true, rfl⟩, h⟩, And.right⟩
        | false =>
          rw [List.filter_cons_of_neg (by simp [hcandidate])]
          exact (ih _).trans ⟨fun h => ⟨⟨false, rfl⟩, h⟩, And.right⟩
  exact hfold []

/-- The users who approved, the number 0 left out. -/
theorem mem_approved_ids {id : Int} : id ∈ approval.approved_ids ↔
    id ≠ 0 ∧ ∃ r ∈ approval.approval_records, r.action = .approve ∧ r.user_id = id := by
  unfold Approval.approved_ids
  rw [List.mem_map]
  constructor
  · rintro ⟨r, hr, rfl⟩
    obtain ⟨hr, hcond⟩ := List.mem_filter.mp hr
    rw [decide_eq_true_eq] at hcond
    exact ⟨hcond.2, r, hr, hcond.1, rfl⟩
  · rintro ⟨hid, r, hr, haction, rfl⟩
    exact ⟨r, List.mem_filter.mpr ⟨hr, by simp [haction, hid]⟩, rfl⟩

/-- An approval adds its user. -/
theorem mem_approved_ids_add_record {reason : String} {now : Time} {id : Int} :
    id ∈ (approval.add_record (user.record .approve reason now)).approved_ids ↔
      id ≠ 0 ∧ (id = user.id ∨ id ∈ approval.approved_ids) := by
  rw [mem_approved_ids, mem_approved_ids]
  refine and_congr_right fun hid => ?_
  unfold Approval.add_record
  simp only [List.mem_append, List.mem_singleton]
  constructor
  · rintro ⟨r, hr | rfl, haction, hr_id⟩
    · exact Or.inr ⟨hid, r, hr, haction, hr_id⟩
    · exact Or.inl hr_id.symm
  · rintro (rfl | ⟨-, r, hr, haction, hr_id⟩)
    · exact ⟨_, Or.inr rfl, rfl, rfl⟩
    · exact ⟨r, Or.inl hr, haction, hr_id⟩

/-- Entries with user ids can be listed. -/
theorem candidate_ids_of_complete (h : Complete approval.candidate_approvers) :
    approval.candidate_ids = .ok (approval.candidate_approvers.map
      fun c => getJson c "user_id") := by
  refine mapM_eq_ok_map fun c hc => ?_
  obtain ⟨v, hv, -⟩ := h c hc
  rw [getJson, hv]
  rfl

theorem hash_all_of_complete {entries : List (Dict String Json)} (h : Complete entries) :
    hash_all (entries.map fun c => getJson c "user_id") =
      .ok (entries.map fun c => getJson c "user_id") := by
  have hhash : hash_all (entries.map fun c => getJson c "user_id") =
      .ok ((entries.map fun c => getJson c "user_id").map id) := by
    refine mapM_eq_ok_map fun v hv => ?_
    obtain ⟨c, hc, rfl⟩ := List.mem_map.mp hv
    obtain ⟨w, hw, hhash⟩ := h c hc
    rw [getJson, hw, Option.getD_some, hhash]
    rfl
  rwa [List.map_id] at hhash

/-- Without an exception every entry has been read and put into a set. -/
theorem complete_of_sets {ids set : List Json} (hids : approval.candidate_ids = .ok ids)
    (hset : hash_all ids = .ok set) :
    Complete approval.candidate_approvers := by
  intro c hc
  obtain ⟨v, hv, hget⟩ := mem_of_mapM hids hc
  obtain ⟨w, -, hhash⟩ := mem_of_mapM hset hv
  cases huser : Dict.get? c "user_id" with
  | none => simp [huser] at hget
  | some u =>
    simp only [huser, Except.ok.injEq] at hget
    obtain rfl := hget
    refine ⟨u, rfl, ?_⟩
    cases hu : unhashable u with
    | none => rfl
    | some message => simp [hu] at hhash

/-- What is decided once every entry can be read. -/
theorem is_approved_by_mode_of_complete (h : Complete approval.candidate_approvers) :
    _is_approved_by_mode approval =
    .ok (if approval.candidate_approvers.isEmpty then decide (1 ≤ approval.approved_ids.length)
      else match approval.approval_mode with
        | .all => approval.candidate_approvers.all fun c => approval.approved_ids.any (is_id (getJson c "user_id"))
        | .any => approval.candidate_approvers.any
          fun c => approval.approved_ids.any (is_id (getJson c "user_id"))) := by
  unfold _is_approved_by_mode
  rw [candidate_ids_of_complete h]
  simp only [bind, Except.bind, hash_all_of_complete h, List.isEmpty_map]
  split_ifs
  · rfl
  · cases approval.approval_mode with
    | all => simp only [List.all_map]; rfl
    | any => simp only [List.any_map]; rfl

/-- A mode that could be decided had only entries with user ids. -/
theorem complete_of_passed {passed : Bool} (h : _is_approved_by_mode approval = .ok passed) :
    Complete approval.candidate_approvers := by
  unfold _is_approved_by_mode at h
  obtain ⟨ids, hids, h⟩ := bind_eq_ok.mp h
  split_ifs at h with hempty
  · -- no ids, no entries
    intro c hc
    obtain ⟨v, hv, -⟩ := mem_of_mapM hids hc
    rw [List.isEmpty_iff] at hempty
    rw [hempty] at hv
    cases hv
  · obtain ⟨set, hset, -⟩ := bind_eq_ok.mp h
    exact complete_of_sets hids hset

/-- When the mode can be decided, and decides for one approval in the mode `any`. -/
theorem passes_iff :
    (∃ passed, _is_approved_by_mode approval = .ok passed ∧
      (approval.approval_mode = .any → passed = true)) ↔
    Complete approval.candidate_approvers ∧
      (approval.approval_mode = .any → ∃ id ∈ approval.approved_ids,
        approval.candidate_approvers = [] ∨ ∃ c ∈ approval.candidate_approvers,
        is_id (getJson c "user_id") id = true) := by
  have hdecided : ∀ h : Complete approval.candidate_approvers, approval.approval_mode = .any →
      (_is_approved_by_mode approval = .ok true ↔ ∃ id ∈ approval.approved_ids,
        approval.candidate_approvers = [] ∨ ∃ c ∈ approval.candidate_approvers,
        is_id (getJson c "user_id") id = true) := by
    intro h hmode
    rw [is_approved_by_mode_of_complete h, hmode]
    cases hcandidates : approval.candidate_approvers with
    | nil =>
      cases approval.approved_ids <;> simp
    | cons c rest =>
      simp only [List.isEmpty_cons, Bool.false_eq_true, if_false, Except.ok.injEq, List.any_eq_true,
        reduceCtorEq, false_or]
      constructor
      · rintro ⟨d, hd, id, hid, hsame⟩
        exact ⟨id, hid, d, hd, hsame⟩
      · rintro ⟨id, hid, d, hd, hsame⟩
        exact ⟨d, hd, id, hid, hsame⟩
  constructor
  · rintro ⟨passed, hpassed, hany⟩
    have h := complete_of_passed hpassed
    refine ⟨h, fun hmode => (hdecided h hmode).mp ?_⟩
    rw [hpassed, hany hmode]
  · rintro ⟨h, hany⟩
    refine ⟨_, is_approved_by_mode_of_complete h, fun hmode => ?_⟩
    have hpassed := (hdecided h hmode).mpr (hany hmode)
    rw [is_approved_by_mode_of_complete h] at hpassed
    exact Except.ok.inj hpassed

/-- The decision when the user has approved. -/
theorem passes_with_record_iff {reason : String} {now : Time} :
    (∃ passed, _is_approved_by_mode
      (approval.add_record (user.record .approve reason now)) = .ok passed ∧
      (approval.approval_mode = .any → passed = true)) ↔
    Complete approval.candidate_approvers ∧ (approval.approval_mode = .any → ∃ id, id ≠ 0 ∧
      (id = user.id ∨ id ∈ approval.approved_ids) ∧ (approval.candidate_approvers = [] ∨
        ∃ c ∈ approval.candidate_approvers, is_id (getJson c "user_id") id = true)) := by
  refine (@passes_iff (approval.add_record (user.record .approve reason now))).trans
    (and_congr_right fun _ => ?_)
  refine imp_congr_right fun _ => exists_congr fun id => ?_
  rw [mem_approved_ids_add_record, and_assoc]
  rfl

/-- The three functions agree on the entries exactly if wherever the user counts every entry has a
user id and someone who approved is among these, and roles can be looked up. -/
theorem approvers_agree_iff (roles : List Role) (user : User) (queryset : List Approval) :
    ApproversAgree roles user queryset ↔ EntriesComplete roles user queryset := by
  constructor
  · intro h
    have hpasses := fun approval happroval hcandidate =>
      passes_with_record_iff.mp (h.approves approval happroval hcandidate "" 0)
    exact ⟨fun approval happroval hcandidate => (hpasses approval happroval hcandidate).1,
      fun approval happroval hcandidate => (hpasses approval happroval hcandidate).2,
      fun approval happroval => is_candidate_ok_iff.mp (listed_iff.mp h.listed approval happroval)⟩
  · intro h
    refine ⟨fun approval happroval hcandidate reason now => passes_with_record_iff.mpr ?_,
      listed_iff.mpr ?_⟩
    · exact ⟨h.user_ids approval happroval hcandidate, h.approvers approval happroval hcandidate⟩
    · exact fun approval happroval => is_candidate_ok_iff.mpr (h.roles approval happroval)

end

/-- An approval for everyone with a role. -/
def role_approval : Approval where
  id := 1
  candidate_approvers := [[("role_key", .str "admin")]]

def admin_role : Role := ⟨1, "admin"⟩

def admin : User where
  id := 7
  username := "admin"
  name := "admin"

/-- Who has the role may approve, and the approval raises a KeyError. -/
theorem role_entry_disagrees : ¬ ApproversAgree [admin_role] admin [role_approval] := by
  intro h
  have hraises : _is_approved_by_mode (role_approval.add_record (admin.record .approve "" 0)) =
      .error (.other "KeyError" "'user_id'") := by decide +kernel
  obtain ⟨passed, hpassed, -⟩ := h.approves role_approval (by simp) (by decide +kernel) "" 0
  rw [hraises] at hpassed
  cases hpassed

end taurus.ops_approval.entries
