import Taurus.Share.Departments

namespace taurus.share

open taurus.lib.digraph taurus.python taurus.engine

/-- The id of a department share is a number, and no chain of child links that begins with it is as
long as the calls may nest. -/
def Usable (frames : Nat) (depts : List Dept) (s : SharePermission) : Prop :=
  ∃ dept_id, short_int? s.subject_id.toList = some dept_id ∧
    ∀ below, List.IsChain (Link (child_links depts)) (dept_id :: below) → below.length < frames

/-- For a usable share the departments are found. -/
theorem usable_iff {frames : Nat} {depts : List Dept} {s : SharePermission} :
    Usable frames depts s ↔
    ((short_int? s.subject_id.toList).bind (Dept.recursion_all_dept frames depts)).isSome =
      true := by
  unfold Usable
  rw [Option.isSome_bind, Option.any_eq_true]
  simp only [recursion_all_dept_isSome_iff]

instance (frames : Nat) (depts : List Dept) : DecidablePred (Usable frames depts) :=
  fun _ => decidable_of_iff _ usable_iff.symm

def with_shares (tables : Tables) (shares : List SharePermission) : Tables := { tables with shares }

@[simp] theorem depts_with_shares (tables : Tables) (shares : List SharePermission) :
    (with_shares tables shares).depts = tables.depts := rfl

@[simp] theorem frames_with_shares (tables : Tables) (shares : List SharePermission) :
    (with_shares tables shares).frames = tables.frames := rfl

/-- What the shares with the user and with his roles give. -/
def named_perms (tables : Tables) (now : Time) (user : User) (resource_type : ResourceType)
    (resource_obj : Resource) :
    Finset String :=
  let shares := subject_shares tables now resource_type resource_obj
  perms_of ((shares "user").filter (·.subject_id = toString user.id)) ∪
    perms_of ((shares "role").filter (·.subject_id ∈ (tables.role user.id).map toString))

section

variable {tables : Tables} {now : Time} {resource_type : ResourceType} {resource_obj : Resource}
  {session : Option (List String)} {frames : Nat} {depts : List Dept}
  {before after : List SharePermission} {s : SharePermission}
  {user_dept_id : Int} {p : String}

/-- A share that is not usable ends the department loop. -/
theorem dept_perms_cons_of_not_usable (h : ¬ Usable frames depts s) :
    dept_perms frames depts user_dept_id (s :: after) = ∅ := by
  rw [usable_iff, Bool.not_eq_true, Option.isSome_eq_false_iff, Option.isNone_iff_eq_none] at h
  unfold dept_perms
  rw [h]

/-- A usable one takes nothing away. -/
theorem dept_perms_subset_cons (h : Usable frames depts s) :
    dept_perms frames depts user_dept_id after ⊆ dept_perms frames depts user_dept_id
      (s :: after) := by
  obtain ⟨ids, hids⟩ := Option.isSome_iff_exists.mp (usable_iff.mp h)
  rw [dept_perms, hids]
  exact Finset.subset_union_right

/-- The loop comes to the later shares only past usable ones. -/
theorem dept_perms_append (frames : Nat) (depts : List Dept) (user_dept_id : Int)
    (before after : List SharePermission) :
    dept_perms frames depts user_dept_id (before ++ after) =
      dept_perms frames depts user_dept_id before ∪
      if ∀ b ∈ before, Usable frames depts b then dept_perms frames depts user_dept_id after
      else ∅ := by
  induction before with
  | nil => simp [dept_perms]
  | cons b rest ih =>
    rw [List.cons_append]
    by_cases hb : Usable frames depts b
    · obtain ⟨ids, hids⟩ := Option.isSome_iff_exists.mp (usable_iff.mp hb)
      rw [dept_perms, dept_perms, hids]
      simp only [ih, List.forall_mem_cons, hb, true_and, Finset.union_assoc]
    · rw [dept_perms_cons_of_not_usable hb, dept_perms_cons_of_not_usable hb,
        if_neg fun h => hb (h b List.mem_cons_self)]
      rfl

theorem subject_shares_append (subject_type : String) :
    subject_shares (with_shares tables
      (before ++ after)) now resource_type resource_obj subject_type =
      subject_shares (with_shares tables before) now resource_type resource_obj subject_type ++
        subject_shares (with_shares tables after) now resource_type resource_obj subject_type :=
  List.filter_append _ _

/-- The new row is live and shares the resource with subjects of the type. -/
def Live (now : Time) (resource_type : ResourceType) (resource_obj : Resource)
    (subject_type : String) (s : SharePermission) : Prop :=
  s.resource_type = resource_type ∧ s.resource_id = resource_obj.id ∧
  s.subject_type = subject_type ∧
    expired now s.expire_time = false

theorem subject_shares_cons_of_live {subject_type : String}
    (h : Live now resource_type resource_obj subject_type s) :
    subject_shares (with_shares tables (s :: after)) now resource_type resource_obj subject_type =
      s :: subject_shares (with_shares tables after) now resource_type resource_obj subject_type :=
  List.filter_cons_of_pos (decide_eq_true h)

theorem subject_shares_cons_of_not_live {subject_type : String}
    (h : ¬ Live now resource_type resource_obj subject_type s) :
    subject_shares (with_shares tables (s :: after)) now resource_type resource_obj subject_type =
      subject_shares (with_shares tables after) now resource_type resource_obj subject_type :=
  List.filter_cons_of_neg (decide_eq_true_iff.not.mpr h)

theorem perms_of_mono {shares shares' : List SharePermission} (h : shares ⊆ shares') :
    perms_of shares ⊆ perms_of shares' := by
  intro p hp
  obtain ⟨s, hs, hps⟩ := List.mem_flatMap.mp (List.mem_toFinset.mp hp)
  exact List.mem_toFinset.mpr (List.mem_flatMap.mpr ⟨s, h hs, hps⟩)

/-- The rows around the new one are all still there. -/
theorem subject_shares_subset (subject_type : String) :
    subject_shares (with_shares tables
      (before ++ after)) now resource_type resource_obj subject_type ⊆
      subject_shares (with_shares tables
        (before ++ s :: after)) now resource_type resource_obj subject_type := by
  apply List.filter_subset
  exact List.append_subset.mpr
    ⟨List.subset_append_left _ _, fun x hx => List.mem_append_right _ (List.mem_cons_of_mem _ hx)⟩

/-- More shares give a named user no less. -/
theorem named_perms_subset (user : User) :
    named_perms (with_shares tables (before ++ after)) now user resource_type resource_obj ⊆
      named_perms (with_shares tables
        (before ++ s :: after)) now user resource_type resource_obj := by
  apply Finset.union_subset_union
  · exact perms_of_mono (List.filter_subset _ (subject_shares_subset "user"))
  · exact perms_of_mono (List.filter_subset _ (subject_shares_subset "role"))

/-- A share with a department gives nothing by name. -/
theorem named_perms_of_dept (user : User) (h : s.subject_type = "dept") :
    named_perms (with_shares tables (before ++ s :: after)) now user resource_type resource_obj =
      named_perms (with_shares tables (before ++ after)) now user resource_type resource_obj := by
  have hother : ∀ subject_type, subject_type ≠ "dept" →
      ¬ Live now resource_type resource_obj subject_type s :=
    fun subject_type hne hlive => hne (hlive.2.2.1.symm.trans h)
  unfold named_perms
  simp only [subject_shares_append, subject_shares_cons_of_not_live (hother "user" (by decide)),
    subject_shares_cons_of_not_live (hother "role" (by decide))]
  rfl

end

section

variable (tables : Tables) (before after : List SharePermission) (s : SharePermission) (now : Time)
  (user : Option User)
  (resource_type : ResourceType) (resource_obj : Resource) (session : Option (List String))

/-- No permission goes with the change of the tables. -/
def PermsKept (tables tables' : Tables) : Prop :=
  ∀ perms, get_user_effective_perms tables now user resource_type.name resource_obj session =
    .ok perms →
    ∃ perms', get_user_effective_perms tables' now user resource_type.name resource_obj session =
      .ok perms' ∧ perms ⊆ perms'

/-- The new row ends the loop over the department shares for this user. -/
structure EndsLoop (user_dept_id : Int) : Prop where
  stranger : owns user resource_obj = false
  member : ∃ u, user = some u ∧ u.dept_id = some user_dept_id
  live : Live now resource_type resource_obj "dept" s
  unusable : ¬ Usable tables.frames tables.depts s
  reached : ∀ b ∈ subject_shares (with_shares tables before) now resource_type resource_obj "dept",
    Usable tables.frames tables.depts b

/-- The user has the permission without the department shares after the new row. -/
def Otherwise (user_dept_id : Int) (p : String) : Prop :=
  p ∈ public_perms resource_type resource_obj ∨
    (∃ u, user = some u ∧ p ∈ named_perms
    (with_shares tables (before ++ after)) now u resource_type resource_obj) ∨
    p ∈ dept_perms tables.frames tables.depts user_dept_id
      (subject_shares (with_shares tables before) now resource_type resource_obj "dept") ∨
    ∃ link ∈ session_links tables now (session.getD []) resource_type resource_obj,
      p ∈ link.permissions

/-- Permissions are kept exactly if the own ones are. -/
theorem permsKept_iff (tables' : Tables) :
    PermsKept now user resource_type resource_obj session tables tables' ↔
    ∀ p ∈ ALL_PERMS_BY_RESOURCE resource_type,
      (owns user resource_obj = true ∨ p ∈ own_perms tables now user resource_type resource_obj ∨
        ∃ link ∈ session_links tables now (session.getD []) resource_type resource_obj,
          p ∈ link.permissions) →
      (owns user resource_obj = true ∨ p ∈ own_perms tables' now user resource_type resource_obj ∨
        ∃ link ∈ session_links tables' now (session.getD []) resource_type resource_obj,
          p ∈ link.permissions) := by
  obtain ⟨perms, hperms, hspec⟩ :=
    get_user_effective_perms_spec tables now user resource_type resource_obj session
  obtain ⟨perms', hperms', hspec'⟩ :=
    get_user_effective_perms_spec tables' now user resource_type resource_obj session
  constructor
  · intro h p hp hhas
    obtain ⟨perms'', hperms'', hsub⟩ := h perms hperms
    obtain rfl := Except.ok.inj (hperms'.symm.trans hperms'')
    exact ((hspec' p).mp (hsub ((hspec p).mpr ⟨hp, hhas⟩))).2
  · intro h perms'' hperms''
    obtain rfl := Except.ok.inj (hperms.symm.trans hperms'')
    refine ⟨perms', hperms', fun p hp => ?_⟩
    obtain ⟨hvalid, hhas⟩ := (hspec p).mp hp
    exact (hspec' p).mpr ⟨hvalid, h p hvalid hhas⟩

end

section

variable {tables : Tables} {before after : List SharePermission} {s : SharePermission}
  {now : Time} {user : User}
  {resource_type : ResourceType} {resource_obj : Resource} {user_dept_id : Int} {p : String}

/-- The permissions of a user with a department. -/
theorem mem_own_perms_of_dept (hdept : user.dept_id = some user_dept_id) :
    p ∈ own_perms tables now (some user) resource_type resource_obj ↔
      p ∈ public_perms resource_type resource_obj ∨
      p ∈ named_perms tables now user resource_type resource_obj ∨
        p ∈ dept_perms tables.frames tables.depts user_dept_id
          (subject_shares tables now resource_type resource_obj "dept") := by
  unfold own_perms _get_direct_share_perms
  rw [Option.elim_some, hdept, Finset.mem_union, Finset.mem_union]
  rfl

theorem mem_own_perms_of_no_dept (hdept : user.dept_id = none) :
    p ∈ own_perms tables now (some user) resource_type resource_obj ↔
      p ∈ public_perms resource_type resource_obj ∨
      p ∈ named_perms tables now user resource_type resource_obj := by
  unfold own_perms _get_direct_share_perms
  rw [Option.elim_some, hdept, Finset.union_empty, Finset.mem_union]
  rfl

/-- What the department shares around a new row still give, unless it ends their loop. -/
theorem dept_perms_kept
    (h : p ∈ dept_perms tables.frames tables.depts user_dept_id
      (subject_shares (with_shares tables (before ++ after)) now resource_type resource_obj "dept")) :
    p ∈ dept_perms tables.frames tables.depts user_dept_id
        (subject_shares (with_shares tables (before ++ s :: after)) now resource_type resource_obj "dept") ∨
      Live now resource_type resource_obj "dept" s ∧ ¬ Usable tables.frames tables.depts s ∧
        (∀ b ∈ subject_shares (with_shares tables before) now resource_type resource_obj "dept",
          Usable tables.frames tables.depts b) ∧
          p ∈ dept_perms tables.frames tables.depts user_dept_id
            (subject_shares (with_shares tables after) now resource_type resource_obj "dept") := by
  rw [subject_shares_append, dept_perms_append, Finset.mem_union] at h ⊢
  by_cases hlive : Live now resource_type resource_obj "dept" s
  · rw [subject_shares_cons_of_live hlive]
    obtain hbefore | hafter := h
    · exact Or.inl (Or.inl hbefore)
    · split_ifs at hafter ⊢ with hreached
      · by_cases husable : Usable tables.frames tables.depts s
        · exact Or.inl (Or.inr (dept_perms_subset_cons husable hafter))
        · exact Or.inr ⟨hlive, husable, hreached, hafter⟩
      · cases hafter
  · rw [subject_shares_cons_of_not_live hlive]
    exact Or.inl h

end

section

variable (tables : Tables) (before after : List SharePermission) (s : SharePermission) (now : Time)
  (user : Option User)
  (resource_type : ResourceType) (resource_obj : Resource) (session : Option (List String))

/-- A new row keeps all permissions of a user exactly if it does not end the loop
over the department shares, or the rows after it give him no valid permission that he
does not have otherwise. -/
theorem shares_monotone_iff :
    PermsKept now user resource_type resource_obj session (with_shares tables (before ++ after))
        (with_shares tables (before ++ s :: after)) ↔
      ∀ user_dept_id, EndsLoop tables before s now user resource_type resource_obj user_dept_id →
        ∀ p ∈ ALL_PERMS_BY_RESOURCE resource_type,
          p ∈ dept_perms tables.frames tables.depts user_dept_id
            (subject_shares (with_shares tables after) now resource_type resource_obj "dept") →
            Otherwise tables before after now user resource_type resource_obj session user_dept_id p := by
  rw [permsKept_iff]
  constructor
  · intro h user_dept_id hends p hp hafter
    obtain ⟨u, rfl, hdept⟩ := hends.member
    have hold : p ∈ own_perms (with_shares tables (before ++ after)) now
        (some u) resource_type resource_obj := by
      rw [mem_own_perms_of_dept hdept, depts_with_shares, frames_with_shares, subject_shares_append,
        dept_perms_append]
      refine Or.inr (Or.inr (Finset.mem_union_right _ ?_))
      rw [if_pos hends.reached]
      exact hafter
    obtain howns | hnew | hlink := h p hp (Or.inr (Or.inl hold))
    · rw [hends.stranger] at howns
      cases howns
    · rw [mem_own_perms_of_dept hdept, depts_with_shares, frames_with_shares, subject_shares_append,
        subject_shares_cons_of_live hends.live, dept_perms_append,
        dept_perms_cons_of_not_usable hends.unusable, ite_self, Finset.union_empty,
          named_perms_of_dept u hends.live.2.2.1] at hnew
      obtain hpublic | hnamed | hbefore := hnew
      · exact Or.inl hpublic
      · exact Or.inr (Or.inl ⟨u, rfl, hnamed⟩)
      · exact Or.inr (Or.inr (Or.inl hbefore))
    · exact Or.inr (Or.inr (Or.inr hlink))
  · rintro h p hp (howns | hold | hlink)
    · exact Or.inl howns
    · cases user with
      | none => exact Or.inr (Or.inl hold)
      | some u =>
        cases hdept : u.dept_id with
        | none =>
          rw [mem_own_perms_of_no_dept hdept] at hold ⊢
          exact Or.inr (Or.inl (hold.imp_right fun hnamed => named_perms_subset u hnamed))
        | some user_dept_id =>
          rw [mem_own_perms_of_dept hdept] at hold ⊢
          obtain hpublic | hnamed | hdepts := hold
          · exact Or.inr (Or.inl (Or.inl hpublic))
          · exact Or.inr (Or.inl (Or.inr (Or.inl (named_perms_subset u hnamed))))
          · obtain hkept | ⟨hlive, hunusable, hreached, hafter⟩ := dept_perms_kept (s := s) hdepts
            · exact Or.inr (Or.inl (Or.inr (Or.inr hkept)))
            · by_cases howns : owns (some u) resource_obj = true
              · exact Or.inl howns
              · have hends : EndsLoop tables before s now
                    (some u) resource_type resource_obj user_dept_id :=
                  ⟨Bool.eq_false_iff.mpr howns, ⟨u, rfl, hdept⟩, hlive, hunusable, hreached⟩
                obtain hpublic | ⟨u', hu', hnamed⟩ | hbefore | hlink :=
                  h user_dept_id hends p hp hafter
                · exact Or.inr (Or.inl (Or.inl hpublic))
                · obtain rfl := Option.some.inj hu'
                  exact Or.inr (Or.inl (Or.inr (Or.inl (named_perms_subset u hnamed))))
                · refine Or.inr (Or.inl (Or.inr (Or.inr ?_)))
                  rw [depts_with_shares, frames_with_shares, subject_shares_append,
                    dept_perms_append]
                  exact Finset.mem_union_left _ hbefore
                · exact Or.inr (Or.inr hlink)
    · exact Or.inr (Or.inr hlink)

end

/-- A script shared with department 1 for viewing, and a row with a department that
has a name for an id. -/
def view_share : SharePermission :=
  { resource_type := .script, resource_id := 1, subject_type := "dept", subject_id := "1", permissions := ["script:view"] }

def named_dept_share : SharePermission := { view_share with subject_id := "ops", permissions := [] }

def one_department : Tables :=
  { links := [], depts := [{ id := 1 }], tokens_nodup := List.nodup_nil }

/-- The row with the unreadable id takes the view permission of the department away. -/
theorem unreadable_share_hides :
    ¬ ∀ (tables : Tables) (before after : List SharePermission) (s : SharePermission) (now : Time)
    (user : Option User) (resource_type : ResourceType) (resource_obj : Resource)
      (session : Option (List String)), expired now s.expire_time = false →
        PermsKept now user resource_type resource_obj session (with_shares tables (before ++ after))
          (with_shares tables (before ++ s :: after)) := by
  intro h
  have hkept := h one_department [] [view_share] named_dept_share 0
    (some { id := 2, dept_id := some 1 }) .script
    { id := 1 } none rfl
  rw [permsKept_iff] at hkept
  exact absurd (hkept "script:view" (by decide +kernel) (Or.inr (Or.inl (by decide +kernel))))
    (by decide +kernel)

end taurus.share
