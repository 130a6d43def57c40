import Taurus.Python.Float
import Taurus.Share.Effects
import Taurus.Share.Permissions

namespace taurus.share

open taurus.python taurus.engine

/-- What makes a resource visible to a user: ownership, publicity, a live share with the user or a
live link of the session. -/
inductive Visible (tables : Tables) (now : Time) (user : User) (resource_type : ResourceType)
    (resource_obj : Resource) (active_tokens : List String) : Prop
  | superuser (h : user.is_superuser = true)
  | creator (h : resource_obj.creator_id = some user.id)
  | everyone (h : resource_obj.auth_type = "public")
  | shared {s : SharePermission} (hs : s ∈ tables.shares) (htype : s.resource_type = resource_type)
      (hid : s.resource_id = resource_obj.id) (hlive : expired now s.expire_time = false)
      (hsubject : IsSubject tables user s.subject_type s.subject_id)
  | linked {link : ShareLink} (hlink : link ∈ tables.links)
      (htoken : link.share_token ∈ active_tokens)
      (hactive : link.is_active = true) (htype : link.resource_type = resource_type)
      (hlive : expired now link.expire_time = false)
      (hid : short_int? link.resource_id.toList = some resource_obj.id)
      (hleft : link.exhausted = false)

section

variable {tables : Tables} {now : Time} {user : User} {resource_type : ResourceType}
  {resource_obj : Resource}
  {active_tokens : List String} {session : Option (List String)}
    {queryset : List Resource} {p : String}

theorem used_up_eq_exhausted (link : ShareLink) : link.used_up = link.exhausted := by
  unfold ShareLink.used_up ShareLink.exhausted
  rw [decide_eq_decide]
  omega

/-- What the links of a session list. -/
theorem mem_link_ids {id : Int} : id ∈ link_ids tables now resource_type active_tokens ↔
    ∃ link ∈ tables.links, link.share_token ∈ active_tokens ∧ link.resource_type = resource_type ∧
      link.is_active = true ∧ expired now link.expire_time = false ∧ link.exhausted = false ∧
      short_int? link.resource_id.toList = some id := by
  simp only [link_ids, List.mem_filterMap, List.mem_filter, decide_eq_true_eq,
    used_up_eq_exhausted, and_assoc]

/-- The live shares of a kind. -/
theorem mem_live_shares {subject_type : String} {s : SharePermission} :
    s ∈ live_shares tables now resource_type subject_type ↔
      s ∈ tables.shares ∧ s.resource_type = resource_type ∧ s.subject_type = subject_type ∧
        expired now s.expire_time = false := by
  rw [live_shares, List.mem_filter, decide_eq_true_eq]

/-- When a share reaches a department. -/
theorem shared_with_dept_iff {frames : Nat} {depts : List Dept} {user_dept_id : Int}
    {s : SharePermission} :
    shared_with_dept frames depts user_dept_id s = true ↔ ∃ dept_id dept_and_children,
      short_int? s.subject_id.toList = some dept_id ∧
        Dept.recursion_all_dept frames depts dept_id = some dept_and_children ∧
        user_dept_id ∈ dept_and_children := by
  rw [shared_with_dept, Option.any_eq_true]
  simp only [Option.bind_eq_some_iff, decide_eq_true_eq]
  constructor
  · rintro ⟨depts, ⟨dept_id, hid, hdepts⟩, hmem⟩
    exact ⟨dept_id, depts, hid, hdepts, hmem⟩
  · rintro ⟨dept_id, depts, hid, hdepts, hmem⟩
    exact ⟨depts, ⟨dept_id, hid, hdepts⟩, hmem⟩

/-- The listed ids are those of the live shares whose subjects the user is. -/
theorem mem_shared_ids {id : Int} : id ∈ shared_ids tables now user resource_type ↔
    ∃ s ∈ tables.shares, s.resource_type = resource_type ∧ s.resource_id = id ∧
      expired now s.expire_time = false ∧
      IsSubject tables user s.subject_type s.subject_id := by
  unfold shared_ids
  simp only [List.mem_append, List.mem_map, List.mem_filter, decide_eq_true_eq, mem_live_shares]
  constructor
  · rintro ((⟨s, ⟨⟨hs, htype, hsubject, hlive⟩, huser⟩, rfl⟩ | ⟨s, ⟨⟨hs, htype, hsubject, hlive⟩,
      hrole⟩, rfl⟩) | hdept)
    · exact ⟨s, hs, htype, rfl, hlive, .user hsubject huser.symm⟩
    · obtain ⟨r, hr, hid⟩ := hrole
      exact ⟨s, hs, htype, rfl, hlive, .role hsubject hr hid⟩
    · cases huser : user.dept_id with
      | none =>
        rw [huser] at hdept
        exact absurd hdept List.not_mem_nil
      | some user_dept_id =>
        simp only [huser, List.mem_map, List.mem_filter, mem_live_shares,
          shared_with_dept_iff] at hdept
        obtain ⟨s, ⟨⟨hs, htype, hsubject, hlive⟩, dept_id, depts, hid, hdepts, hmem⟩, rfl⟩ := hdept
        exact ⟨s, hs, htype, rfl, hlive, .dept hsubject huser hid hdepts hmem⟩
  · rintro ⟨s, hs, htype, rfl, hlive, hsubject⟩
    cases hsubject with
    | user hsubject hid => exact .inl (.inl ⟨s, ⟨⟨hs, htype, hsubject, hlive⟩, hid.symm⟩, rfl⟩)
    | role hsubject hr hid => exact .inl (.inr ⟨s, ⟨⟨hs, htype, hsubject, hlive⟩, _, hr, hid⟩, rfl⟩)
    | dept hsubject huser hid hdepts hmem =>
      right
      simp only [huser, List.mem_map, List.mem_filter, mem_live_shares, shared_with_dept_iff]
      exact ⟨s, ⟨⟨hs, htype, hsubject, hlive⟩, _, _, hid, hdepts, hmem⟩, rfl⟩

/-- With shared resources the list holds exactly what is visible. -/
theorem mem_filter_visible_iff :
    resource_obj ∈ filter_visible tables now user resource_type queryset session true ↔
      resource_obj ∈ queryset ∧
        Visible tables now user resource_type resource_obj (session.getD []) := by
  unfold filter_visible
  by_cases hadmin : user.is_superuser = true
  · rw [if_pos hadmin, List.mem_dedup]
    exact ⟨fun h => ⟨h, .superuser hadmin⟩, And.left⟩
  · rw [if_neg hadmin, List.mem_dedup, List.mem_filter, decide_eq_true_eq]
    refine and_congr_right fun _ => ?_
    simp only [if_true, List.mem_append, mem_shared_ids, mem_link_ids]
    constructor
    · rintro (h | h | ⟨s, hs, htype, hid, hlive, hsubject⟩ |
        ⟨link, hlink, htoken, htype, hactive, hlive, hleft, hid⟩)
      · exact .creator h
      · exact .everyone h
      · exact .shared hs htype hid hlive hsubject
      · exact .linked hlink htoken hactive htype hlive hid hleft
    · intro h
      cases h with
      | superuser h => exact absurd h hadmin
      | creator h => exact .inl h
      | everyone h => exact .inr (.inl h)
      | shared hs htype hid hlive hsubject =>
        exact .inr (.inr (.inl ⟨_, hs, htype, hid, hlive, hsubject⟩))
      | linked hlink htoken hactive htype hlive hid hleft =>
        exact .inr (.inr (.inr ⟨_, hlink, htoken, htype, hactive, hlive, hleft, hid⟩))

/-- The live shares of a resource. -/
theorem mem_subject_shares {subject_type : String} {s : SharePermission} :
    s ∈ subject_shares tables now resource_type resource_obj subject_type ↔
      s ∈ tables.shares ∧ s.resource_type = resource_type ∧ s.resource_id = resource_obj.id ∧
        s.subject_type = subject_type ∧ expired now s.expire_time = false := by
  rw [subject_shares, List.mem_filter, decide_eq_true_eq]

theorem mem_perms_of {shares : List SharePermission} :
    p ∈ perms_of shares ↔ ∃ s ∈ shares, p ∈ s.permissions := by
  rw [perms_of, List.mem_toFinset, List.mem_flatMap]

/-- A permission through a department comes from a share that is passed before any exception. -/
theorem exists_of_mem_dept_perms {frames : Nat} {depts : List Dept} {user_dept_id : Int}
    {shares : List SharePermission} (h : p ∈ dept_perms frames depts user_dept_id shares) :
    ∃ s ∈ shares, p ∈ s.permissions ∧ shared_with_dept frames depts user_dept_id s = true := by
  induction shares with
  | nil => exact absurd h (Finset.notMem_empty p)
  | cons s rest ih =>
    unfold dept_perms at h
    cases hdepts : (short_int? s.subject_id.toList).bind (Dept.recursion_all_dept frames depts) with
    | none =>
      rw [hdepts] at h
      exact absurd h (Finset.notMem_empty p)
    | some dept_and_children =>
      rw [hdepts, Finset.mem_union] at h
      obtain h | h := h
      · by_cases hmem : user_dept_id ∈ dept_and_children
        · rw [if_pos hmem, List.mem_toFinset] at h
          exact ⟨s, List.mem_cons_self, h,
            by rw [shared_with_dept, hdepts]; exact decide_eq_true hmem⟩
        · rw [if_neg hmem] at h
          exact absurd h (Finset.notMem_empty p)
      · obtain ⟨s', hs', hp⟩ := ih h
        exact ⟨s', List.mem_cons_of_mem _ hs', hp⟩

/-- A direct permission comes from a live share whose subject the user is. -/
theorem exists_of_mem_direct
    (h : p ∈ _get_direct_share_perms tables now user resource_type resource_obj) :
    ∃ s ∈ tables.shares, s.resource_type = resource_type ∧ s.resource_id = resource_obj.id ∧
      expired now s.expire_time = false ∧ IsSubject tables user s.subject_type s.subject_id := by
  unfold _get_direct_share_perms at h
  simp only [Finset.mem_union, mem_perms_of, List.mem_filter, decide_eq_true_eq, mem_subject_shares,
    List.mem_map] at h
  rcases h with (⟨s, ⟨⟨hs, htype, hid, hsubject, hlive⟩, huser⟩, -⟩ |
    ⟨s, ⟨⟨hs, htype, hid, hsubject, hlive⟩, hrole⟩, -⟩) | h
  · exact ⟨s, hs, htype, hid, hlive, .user hsubject huser.symm⟩
  · obtain ⟨r, hr, hrole⟩ := hrole
    exact ⟨s, hs, htype, hid, hlive, .role hsubject hr hrole⟩
  · cases huser : user.dept_id with
    | none =>
      rw [huser] at h
      exact absurd h (Finset.notMem_empty p)
    | some user_dept_id =>
      rw [huser] at h
      obtain ⟨s, hs, -, hdept⟩ := exists_of_mem_dept_perms h
      obtain ⟨hs, htype, hid, hsubject, hlive⟩ := mem_subject_shares.mp hs
      obtain ⟨dept_id, depts, hint, hdepts, hmem⟩ := shared_with_dept_iff.mp hdept
      exact ⟨s, hs, htype, hid, hlive, .dept hsubject huser hint hdepts hmem⟩

theorem creator_of_created_by (h : created_by user resource_obj = true) :
    resource_obj.creator_id = some user.id := by
  unfold created_by at h
  cases hcreator : resource_obj.creator_id with
  | none =>
    rw [hcreator] at h
    cases h
  | some creator_id =>
    rw [hcreator] at h
    have htext := (of_decide_eq_true h).2
    exact congrArg some (toString_toList_injective (congrArg String.toList htext))

/-- Whoever has any permission for a resource is one it is visible to. -/
theorem visible_of_perms (resource_type : ResourceType) {perms : Finset String}
    (hperms : get_user_effective_perms tables now
      (some user) resource_type.name resource_obj session = .ok perms)
    (hp : p ∈ perms) : Visible tables now user resource_type resource_obj (session.getD []) := by
  obtain ⟨perms', hperms', hmem⟩ :=
    get_user_effective_perms_spec tables now (some user) resource_type resource_obj session
  obtain rfl := Except.ok.inj (hperms'.symm.trans hperms)
  obtain howns | hown | ⟨link, hlink, -⟩ := ((hmem p).mp hp).2
  · have howns : (user.is_superuser || created_by user resource_obj) = true := howns
    obtain h | h := Bool.or_eq_true_iff.mp howns
    · exact .superuser h
    · exact .creator (creator_of_created_by h)
  · obtain hpublic | hdirect := Finset.mem_union.mp hown
    · unfold public_perms at hpublic
      split_ifs at hpublic with h
      · exact .everyone h
      · exact absurd hpublic (Finset.notMem_empty p)
    · obtain ⟨s, hs, htype, hid, hlive, hsubject⟩ := exists_of_mem_direct hdirect
      exact .shared hs htype hid hlive hsubject
  · obtain ⟨hlink, htoken, hactive, htype, hlive, hid, hleft⟩ := mem_session_links.mp hlink
    exact .linked hlink htoken hactive htype hlive (by rw [hid, short_int?_toString]) hleft

end

/-- What a user may view is in the list of visible resources. -/
theorem viewable_listed (tables : Tables) (now : Time) (user : User)
    (session : Option (List String)) (queryset : List Resource) (resource_obj : Resource)
    (hobj : resource_obj ∈ queryset) :
    (∀ perms, get_user_effective_perms tables now
      (some user) "script" resource_obj session = .ok perms →
      "script:view" ∈ perms → resource_obj ∈ filter_visible_scripts tables now queryset user session true) ∧
    ∀ perms, get_user_effective_perms tables now
      (some user) "workflow" resource_obj session = .ok perms →
      "workflow:view" ∈ perms →
        resource_obj ∈ filter_visible_workflows tables now queryset user session true := by
  constructor
  · intro perms hperms hview
    exact mem_filter_visible_iff.mpr ⟨hobj, visible_of_perms .script hperms hview⟩
  · intro perms hperms hview
    exact mem_filter_visible_iff.mpr ⟨hobj, visible_of_perms .workflow hperms hview⟩

/-- A script that is shared with a department, of which another one is a part. -/
def plant : Tables where
  links := []
  tokens_nodup := List.nodup_nil
  shares :=
    [{ resource_type := .script
       resource_id := 5
       subject_type := "dept"
       subject_id := "1"
       permissions := ["script:view"] }]
  depts := [{ id := 1 }, { id := 2, parent := some 1 }]

/-- A member of the part. -/
def member : User := { id := 7, dept_id := some 2 }

theorem shared_with_plant_listed :
    ∃ perms, get_user_effective_perms plant 0 (some member) "script" { id := 5 } none = .ok perms ∧
      "script:view" ∈ perms ∧
      { id := 5 } ∈ filter_visible_scripts plant 0 [{ id := 4 }, { id := 5 }] member none true :=
  ⟨_, rfl, by decide +kernel,
    (viewable_listed plant 0 member none [{ id := 4 }, { id := 5 }] { id := 5 } (by decide)).1 _ rfl
      (by decide +kernel)⟩

end taurus.share
