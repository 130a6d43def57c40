import Mathlib.Data.Finset.Dedup
import Mathlib.Data.Finset.Lattice.Basic
import Taurus.Python.Float
import Taurus.Share.Models

namespace taurus.share

open taurus.python taurus.engine

/-- The loop of `recursion_all_dept` with room for so many nested calls. -/
def collect_depts (dept_all_list : List Dept) : Nat → Int → List Int → Option (List Int)
  | 0, _, _ => none
  | depth + 1, dept_id, dept_list => dept_all_list.foldlM (fun dept_list ele =>
      if ele.parent = some dept_id then
        collect_depts dept_all_list depth ele.id (dept_list ++ [ele.id])
      else some dept_list) dept_list

/-- The department with all that belong to it. Calls that nest deeper than the limit leaves room
raise RecursionError, which is none. -/
def Dept.recursion_all_dept (frames : Nat) (dept_all_list : List Dept) (dept_id : Int) :
    Option (List Int) :=
  (collect_depts dept_all_list frames dept_id [dept_id]).map List.dedup

section

variable (tables : Tables) (now : Time) (user : User) (resource_type : ResourceType)
  (resource_obj : Resource)

/-- The live shares of a resource with subjects of one type. -/
def subject_shares (subject_type : String) : List SharePermission :=
  tables.shares.filter fun s => s.resource_type = resource_type ∧ s.resource_id = resource_obj.id ∧
    s.subject_type = subject_type ∧ expired now s.expire_time = false

/-- What the shares with departments give to the users of one. The first share for which an
exception is raised ends the loop. -/
def dept_perms (frames : Nat) (depts : List Dept) (user_dept_id : Int) :
    List SharePermission → Finset String
  | [] => ∅
  | s :: rest =>
    match (short_int? s.subject_id.toList).bind (Dept.recursion_all_dept frames depts) with
    | none => ∅
    | some dept_and_children =>
      (if user_dept_id ∈ dept_and_children then s.permissions.toFinset
        else ∅) ∪ dept_perms frames depts user_dept_id rest

def perms_of (shares : List SharePermission) : Finset String :=
  (shares.flatMap (·.permissions)).toFinset

def _get_direct_share_perms : Finset String :=
  let shares := subject_shares tables now resource_type resource_obj
  let role_ids := (tables.role user.id).map toString
  perms_of ((shares "user").filter (·.subject_id = toString user.id)) ∪
    perms_of ((shares "role").filter (·.subject_id ∈ role_ids)) ∪
    match user.dept_id with
    | none => ∅
    | some user_dept_id => dept_perms tables.frames tables.depts user_dept_id (shares "dept")

end

/-- The links that the tokens of a session open for a resource. -/
def session_links (tables : Tables) (now : Time) (active_tokens : List String)
    (resource_type : ResourceType) (resource_obj : Resource) : List ShareLink :=
  tables.links.filter fun link => link.share_token ∈ active_tokens ∧ link.is_active = true ∧
    link.resource_type = resource_type ∧ expired now link.expire_time = false ∧
    link.resource_id = toString resource_obj.id ∧ link.exhausted = false

/-- A request without a session has no tokens. -/
def _get_session_share_link_perms (tables : Tables) (now : Time) (session : Option (List String))
    (resource_type : ResourceType) (resource_obj : Resource) : Finset String :=
  ((session_links tables now
    (session.getD []) resource_type resource_obj).flatMap (·.permissions)).toFinset

def public_perms (resource_type : ResourceType) (resource_obj : Resource) : Finset String :=
  if resource_obj.auth_type = "public" then DEFAULT_PUBLIC_PERMS_BY_RESOURCE resource_type else ∅

/-- `creator_id and str(creator_id) == str(user.id)` -/
def created_by (user : User) (resource_obj : Resource) : Bool :=
  match resource_obj.creator_id with
  | none => false
  | some creator_id => creator_id ≠ 0 ∧ toString creator_id = toString user.id

/-- `str.lower` on the names of resource types. -/
def lower (s : String) : String := String.ofList (s.toList.map Char.toLower)

/-- An anonymous visitor is none. -/
def get_user_effective_perms (tables : Tables) (now : Time) (user : Option User)
    (resource_type : String) (resource_obj : Resource) (session : Option (List String)) :
    Except String (Finset String) :=
  match ResourceType.of_name? (lower resource_type) with
  | none => .error s!"Unknown resource_type={lower resource_type}"
  | some resource_type =>
    let all_perms := ALL_PERMS_BY_RESOURCE resource_type
    let session_perms := _get_session_share_link_perms tables now session resource_type resource_obj
    match user with
    | none => .ok ((public_perms resource_type resource_obj ∪ session_perms) ∩ all_perms)
    | some user =>
      if user.is_superuser then .ok all_perms
      else if created_by user resource_obj then .ok all_perms
      else .ok ((public_perms resource_type resource_obj ∪
        _get_direct_share_perms tables now user resource_type resource_obj ∪ session_perms) ∩ all_perms)

section

variable {tables : Tables} {now : Time} {user : Option User} {resource_type : ResourceType}
  {resource_obj : Resource}
  {active_tokens : List String} {session : Option (List String)} {link : ShareLink} {p : String}

/-- The visitor has all permissions anyway. -/
def owns (user : Option User) (resource_obj : Resource) : Bool :=
  user.any fun user => user.is_superuser || created_by user resource_obj

/-- What a visitor has without a session. -/
def own_perms (tables : Tables) (now : Time) (user : Option User) (resource_type : ResourceType)
    (resource_obj : Resource) :
    Finset String :=
  public_perms resource_type resource_obj ∪
    user.elim ∅ fun user => _get_direct_share_perms tables now user resource_type resource_obj

/-- The links of a session that open the resource. -/
theorem mem_session_links :
    link ∈ session_links tables now active_tokens resource_type resource_obj ↔
    link ∈ tables.links ∧ link.share_token ∈ active_tokens ∧ link.is_active = true ∧
      link.resource_type = resource_type ∧
      expired now link.expire_time = false ∧ link.resource_id = toString resource_obj.id ∧
        link.exhausted = false := by
  unfold session_links
  rw [List.mem_filter, decide_eq_true_eq]

/-- Their permissions. -/
theorem mem_session_perms :
    p ∈ _get_session_share_link_perms tables now session resource_type resource_obj ↔
    ∃ link ∈ session_links tables now (session.getD []) resource_type resource_obj,
      p ∈ link.permissions := by
  unfold _get_session_share_link_perms
  rw [List.mem_toFinset, List.mem_flatMap]

theorem lower_name (t : ResourceType) : lower t.name = t.name := by cases t <;> decide +kernel

/-- A permission check for a known type answers, and a valid code is granted by
exactly these sources. -/
theorem get_user_effective_perms_spec (tables : Tables) (now : Time) (user : Option User)
    (resource_type : ResourceType) (resource_obj : Resource) (session : Option (List String)) :
    ∃ perms, get_user_effective_perms tables now user resource_type.name resource_obj session =
      .ok perms ∧
      ∀ p, p ∈ perms ↔ p ∈ ALL_PERMS_BY_RESOURCE resource_type ∧
        (owns user resource_obj = true ∨ p ∈ own_perms tables now user resource_type resource_obj ∨
          ∃ link ∈ session_links tables now (session.getD []) resource_type resource_obj,
            p ∈ link.permissions) := by
  unfold get_user_effective_perms owns own_perms
  rw [lower_name, ResourceType.of_name?_name]
  dsimp only
  simp only [← mem_session_perms]
  cases user with
  | none =>
    refine ⟨_, rfl, fun p => ?_⟩
    simp only [Finset.mem_inter, Finset.mem_union, Option.any_none, Option.elim_none,
      Finset.notMem_empty, or_false, Bool.false_eq_true, false_or]
    exact And.comm
  | some user =>
    dsimp only [Option.any_some, Option.elim_some]
    by_cases hadmin : user.is_superuser = true
    · rw [if_pos hadmin, hadmin, Bool.true_or]
      exact ⟨_, rfl, fun p => ⟨fun h => ⟨h, Or.inl rfl⟩, And.left⟩⟩
    · by_cases hcreator : created_by user resource_obj = true
      · rw [if_neg hadmin, if_pos hcreator, hcreator, Bool.or_true]
        exact ⟨_, rfl, fun p => ⟨fun h => ⟨h, Or.inl rfl⟩, And.left⟩⟩
      · rw [if_neg hadmin, if_neg hcreator]
        refine ⟨_, rfl, fun p => ?_⟩
        simp only [Finset.mem_inter, Finset.mem_union, hadmin, hcreator, Bool.or_false,
          Bool.false_eq_true, false_or]
        exact And.comm

end

deriving instance DecidableEq for Resource

section

variable (tables : Tables) (now : Time) (user : User) (resource_type : ResourceType)

/-- The live shares with subjects of one type, for all resources. -/
def live_shares (subject_type : String) : List SharePermission :=
  tables.shares.filter fun s => s.resource_type = resource_type ∧ s.subject_type = subject_type ∧
    expired now s.expire_time = false

/-- The user's department is the one of the share or belongs to it. A share for which an exception
is raised is passed over. -/
def shared_with_dept (frames : Nat) (depts : List Dept) (user_dept_id : Int)
    (s : SharePermission) : Bool :=
  ((short_int? s.subject_id.toList).bind (Dept.recursion_all_dept frames depts)).any
    (user_dept_id ∈ ·)

/-- The resources shared with the user, one of the user's roles or the user's department. -/
def shared_ids : List Int :=
  let shares := live_shares tables now resource_type
  let role_ids := (tables.role user.id).map toString
  ((shares "user").filter (·.subject_id = toString user.id)).map (·.resource_id) ++
    ((shares "role").filter (·.subject_id ∈ role_ids)).map (·.resource_id) ++
    match user.dept_id with
    | none => []
    | some user_dept_id =>
      ((shares "dept").filter (shared_with_dept tables.frames tables.depts user_dept_id)).map (·.resource_id)

/-- `max_cnt and max_cnt > 0 and cur_cnt and cur_cnt >= max_cnt` -/
def ShareLink.used_up (link : ShareLink) : Bool :=
  link.max_access_count ≠ 0 ∧ 0 < link.max_access_count ∧ link.current_access_count ≠ 0 ∧
    link.max_access_count ≤ link.current_access_count

/-- The resources of the links that the tokens of a session open. -/
def link_ids (active_tokens : List String) : List Int :=
  (tables.links.filter fun link => link.share_token ∈ active_tokens ∧
    link.resource_type = resource_type ∧
    link.is_active = true ∧ expired now link.expire_time = false ∧ link.used_up = false).filterMap
      fun link => short_int? link.resource_id.toList

/-- The resources of a query that the user may see: the user's own, the public ones and, if wanted,
those that are shared. -/
def filter_visible (queryset : List Resource) (session : Option (List String))
    (include_shared : Bool) :
    List Resource :=
  if user.is_superuser then queryset.dedup
  else
    let shared := if include_shared then
        shared_ids tables now user resource_type ++ link_ids tables now resource_type
          (session.getD [])
      else []
    (queryset.filter fun r => r.creator_id = some user.id ∨ r.auth_type = "public" ∨
      r.id ∈ shared).dedup

end

def filter_visible_scripts (tables : Tables) (now : Time) (queryset : List Resource) (user : User)
    (session : Option (List String)) (include_shared : Bool := false) : List Resource :=
  filter_visible tables now user .script queryset session include_shared

def filter_visible_workflows (tables : Tables) (now : Time) (queryset : List Resource) (user : User)
    (session : Option (List String)) (include_shared : Bool := true) : List Resource :=
  filter_visible tables now user .workflow queryset session include_shared

end taurus.share
