import Mathlib.Data.Finset.Insert
import Taurus.Engine.Schemas

namespace taurus.share

open taurus.engine

inductive ResourceType where
  | script
  | workflow
  deriving DecidableEq

def ResourceType.name : ResourceType → String
  | script => "script"
  | workflow => "workflow"

def ResourceType.of_name? : String → Option ResourceType
  | "script" => some script
  | "workflow" => some workflow
  | _ => none

theorem ResourceType.of_name?_name (t : ResourceType) : of_name? t.name = some t := by
  cases t <;> rfl

def ALL_SCRIPT_PERMS : Finset String :=
  {"script:view", "script:view_version", "script:view_audit", "script:view_exec_history",
    "script:edit", "script:edit_content", "script:edit_config", "script:manage_version",
    "script:trial_run", "script:execute", "script:create_task",
    "script:copy", "script:export", "script:toggle_status",
    "script:archive", "script:delete", "script:submit_approve", "script:manage_share"}

def ALL_WORKFLOW_PERMS : Finset String :=
  {"workflow:view", "workflow:view_version", "workflow:view_approval",
    "workflow:view_exec_history", "workflow:view_risk",
    "workflow:edit", "workflow:edit_graph", "workflow:edit_steps",
    "workflow:edit_hosts", "workflow:publish", "workflow:rollback",
    "workflow:trial_run", "workflow:execute", "workflow:create_schedule", "workflow:cancel_exec",
    "workflow:copy", "workflow:export", "workflow:toggle_status",
    "workflow:delete", "workflow:submit_approve", "workflow:manage_share"}

def ALL_PERMS_BY_RESOURCE : ResourceType → Finset String
  | .script => ALL_SCRIPT_PERMS
  | .workflow => ALL_WORKFLOW_PERMS

def DEFAULT_PUBLIC_SCRIPT_PERMS : Finset String :=
  {"script:view", "script:view_version", "script:view_audit", "script:view_exec_history",
    "script:trial_run", "script:execute", "script:copy"}

def DEFAULT_PUBLIC_WORKFLOW_PERMS : Finset String :=
  {"workflow:view", "workflow:view_version", "workflow:view_exec_history",
    "workflow:view_risk", "workflow:view_approval", "workflow:trial_run", "workflow:copy"}

def DEFAULT_PUBLIC_PERMS_BY_RESOURCE : ResourceType → Finset String
  | .script => DEFAULT_PUBLIC_SCRIPT_PERMS
  | .workflow => DEFAULT_PUBLIC_WORKFLOW_PERMS

/-- Every default is a valid permission code. -/
theorem default_public_perms_valid (t : ResourceType) :
    DEFAULT_PUBLIC_PERMS_BY_RESOURCE t ⊆ ALL_PERMS_BY_RESOURCE t := by
  cases t <;> decide +kernel

structure User where
  id : Int
  is_superuser : Bool := false
  dept_id : Option Int := none
  deriving DecidableEq

structure Dept where
  id : Int
  parent : Option Int := none
  deriving DecidableEq

/-- What a permission check reads of a `Script` or a `Workflow`. -/
structure Resource where
  id : Int
  auth_type : String := "private"
  creator_id : Option Int := none

/-- A row of `ScriptSharePermission` or `WorkflowSharePermission`. -/
structure SharePermission where
  resource_type : ResourceType
  resource_id : Int
  subject_type : String
  subject_id : String
  permissions : List String := []
  expire_time : Option Time := none

inductive AccessScope where
  | authenticated
  | anyone
  deriving DecidableEq

/-- A row of `ShareLink`. -/
structure ShareLink where
  resource_type : ResourceType
  resource_id : String
  share_token : String
  permissions : List String := []
  expire_time : Option Time := none
  max_access_count : Int := 0
  current_access_count : Int := 0
  access_scope : AccessScope := .authenticated
  bind_subject_type : Option String := none
  bind_subject_id : Option String := none
  is_active : Bool := true
  deriving DecidableEq

/-- The expiry time has passed. -/
def expired (now : Time) (expire_time : Option Time) : Bool := expire_time.any (· < now)

namespace ShareLink

def exhausted (link : ShareLink) : Bool :=
  0 < link.max_access_count ∧ link.max_access_count ≤ link.current_access_count

/-- Whom the link is bound to; an empty text binds to no one. -/
def binding (link : ShareLink) : Option (String × String) :=
  match link.bind_subject_type, link.bind_subject_id with
  | some bind_type, some bind_id =>
    if bind_type ≠ "" ∧ bind_id ≠ "" then some (bind_type, bind_id) else none
  | _, _ => none

end ShareLink

/-- A row of `ShareLinkAccessLog`; the link is named by its token. -/
structure ShareLinkAccessLog where
  share_link : String
  access_user : Option Int
  access_success : Bool
  fail_reason : String
  deriving DecidableEq

/-- What the administration of an installation maintains. -/
structure Tables where
  links : List ShareLink := []
  tokens_nodup : (links.map ShareLink.share_token).Nodup
  shares : List SharePermission := []
  depts : List Dept := []
  /-- How many nested calls the recursion limit leaves to `recursion_all_dept`. -/
  frames : Nat := 900
  role : Int → List Int := fun _ => []
  /-- The name of a script or a workflow. -/
  name : ResourceType → String → Option String := fun _ _ => none

namespace Tables

def link? (tables : Tables) (share_token : String) : Option ShareLink :=
  tables.links.find? (·.share_token = share_token)

/-- Store the count of one link. -/
def save_count (tables : Tables) (share_token : String) (current_access_count : Int) : Tables where
  __ := tables
  links := tables.links.map fun link => if link.share_token =
    share_token then { link with current_access_count } else link
  tokens_nodup := by
    rw [List.map_map]
    refine Eq.mp (congrArg List.Nodup (List.map_congr_left fun link _ => ?_)) tables.tokens_nodup
    dsimp only [Function.comp_apply]
    split <;> rfl

section

variable {tables : Tables} {share_token : String} {link l : ShareLink} {n : Int}

/-- A link found by its token has that token. -/
theorem share_token_of_link? (hlink : tables.link? share_token = some link) :
    link.share_token = share_token :=
  of_decide_eq_true (List.find?_some
    (p := fun link : ShareLink => link.share_token = share_token) hlink)

/-- It is one of the links. -/
theorem mem_of_link? (hlink : tables.link? share_token = some link) : link ∈ tables.links :=
  List.mem_of_find?_eq_some hlink

/-- No other link has its token. -/
theorem eq_of_share_token (hl : l ∈ tables.links) (hlink : tables.link? share_token = some link)
    (h : l.share_token = share_token) :
    l = link :=
  List.inj_on_of_nodup_map tables.tokens_nodup hl (mem_of_link? hlink)
    (h.trans (share_token_of_link? hlink).symm)

/-- Saving a count changes the count of its link only. -/
theorem link?_save_count {t : String} : (tables.save_count t n).link? share_token =
    (tables.link? share_token).map fun link => if link.share_token =
      t then { link with current_access_count := n } else link := by
  change (tables.links.map _).find? _ = (tables.links.find? _).map _
  rw [List.find?_map]
  congr 2
  funext link
  dsimp only [Function.comp_apply]
  split <;> rfl

/-- Another link stays as it was. -/
theorem mem_save_count_of_ne (hne : l.share_token ≠ share_token) :
    l ∈ (tables.save_count share_token n).links ↔ l ∈ tables.links := by
  change l ∈ tables.links.map _ ↔ _
  rw [List.mem_map]
  constructor
  · rintro ⟨l', hl', heq⟩
    by_cases h : l'.share_token = share_token
    · rw [if_pos h] at heq
      exact absurd (heq ▸ h) hne
    · rw [if_neg h] at heq
      exact heq ▸ hl'
  · exact fun hl => ⟨l, hl, if_neg hne⟩

theorem mem_save_count_self (hlink : tables.link? share_token = some link)
    (htoken : l.share_token = share_token) :
    l ∈ (tables.save_count share_token n).links ↔ l = { link with current_access_count := n } := by
  change l ∈ tables.links.map _ ↔ _
  rw [List.mem_map]
  constructor
  · rintro ⟨l', hl', heq⟩
    by_cases h : l'.share_token = share_token
    · rw [if_pos h, eq_of_share_token hl' hlink h] at heq
      exact heq.symm
    · rw [if_neg h] at heq
      exact absurd (heq ▸ htoken) h
  · rintro rfl
    exact ⟨link, mem_of_link? hlink, if_pos (share_token_of_link? hlink)⟩

end

end Tables

/-- The stored state with the tokens of each session. -/
structure World where
  tables : Tables
  sessions : Nat → List String := fun _ => []
  logs : List ShareLinkAccessLog := []

end taurus.share
