import Mathlib.Data.List.Lex
import Taurus.Python.Float
import Taurus.Python.Json

namespace taurus.scripts

open taurus.python

structure ScriptVersion where
  id : Nat
  version : String
  content : String
  desc : String
  is_current : Bool
  deriving DecidableEq

/-- A script with its versions, the oldest first. -/
structure Script where
  content : String
  current_version : String := "V1.0"
  status : Nat := 0
  is_official : Bool := false
  official_version : String := ""
  changelog : String := ""
  versions : List ScriptVersion := []

/-- The status number of a script under approval. -/
def PENDING_APPROVAL : Nat := 2

/-- `ScriptVersion.objects.create` of the version that is current from now on. -/
def create_version (s : Script) (id : Nat) (version content desc : String) : Script :=
  { s with versions := s.versions ++ [{ id, version, content, desc, is_current := true }] }

/-- `script.versions.filter(is_current=True).update(is_current=False)` -/
def cancel_current (s : Script) : Script :=
  { s with versions := s.versions.map fun v => { v with is_current := false } }

/-- `int(v.replace('V', '').split('.')[0])`, if it is a number. -/
def label_number (v : String) : Option Int :=
  short_int? ((v.toList.filter (· ≠ 'V')).takeWhile (· ≠ '.'))

/-- The largest number of the labels, at least 1. -/
def max_version (labels : List String) : Int :=
  labels.foldl (fun greatest v => (label_number v).elim greatest (max greatest)) 1

def label (n : Int) : String := s!"V{n}.0"

def new_version (s : Script) : String := label (max_version (s.versions.map (·.version)) + 1)

/-- `evict_to_quota` with `filter_exclude={'is_current': True}`, the answer of the licence being
`limit`: room for one more version is made from the oldest ones. -/
def evict_to_quota (limit : Option Int) (versions : List ScriptVersion) : List ScriptVersion :=
  match limit with
  | none => versions
  | some limit =>
    if versions.length < limit then versions
    else
      let to_remove_count := versions.length - limit + 1
      let ids_to_remove := ((versions.filter (!·.is_current)).take to_remove_count.toNat).map (·.id)
      versions.filter fun v => !ids_to_remove.contains v.id

/-- The status after `_create_approval`, which leaves one of its own if it starts an approval. -/
def create_approval (approval : Option Nat) (s : Script) : Script :=
  { s with status := approval.getD s.status }

/-- The fields of an update that are read: the new content and status, if they are in it, and the
names of the others. -/
structure ScriptUpdate where
  content : Option String := none
  status : Option Nat := none
  category_changes : Bool := false
  changed_fields : List String := []

/-- The update touches what a script under approval must not change. -/
def ScriptUpdate.blocked (u : ScriptUpdate) : Bool :=
  u.content.isSome || ["category", "name", "script_type",
    "need_audit"].any u.changed_fields.contains

/-- The content saved as the next version. -/
def next_version (s : Script) (id : Nat) (content desc : String) : Script :=
  let version := new_version s
  create_version { cancel_current s with content, current_version := version } id version content desc

/-- `perform_create`; `id` is the key of the version. -/
def perform_create (id : Nat) (content : String) (approval : Option Nat) : Script :=
  create_approval approval (create_version { content } id "V1.0" content "Initial version")

/-- The exceptions of the framework. -/
inductive Refusal where
  | ValidationError (detail : String)
  | PermissionDenied (detail : String)

/-- `perform_update` -/
def perform_update (s : Script) (id : Nat) (u : ScriptUpdate) (is_staff : Bool) (limit : Option Int)
    (approval : Option Nat) : Except Refusal Script :=
  if s.status = PENDING_APPROVAL ∧ u.blocked then
    .error (.ValidationError "Script is pending approval, cannot modify content/name/type/category/approval config")
  else if s.is_official ∧ !is_staff then
    .error (.PermissionDenied "Official scripts cannot be modified. Use \"Save As\" to create a private copy")
  else
    let script := { s with content := u.content.getD s.content, status := u.status.getD s.status }
    let content_changes := s.content ≠ script.content
    let script := if content_changes then
        next_version { script with versions := evict_to_quota limit s.versions } id script.content "Auto-generate new version"
      else script
    .ok (if script.status ≠ PENDING_APPROVAL ∧ (content_changes ∨ u.category_changes) then
      create_approval approval script else script)

/-- `rollback_version`: what it answers, and the script. -/
def rollback_version (s : Script) (id : Nat) (version_id : Option Nat) (approval : Option Nat) :
    Except String Script :=
  if s.status = PENDING_APPROVAL then .error "Script is pending approval, cannot rollback version"
  else
    match version_id with
    | none => .error "Missing version ID"
    | some version_id =>
      match s.versions.find? (·.id = version_id) with
      | none => .error "Version not found"
      | some version =>
        .ok (create_approval approval
          (next_version s id version.content s!"Rollback to {version.version}"))

/-- The three numbers `_compare_version` reads of a version. -/
def parse_version (v : String) : List Nat :=
  let text := match v.toList with
    | c :: rest => if c = 'v' ∨ c = 'V' then rest else v.toList
    | [] => []
  let parts := (strip text).splitOnP fun c => c = '.' || c = '-' || c = '+'
  let numbers := (parts.take 3).map fun part => (digitsNat? (part.filter isdecimal)).getD 0
  numbers ++ List.replicate (3 - numbers.length) 0

/-- A script of the library that comes with the program. -/
structure OfficialScript where
  content : String
  official_version : String := "v1.0.0"
  changelog : String := ""

/-- `init_official_scripts`: the upgrade of a script that is already there. -/
def upgrade_official (s : Script) (id : Nat) (data : OfficialScript) : Script :=
  if s.is_official = false ∨
  parse_version data.official_version ≤ parse_version s.official_version then s
  else
    let old_version := if s.current_version = "" then "N/A" else s.current_version
    create_version
      { cancel_current s with
        content := data.content, official_version := data.official_version, changelog := data.changelog
        current_version := data.official_version }
      id data.official_version data.content
      s!"Official version upgraded: {old_version} → {data.official_version}\n{data.changelog}"

/-- `init_official_scripts`: a script that is not there yet. -/
def import_official (id : Nat) (data : OfficialScript) : Script :=
  create_version
    { content := data.content, current_version := data.official_version, is_official := true
      official_version := data.official_version, changelog := data.changelog }
    id data.official_version data.content "Official initial version"

/-- What happens to a script; an approval, an archiving or their end sets its status. -/
inductive Event where
  | update (id : Nat) (u : ScriptUpdate) (is_staff : Bool) (approval : Option Nat)
  | rollback (id : Nat) (version_id : Option Nat) (approval : Option Nat)
  | upgrade (id : Nat) (data : OfficialScript)
  | set_status (status : Nat)

namespace Event

/-- The script after the event, under the licence's limit of versions; one that is refused
leaves it. -/
def run (limit : Option Int) (s : Script) : Event → Script
  | update id u is_staff approval => (perform_update s id u is_staff limit approval).toOption.getD s
  | rollback id version_id approval => (rollback_version s id version_id approval).toOption.getD s
  | upgrade id data => upgrade_official s id data
  | set_status status => { s with status }

/-- The key the database gives a version that the event creates. -/
def key : Event → Option Nat
  | update id .. | rollback id .. | upgrade id .. => some id
  | set_status _ => none

/-- The key is a new one. -/
def Fresh (s : Script) (e : Event) : Prop := ∀ id ∈ e.key, ∀ v ∈ s.versions, v.id < id

end Event

end taurus.scripts
