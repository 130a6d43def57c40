import Taurus.Engine.Runner.EngineFields
import Taurus.OpsApproval.Actions

namespace taurus.ops_approval

open taurus.lib taurus.lib.Thread taurus.python taurus.engine taurus.ops
open taurus.approval (User)

/-- What the requests have in common: the fields that both serializers validate, and what is
read from `request.data` as it is. Numbers have gone through `int()`, but for the number of the
target hosts, which is read last. Only `submit_script_approval` reads `concurrency`. -/
structure Form where
  host_id : String
  args : List String := []
  working_directory : Option String := none
  timeout_seconds : Int := 300
  environment : Dict String Json := []
  merge_streams : Bool := false
  load_profile : String := "false"
  privileged : Bool := false
  su_user : Option String := none
  su_password : Option String := none
  batch_id : Option String := none
  exec_mode : String := "parallel"
  concurrent : Int := 10
  concurrency : Int := 10
  fail_strategy : String := "continue"
  pilot_count : Int := 2
  pilot_success_rate : Int := 100
  target_hosts_count : Json := .int 1
  need_audit : Bool := false
  auto_notify : Bool := false
  approver_ids : List Int := []
  countersign_ids : List Int := []
  approval_mode : String := ""
  submit_desc : String := ""

/-- `OpsCommandExecuteSerializer` -/
structure CommandRequest extends Form where
  command : String
  use_shell : Option Bool := none

/-- `OpsScriptExecuteSerializer` -/
structure ScriptRequest extends Form where
  script_type : String
  script_content : String

/-- Where a request comes in: the user, the time as the text of a batch id, the key with the
`iv` for the next encryption, and what the database objects to in the row of an approval, such
as a text too long for its column. -/
structure Origin where
  site : Site
  user : User
  stamp : String := ""
  fernet : Fernet
  iv : Nat := 0
  full_clean : Approval → Except Error Unit := fun _ => .ok ()

def FERNET_PREFIX : String := "fernet:"

/-- `encrypt_value` -/
def encrypt_value (fernet : Fernet) (iv : Nat) (plain_text : String) : String :=
  if plain_text = "" then plain_text else FERNET_PREFIX ++ fernet.encrypt iv plain_text

namespace Form

variable (form : Form)

/-- The mode that a request asks for. -/
def mode (default : Option Mode) : Option Mode :=
  let mode := String.ofList (strip form.approval_mode.toList)
  let mode := if !form.countersign_ids.isEmpty ∧ mode = "" then "all" else mode
  if mode = "any" then some .any
  else if mode = "all" then some .all
  else default

/-- Those of the picked users who exist. -/
def candidate_approvers (site : Site) : List Candidate :=
  let candidate_ids_set := form.approver_ids ++ form.countersign_ids
  (site.users.filter (·.id ∈ candidate_ids_set)).map fun u => { user_id := some u.id }

/-- The mode of `_resolve_approval_context`. -/
def resolved_mode : Option Mode :=
  form.mode (if form.approver_ids.isEmpty && form.countersign_ids.isEmpty then none else some .any)

def batch (stamp : String) : String :=
  match form.batch_id with
  | some batch_id => if batch_id = "" then "APPROVAL" ++ stamp else batch_id
  | none => "APPROVAL" ++ stamp

/-- The environment with the marks of a privileged execution. -/
def privileged_environment (origin : Origin) : Dict String Json :=
  if form.privileged then
    let environment := Dict.set form.environment "PRIVILEGED_EXECUTION" (.str "true")
    let environment := match form.su_user with
      | some su_user =>
        if su_user ≠ "" then Dict.set environment "SU_USER" (.str su_user) else environment
      | none => environment
    match form.su_password with
    | some su_password =>
      if su_password ≠ "" then
        Dict.set environment "SU_PASSWORD"
          (.str (encrypt_value origin.fernet origin.iv su_password))
      else environment
    | none => environment
  else form.environment

/-- The columns that both kinds of execution fill in the same way. -/
def parameters (origin : Origin) : Parameters where
  args := form.args
  working_directory := form.working_directory
  timeout_seconds := form.timeout_seconds
  environment := form.privileged_environment origin
  merge_streams := form.merge_streams
  load_profile := form.load_profile
  privileged := form.privileged
  su_user := form.su_user
  exec_mode := form.exec_mode
  concurrent := form.concurrent
  fail_strategy := form.fail_strategy
  pilot_count := form.pilot_count
  pilot_success_rate := form.pilot_success_rate

/-- The execution of a request, which waits for its approval when the request needs one. -/
def execution (origin : Origin) (host : Host) (execution_type : String) (params : Parameters) :
    Execution where
  params
  execution_type
  batch_id := form.batch_id
  host_id := host.pk
  user_id := origin.user.id
  need_audit := form.need_audit
  auto_notify := form.auto_notify
  approval_mode := form.resolved_mode
  approver_ids := form.approver_ids
  countersign_ids := form.countersign_ids
  submit_desc := if form.submit_desc = "" then none else some form.submit_desc
  status := if form.need_audit then .APPROVING else .PENDING

/-- `working_directory or None` -/
def directory_or_none : Option String := form.working_directory.filter (· ≠ "")

/-- `int(request.data.get('target_hosts_count', 1))` -/
def hosts_count : Except Error Int :=
  match runner.int_of? form.target_hosts_count, form.target_hosts_count with
  | some n, _ => .ok n
  | none, .str s => .error (.ValueError s!"invalid literal for int() with base 10: '{s}'")
  | none, _ =>
    .error (.TypeError "int() argument must be a string, a bytes-like object or a real number")

/-- The approval of a request, which keeps a copy of what its execution is. -/
def approval (origin : Origin) (host : Host) (execution_type : String)
    (params : Parameters) (k : Nat) (target_hosts_count : Int) : Approval where
  params := { params with working_directory := form.directory_or_none }
  execution_type
  batch_id := some (form.batch origin.stamp)
  host_id := host.pk
  submitter_id := some origin.user.id
  submit_desc := form.submit_desc
  approval_mode := form.resolved_mode.getD .any
  candidate_approvers := form.candidate_approvers origin.site
  auto_notify := form.auto_notify
  target_hosts_count
  ops_execution := some k

/-- The approval that is stored, or what stops it from being stored. -/
def checked_approval (origin : Origin) (host : Host) (execution_type : String)
    (params : Parameters) (k : Nat) :
    Except Error Approval := do
  let target_hosts_count ← form.hosts_count
  let row := form.approval origin host execution_type params k target_hosts_count
  origin.full_clean row
  pure row

/-- The common part of `execute_command` and `execute_script` once the host is found. The execution
is stored before the number of hosts is read. -/
def submit (origin : Origin) (host : Host) (execution_type : String) (params : Parameters) :
    Session String := do
  let k ← create_execution (form.execution origin host execution_type params)
  if form.need_audit then
    let row ← fromExcept (form.checked_approval origin host execution_type params k)
    let _ ← create_approval row
    pure "Submitted for approval, awaiting review"
  else pure "success"

end Form

def CommandRequest.params (request : CommandRequest) (origin : Origin) : Parameters :=
  { request.parameters origin with command := some request.command, use_shell := request.use_shell.getD true }

def ScriptRequest.params (request : ScriptRequest) (origin : Origin) : Parameters :=
  { request.parameters origin with
    script_type := some request.script_type, script_content := some request.script_content, use_shell := true }

def execute_command (origin : Origin) (request : CommandRequest) : Session String := do
  let running ← count_live
  fromExcept (check_quota origin.site running)
  match origin.site._get_host_by_id request.host_id with
  | none => error_response "Host does not exist or not approved"
  | some host =>
    if host.online_status ≠ 1 then error_response "Host is offline, cannot execute command"
    else request.submit origin host "command" (request.params origin)

def execute_script (origin : Origin) (request : ScriptRequest) : Session String := do
  let running ← count_live
  fromExcept (check_quota origin.site running)
  match origin.site._get_host_by_id request.host_id with
  | none => error_response "Host does not exist or not approved"
  | some host =>
    if host.online_status ≠ 1 then error_response "Host is offline, cannot execute script"
    else if request.script_type ≠ "sh" ∧ request.script_type ≠ "python" then
      error_response s!"Unsupported script type: {request.script_type}"
    else request.submit origin host "script" (request.params origin)

/-- The approval of a script without an execution of its own yet. -/
def ScriptRequest.script_approval (request : ScriptRequest) (origin : Origin) (host : Host)
    (target_hosts_count : Int) :
    Approval where
  params :=
    { script_type := some request.script_type
      script_content := some request.script_content
      args := request.args
      working_directory := request.directory_or_none
      timeout_seconds := request.timeout_seconds
      environment := request.environment
      merge_streams := request.merge_streams
      load_profile := request.load_profile
      privileged := request.privileged
      su_user := request.su_user
      exec_mode := request.exec_mode
      concurrent := request.concurrency }
  batch_id := some (request.batch origin.stamp)
  host_id := host.pk
  submitter_id := some origin.user.id
  submit_desc := request.submit_desc
  approval_mode := (request.mode (some .any)).getD .any
  candidate_approvers := request.candidate_approvers origin.site
  target_hosts_count

/-- The approval that is stored, or what stops it from being stored. -/
def ScriptRequest.checked_script_approval (request : ScriptRequest) (origin : Origin)
    (host : Host) :
    Except Error Approval := do
  let target_hosts_count ← request.hosts_count
  let row := request.script_approval origin host target_hosts_count
  origin.full_clean row
  pure row

def submit_script_approval (origin : Origin) (request : ScriptRequest) : Session String := do
  match origin.site._get_host_by_id request.host_id with
  | none => error_response "Host does not exist or not approved"
  | some host =>
    let row ← fromExcept (request.checked_script_approval origin host)
    let _ ← create_approval row
    pure "Submitted for approval, awaiting review"

end taurus.ops_approval
