import Taurus.Approval.Engine
import Taurus.OpsApproval.Session
import Taurus.Python.Text

namespace taurus.ops_approval

open taurus.lib taurus.lib.Thread taurus.python taurus.engine taurus.ops
open taurus.approval (User ActionRecord User.record)

def check_quota (site : Site) (running : Nat) : Except Error Unit :=
  match site.max_concurrent_executions with
  | none => .ok ()
  | some limit =>
    if limit ≤ running then
      .error (.PermissionDenied
        s!"当前服务等级（{site.tier}）并发执行任务 配额已满（上限 {limit}），请删除部分后再操作，或升级服务等级。")
    else .ok ()

namespace Approval

/-- The user ids among the candidates. -/
def cids (row : Approval) : List Int := row.candidate_approvers.filterMap (·.user_id)

/-- `[c['user_id'] for c in candidates]` -/
def candidate_ids (row : Approval) : Except Error (List Int) :=
  row.candidate_approvers.mapM fun c =>
    match c.user_id with
    | some id => .ok id
    | none => .error .KeyError

def add_record (row : Approval) (record : ActionRecord) : Approval :=
  { row with approval_records := row.approval_records ++ [record] }

/-- The last decision on the approval. -/
def decide (row : Approval) (status : ApprovalStatus) (approver : User) (reason : String)
    (now : Time) : Approval :=
  { row with status, approver_id := some approver.id, approve_reason := some reason, approve_time := some now,
             finish_time := some now }

end Approval

/-- The candidate stands for a role of the user. -/
def role_hit (roles : List Role) (c : Candidate) : Bool :=
  roles.any fun role => (c.role_key = some role.key && role.key ≠ "") ||
    (c.role_id = some role.id && role.id ≠ 0)

def _is_user_candidate_approver (site : Site) (row : Approval) (user : User) : Bool :=
  row.cids.contains user.id || row.candidate_approvers.any (role_hit (site.role user.id)) ||
    (row.cids.isEmpty && row.approver_id = some user.id)

def _is_approved_by_mode (row : Approval) : Except Error Bool := do
  let approves := row.approval_records.filter fun r => r.action = .approve ∧ r.user_id ≠ 0
  let approved_set := approves.map (·.user_id)
  let candidate_ids ← row.candidate_ids
  if candidate_ids.isEmpty then return 1 ≤ approved_set.length
  match row.approval_mode with
  | .all => return candidate_ids.all (approved_set.contains ·)
  | .any => return approved_set.any (candidate_ids.contains ·)

/-- The row when the user may see it. -/
def get_object (site : Site) (i : Nat) (user : User) : Session Approval := do
  match ← get_approval i with
  | none => raise .Http404
  | some row =>
    if row.submitter_id = some user.id || row.approver_id =
      some user.id || _is_user_candidate_approver site row user then
      pure row
    else raise .Http404

/-- The row when the user may see it and decide it; `action` is what the refusals say. -/
def get_pending (site : Site) (i : Nat) (user : User) (action : String) : Session Approval := do
  let row ← get_object site i user
  if row.status ≠ .pending then
    error_response s!"Current status ({row.status.display})) does not allow {action}"
  else pure row

/-- The type of the execution; whatever is not a command is a script. -/
def execution_type_of (row : Approval) : String :=
  let execution_type :=
    String.ofList (strip (if row.execution_type = "" then "script" else row.execution_type).toList)
  if execution_type = "command" ∨ execution_type = "script" then execution_type else "script"

def privileged_environment (row : Approval) : Dict String Json :=
  if row.params.privileged then
    let environment := Dict.set row.params.environment "PRIVILEGED_EXECUTION" (.str "true")
    match row.params.su_user with
    | some su_user =>
      if su_user ≠ "" then Dict.set environment "SU_USER" (.str su_user) else environment
    | none => environment
  else row.params.environment

/-- `n or other` -/
def intOr (n other : Int) : Int := if n ≠ 0 then n else other

/-- `s or other` -/
def textOr (s other : String) : String := if s ≠ "" then s else other

/-- The execution that an approval stands for. -/
def approved_execution (row : Approval) (host : Host) (user : User) : Execution where
  params :=
    { row.params with
      command := if execution_type_of row = "command" then row.params.command else none
      script_type := if execution_type_of row = "command" then none else row.params.script_type
      script_content := if execution_type_of row = "command" then none else row.params.script_content
      environment := privileged_environment row
      exec_mode := textOr row.params.exec_mode "parallel"
      concurrent := intOr row.params.concurrent 10
      fail_strategy := textOr row.params.fail_strategy "continue"
      pilot_count := intOr row.params.pilot_count 2
      pilot_success_rate := intOr row.params.pilot_success_rate 100 }
  execution_type := execution_type_of row
  batch_id := row.batch_id
  host_id := host.pk
  user_id := user.id
  need_audit := true
  auto_notify := row.auto_notify
  approval_mode := some row.approval_mode
  approver_ids := if row.approval_mode = .any then row.cids.filter (0 ≤ ·) else []
  countersign_ids := if row.approval_mode = .all then row.cids.filter (0 ≤ ·) else []
  submit_desc := if row.submit_desc = "" then none else some row.submit_desc
  status := .PENDING

/-- The host was loaded together with the row. -/
def _trigger_approval_execution (site : Site) (i : Nat) (row : Approval) (user : User) :
    Session Approval := do
  let running ← count_live
  fromExcept (check_quota site running)
  match site.host row.host_id with
  | none => raise (.ValueError "Approval not associated with target host")
  | some host =>
    if host.online_status ≠ 1 then raise (.ValueError s!"Host is offline: {host.host_ip}")
    else
      let k ← create_execution (approved_execution row host user)
      let row := { row with ops_execution := some k, status := .executing }
      save_approval i row [.ops_execution, .status]
      pure row

def decision_fields : List Field :=
  [.approval_records, .status, .approver, .approve_reason, .approve_time, .finish_time]

def approve_msg (row : Approval) : String :=
  if row.status = .approved then
    "Approval approved"
  else "Approval recorded (countersign requires all approvers)"

def approve (site : Site) (i : Nat) (user : User) (reason : String) (now : Time) :
    Session String := do
  let row ← get_pending site i user "approval"
  if !_is_user_candidate_approver site row user then
    error_response "You are not in the approver candidates list, cannot operate"
  else if row.approval_records.any fun r => r.user_id = user.id ∧ r.action.decides then
    error_response "You have already processed this approval"
  else
    let row := row.add_record (user.record .approve reason now)
    if ← fromExcept (_is_approved_by_mode row) then
      let row := row.decide .approved user reason now
      match ← attempt (_trigger_approval_execution site i row user) with
      | .error e =>
        save_approval i { row with status := .failed } decision_fields
        error_response s!"Approval passed but trigger execution failed: {e.str}"
      | .ok row =>
        save_approval i row decision_fields
        pure (approve_msg row)
    else
      save_approval i row [.approval_records]
      pure (approve_msg row)

def reject (site : Site) (i : Nat) (user : User) (reason : String) (now : Time) :
    Session String := do
  let row ← get_pending site i user "rejection"
  if !_is_user_candidate_approver site row user then
    error_response "You are not in the approver candidates list, cannot operate"
  else if reason = "" then error_response "Rejection reason cannot be empty"
  else
    let row := (row.add_record (user.record .reject reason now)).decide .rejected user reason now
    save_approval i row decision_fields
    match row.ops_execution with
    | some k =>
      set_execution_status k .REJECTED
      pure "Rejected"
    | none => pure "Rejected"

/-- Those of the users who are not candidates yet are appended. -/
def add_candidates (row : Approval) (users : List User) : Approval :=
  let new := users.filter fun u => u.id ∉ row.cids
  { row with candidate_approvers := row.candidate_approvers ++ new.map fun u => { user_id := some u.id } }

def delegate (site : Site) (i : Nat) (user : User) (to_user_id : Int) (reason : String)
    (now : Time) : Session String := do
  let row ← get_pending site i user "delegation"
  if !_is_user_candidate_approver site row user then
    error_response "You are not in the approver candidates list, cannot delegate"
  else if to_user_id = 0 then error_response "Please specify delegate user"
  else
    match site.users.find? (·.id = to_user_id) with
    | none => error_response "Target user does not exist"
    | some to_user =>
      let _ ← fromExcept row.candidate_ids
      let row := (add_candidates row [to_user]).add_record
        (user.record (.delegate to_user.id to_user.username) reason now)
      save_approval i row [.candidate_approvers, .approval_records]
      pure "Delegate succeeded"

def add_sign (site : Site) (i : Nat) (user : User) (user_ids : List Int) (reason : String)
    (now : Time) : Session String := do
  let row ← get_pending site i user "adding signers"
  if !_is_user_candidate_approver site row user then
    error_response "You are not in the approver candidates list, cannot add signer"
  else if user_ids.isEmpty then error_response "Please specify user to add as signer"
  else
    let users := site.users.filter (·.id ∈ user_ids)
    let _ ← fromExcept row.candidate_ids
    let row :=
      (add_candidates row users).add_record (user.record (.add_sign (users.map (·.id))) reason now)
    save_approval i row [.candidate_approvers, .approval_records]
    pure "Added reviewer successfully"

def cancel (site : Site) (i : Nat) (user : User) (now : Time) : Session String := do
  let row ← get_pending site i user "withdrawal"
  if row.submitter_id ≠ some user.id ∧ !user.is_superuser then
    error_response "Only submitter can withdraw"
  else
    save_approval i { row with status := .cancelled, finish_time := some now }
      [.status, .finish_time]
    pure "Withdrawn"

end taurus.ops_approval
