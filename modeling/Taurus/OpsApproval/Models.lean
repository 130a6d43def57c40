import Taurus.Approval.Models
import Taurus.Ops.Models

namespace taurus.ops_approval

open taurus.lib taurus.python taurus.engine taurus.ops
open taurus.approval (User ActionRecord)

/-- A role that users have. -/
structure Role where
  id : Int
  key : String
  deriving DecidableEq

/-- An entry of `candidate_approvers`, a user or a role; a missing key is none. -/
structure Candidate where
  user_id : Option Int := none
  role_key : Option String := none
  role_id : Option Int := none
  deriving DecidableEq

inductive Mode where
  | any
  | all
  deriving DecidableEq

/-- What is to be run, and how. `OpsExecution` and `OpsExecutionApproval` have the same columns
for it, but `concurrent` is the approval's `concurrency`. -/
structure Parameters where
  command : Option String := none
  script_type : Option String := none
  script_content : Option String := none
  args : List String := []
  working_directory : Option String := none
  timeout_seconds : Int := 300
  environment : Dict String Json := []
  use_shell : Bool := true
  merge_streams : Bool := false
  load_profile : String := "false"
  privileged : Bool := false
  su_user : Option String := none
  exec_mode : String := "parallel"
  concurrent : Int := 10
  fail_strategy : String := "continue"
  pilot_count : Int := 2
  pilot_success_rate : Int := 100

/-- A row of `OpsExecution`. -/
structure Execution where
  params : Parameters
  execution_type : String
  batch_id : Option String := none
  host_id : Nat
  user_id : Int
  need_audit : Bool := false
  auto_notify : Bool := false
  approval_mode : Option Mode := none
  approver_ids : List Int := []
  countersign_ids : List Int := []
  submit_desc : Option String := none
  status : OpsStatus

inductive ApprovalStatus where
  | pending
  | approved
  | rejected
  | cancelled
  | executing
  | done
  | failed
  deriving DecidableEq

def ApprovalStatus.display : ApprovalStatus → String
  | pending => "Pending approval"
  | approved => "Approved"
  | rejected => "Rejected"
  | cancelled => "Cancelled"
  | executing => "Running"
  | done => "Completed"
  | failed => "Execution failed"

/-- A row of `OpsExecutionApproval`. `ops_execution` is the number of an execution. -/
structure Approval where
  params : Parameters
  execution_type : String := "script"
  batch_id : Option String := none
  host_id : Nat
  status : ApprovalStatus := .pending
  submitter_id : Option Int
  submit_desc : String := ""
  approver_id : Option Int := none
  approve_reason : Option String := none
  approve_time : Option Time := none
  approval_mode : Mode := .any
  candidate_approvers : List Candidate := []
  approval_records : List ActionRecord := []
  finish_time : Option Time := none
  auto_notify : Bool := false
  target_hosts_count : Int := 1
  ops_execution : Option Nat := none

/-- The users of an installation. Their keys are counted from 1. -/
structure Accounts where
  users : List User
  id_pos : ∀ u ∈ users, 0 < u.id

/-- What a request finds besides the two tables: the users with their roles, the approved hosts
by what names them and by key, and the quota of the service tier. -/
structure Site where
  users : List User
  role : Int → List Role := fun _ => []
  _get_host_by_id : String → Option Host
  host : Nat → Option Host
  tier : String := "community"
  max_concurrent_executions : Option Nat := none

/-- What a request is answered instead of a success. -/
inductive Error where
  | Http404
  | ErrorResponse (msg : String)
  | PermissionDenied (msg : String)
  | ValueError (msg : String)
  | TypeError (msg : String)
  | DatabaseError (msg : String)
  | KeyError
  deriving DecidableEq

/-- `str(e)` of an exception. -/
def Error.str : Error → String
  | Http404 => "Not found."
  | ErrorResponse msg | PermissionDenied msg | ValueError msg | TypeError msg | DatabaseError msg =>
    msg
  | KeyError => "'user_id'"

/-- Symmetric encryption of texts. Two encryptions of a text differ in their `iv`. -/
structure Fernet where
  encrypt : Nat → String → String
  decrypt : String → Option String
  decrypt_encrypt : ∀ iv plain, decrypt (encrypt iv plain) = some plain

end taurus.ops_approval
