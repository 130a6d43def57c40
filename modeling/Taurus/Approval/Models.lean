import Taurus.Engine.Schemas

namespace taurus.approval

open taurus.lib taurus.python taurus.engine

/-- A user account, as far as approvals read it. -/
structure User where
  id : Int
  username : String
  name : String
  is_superuser : Bool := false
  deriving DecidableEq

/-- An entry of `candidate_approvers`. -/
structure Candidate where
  user_id : Int
  username : String
  name : String
  deriving DecidableEq

/-- A category of the workflow or script library. -/
structure Category where
  id : Int
  name : String
  parent : Option Int := none
  reviewers : List Int := []
  deriving DecidableEq

/-- What the engines look up about users while they handle one call. `roles` are the codes of
a user's roles, `none` when the user model has no relation of that name. -/
structure Directory where
  users : List User
  ids_nodup : (users.map (·.id)).Nodup
  categories : List Category := []
  roles : Option (Int → List String) := none
  manager : Int → Option User := fun _ => none

inductive ApproverType where
  | category_reviewer
  | specific_users
  | role
  | submitter_manager
  deriving DecidableEq

/-- `approver_config` of a node, each key with the default it is read with. -/
structure ApproverConfig where
  user_ids : List Int := []
  role_codes : List String := []
  levels : Int := 1
  deriving DecidableEq

inductive ApprovalMode where
  | any
  | all
  | first
  deriving DecidableEq

/-- A review step of a rule. -/
structure RuleNode where
  node_name : String
  approver_type : ApproverType
  approver_config : ApproverConfig := {}
  approval_mode : ApprovalMode := .any
  step_order : Int := 1
  deriving DecidableEq

structure Rule where
  name : String
  nodes : List RuleNode
  deriving DecidableEq

/-- What a user did on a node, with the data that only this action has. -/
inductive Action where
  | approve
  | reject
  | delegate (to_user_id : Int) (to_username : String)
  | add_sign (user_ids : List Int)
  deriving DecidableEq

/-- `action in ('approve', 'reject')` -/
def Action.decides : Action → Bool
  | .approve | .reject => true
  | .delegate _ _ | .add_sign _ => false

/-- One record of a node. The script engine names the user `from_user` or `operator` in the
records of delegations and added signers. -/
structure ActionRecord where
  user_id : Int
  username : String
  action : Action
  reason : String
  operate_time : Time
  deriving DecidableEq

inductive NodeStatus where
  | pending
  | approved
  | rejected
  | skipped
  deriving DecidableEq

/-- A node of an approval instance. -/
structure NodeExecution where
  id : Nat := 0
  node_name : String
  approver_type : ApproverType
  approver_config : ApproverConfig
  approval_mode : ApprovalMode
  step_order : Int
  candidate_approvers : List Candidate
  approval_records : List ActionRecord := []
  delegate_records : List ActionRecord := []
  add_sign_records : List ActionRecord := []
  status : NodeStatus := .pending
  finish_time : Option Time := none
  deriving DecidableEq

inductive InstanceStatus where
  | pending
  | approved
  | rejected
  | cancelled
  deriving DecidableEq

/-- A row of `ScriptApprovalInstance` or `WorkflowApprovalInstance`. `version` is its
`script_version` or `workflow_version`. -/
structure Instance where
  version : String
  rule_name : String
  status : InstanceStatus := .pending
  current_node_index : Nat := 0
  submitter_id : Option Int
  submitter_name : String
  submit_desc : String
  risk_level : String
  risk_points : List String
  finish_time : Option Time := none
  deriving DecidableEq

/-- The status of a workflow or script. -/
inductive SubjectStatus where
  | enabled
  | disabled
  | pending_approval
  | archived
  deriving DecidableEq

/-- The stored number of a status. -/
def SubjectStatus.toInt : SubjectStatus → Int
  | enabled => 0
  | disabled => 1
  | pending_approval => 2
  | archived => 3

/-- A node of `graph_definition`; the last two are `params`. -/
structure GraphNode where
  node_type : String
  approver_user_id : Json := .null
  mode : Option String := none

/-- The workflow or script under review. `version` is `script.current_version`, or
`str(workflow.dag_published_version_id or '')`. Scripts have no custom approvers and no graph. -/
structure Subject where
  status : SubjectStatus
  version : String
  need_audit : Bool := false
  auth_type : String := "private"
  category_id : Option Int := none
  custom_approver_ids : List Json := []
  graph_nodes : List GraphNode := []

/-- An instance with its nodes, in the order of their creation. -/
structure Approval where
  row : Instance
  nodes : List NodeExecution

/-- A workflow or script with its approval instances, numbered from 0. -/
structure World where
  subject : Subject
  approvals : List Approval := []

/-- What stops a call. -/
inductive Error where
  | DoesNotExist
  | ValueError (message : String)
  | IndexError
  | FieldError
  deriving DecidableEq

end taurus.approval
