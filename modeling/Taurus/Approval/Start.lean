import Taurus.Approval.Engine
import Taurus.Engine.Runner.EngineFields

namespace taurus.approval

open taurus.lib taurus.lib.Thread taurus.python taurus.engine taurus.engine.runner

/-- The approvers that a publisher picks instead of those of the rule. -/
structure Override where
  approver_ids : List Json := []
  countersign_ids : List Json := []
  approval_mode : Option String := none

/-- The arguments of `start_approval` and what the rule matcher and the risk check answer. -/
structure Submission where
  rule : Option Rule
  submitter : User
  submit_desc : String := ""
  risk_level : String := "low"
  risk_points : List String := []
  override_approvers : Option Override := none

namespace Directory

def _get_default_admin_approvers (dir : Directory) : List Candidate :=
  (dir.users.filter (·.is_superuser)).map User.candidate

def manager_after (dir : Directory) : Nat → User → Option User
  | 0, current => some current
  | n + 1, current => (dir.manager current.id).bind (dir.manager_after n)

def _get_manager_by_levels (dir : Directory) (user : User) (levels : Int) : Option User :=
  (dir.manager_after levels.toNat user).filter (·.id ≠ user.id)

/-- The accounts of the given ids, each once. -/
def accounts (dir : Directory) (ids : List Int) : List User := dir.users.filter (·.id ∈ ids)

def category? (dir : Directory) (id : Option Int) : Option Category :=
  id.bind fun id => dir.categories.find? (·.id = id)

/-- The ancestors of a category; every category is visited once at most. -/
def ancestors (dir : Directory) : Nat → List Int → Option Category → List Category
  | 0, _, _ | _, _, none => []
  | n + 1, visited, some cur =>
    if cur.id ∈ visited then
      []
    else cur :: dir.ancestors n (cur.id :: visited) (dir.category? cur.parent)

def _is_public_category (dir : Directory) (category_id : Option Int) : Bool :=
  (dir.ancestors (dir.categories.length + 1) [] (dir.category? category_id)).any (·.name =
    "Public workflow")

/-- `_build_user_candidates`: what is no number is skipped, and an id that stands twice makes
two candidates. -/
def _build_user_candidates (dir : Directory) (uid_list : List Json) : List Candidate :=
  (uid_list.filterMap int_of?).filterMap fun uid =>
    (dir.users.find? (·.id = uid)).map User.candidate

def _get_candidate_approvers (dir : Directory) (node : RuleNode) (subject : Subject)
    (submitter : User) :
    Except Error (List Candidate) :=
  match node.approver_type with
  | .category_reviewer =>
    match dir.category? subject.category_id with
    | some category => .ok ((dir.accounts category.reviewers).map User.candidate)
    | none => .ok []
  | .specific_users => .ok ((dir.accounts node.approver_config.user_ids).map User.candidate)
  | .role =>
    match dir.roles with
    | some roles =>
      let users := dir.users.filter fun u => (roles u.id).any (· ∈ node.approver_config.role_codes)
      .ok (users.map User.candidate)
    | none => .error .FieldError
  | .submitter_manager =>
    match dir._get_manager_by_levels submitter node.approver_config.levels with
    | some manager => .ok [manager.candidate]
    | none => .ok []

end Directory

def specific_users (node_name : String) (approval_mode : ApprovalMode) (step_order : Int)
    (candidates : List Candidate) (config : ApproverConfig) : NodeExecution where
  node_name
  approver_type := .specific_users
  approver_config := config
  approval_mode
  step_order
  candidate_approvers := candidates

def admin_node (dir : Directory) : NodeExecution :=
  specific_users "Admin approval" .any 1 dir._get_default_admin_approvers {}

def new_instance (subject : Subject) (sub : Submission) (rule_name : String) : Instance where
  version := subject.version
  rule_name
  submitter_id := some sub.submitter.id
  submitter_name := sub.submitter.username
  submit_desc := sub.submit_desc
  risk_level := sub.risk_level
  risk_points := sub.risk_points

/-- `rule.nodes.order_by('step_order')` -/
def Rule.ordered_nodes (rule : Rule) : List RuleNode :=
  rule.nodes.insertionSort fun a b => a.step_order ≤ b.step_order

def RuleNode.execution (node : RuleNode) (candidates : List Candidate) : NodeExecution where
  node_name := node.node_name
  approver_type := node.approver_type
  approver_config := node.approver_config
  approval_mode := node.approval_mode
  step_order := node.step_order
  candidate_approvers := candidates

/-- The nodes of the rule are copied one by one. -/
def create_nodes (dir : Directory) (rule : Rule) (subject : Subject) (submitter : User) (i : Nat) :
    Session (List Unit) :=
  forEach (fun node => do
    let candidates ← fromExcept (dir._get_candidate_approvers node subject submitter)
    create_node i (node.execution candidates)) rule.ordered_nodes

/-- `_extract_graph_approvers` -/
def _extract_graph_approvers (subject : Subject) : List Json × ApprovalMode :=
  let nodes := subject.graph_nodes.filter (·.node_type = "approval")
  let approver_ids := (nodes.filterMap fun node => int_of? node.approver_user_id).map Json.int
  let approval_mode := nodes.foldl (fun mode node =>
    match node.mode with
    | some "any" => .any
    | some "all" => .all
    | some "first" => .first
    | _ => mode) .any
  (approver_ids, approval_mode)

/-- The approvers who stand in when none are picked, and the mode that goes with
those of the graph. -/
def fallback_approvers (dir : Directory) (subject : Subject) (effective_mode : ApprovalMode) :
    List Candidate × ApprovalMode :=
  let custom := dir._build_user_candidates subject.custom_approver_ids
  if custom ≠ [] then (custom, effective_mode)
  else
    let (gids, gmode) := _extract_graph_approvers subject
    let cands := dir._build_user_candidates gids
    if cands ≠ [] then (cands, if gmode = .all then .all else .any) else ([], effective_mode)

/-- What `_create_custom_node` works out before it creates a node: the candidates of the two
nodes and `effective_mode`. -/
def custom_approvers (dir : Directory) (subject : Subject) (override : Option Override) :
    List Candidate × List Candidate × ApprovalMode :=
  let given := override.getD {}
  let raw_mode := given.approval_mode.getD "any"
  let effective_mode := if given.countersign_ids ≠ [] then .all
    else if raw_mode = "any" ∨ raw_mode = "" then .any else .all
  let any_cand := dir._build_user_candidates given.approver_ids
  let all_cand := dir._build_user_candidates given.countersign_ids
  if any_cand = [] ∧ all_cand = [] then
    let (fallback, mode) := fallback_approvers dir subject effective_mode
    (fallback, all_cand, mode)
  else (any_cand, all_cand, effective_mode)

/-- `_create_custom_node`, with the mode that it then sets on the instance. The instance has no
column for the mode: `save` raises, the exception is dropped, and only the object that
`start_approval` returns carries it. -/
def _create_custom_node (dir : Directory) (subject : Subject)
    (override : Option Override) (i : Nat) :
    Session ApprovalMode := do
  let (any_cand, all_cand, effective_mode) := custom_approvers dir subject override
  if any_cand ≠ [] then
    create_node i (specific_users
      (if override.isSome then "Any one approver" else "Specific approver approval") .any 1 any_cand
      { user_ids := any_cand.map (·.user_id) })
  if all_cand ≠ [] then
    create_node i (specific_users
      (if override.isSome then "All approvers" else "Joint approval") .all
      (if any_cand ≠ [] then 2 else 1) all_cand
      { user_ids := all_cand.map (·.user_id) })
  if any_cand = [] ∧ all_cand = [] then
    create_node i (admin_node dir)
  pure (if all_cand ≠ [] then .all else effective_mode)

/-- What `start_approval` returns: the key of the instance, and the mode that is set
on the object. -/
structure Started where
  instance_id : Nat
  approval_mode : Option ApprovalMode := none
  deriving DecidableEq

namespace ApprovalFlowEngine

def start_approval (dir : Directory) (sub : Submission) : Session (Option Started) := do
  let script ← get_subject
  match sub.rule with
  | none =>
    if script.need_audit then
      let i ← create_instance (new_instance script sub "Default approval (need_audit)")
      create_node i (admin_node dir)
      save_subject { script with status := .pending_approval }
      pure (some { instance_id := i })
    else
      save_subject { script with status := .enabled }
      pure none
  | some rule =>
    let i ← create_instance (new_instance script sub rule.name)
    let _ ← create_nodes dir rule script sub.submitter i
    save_subject { script with status := .pending_approval }
    pure (some { instance_id := i })

def approve := taurus.approval.approve
def reject := taurus.approval.reject
def cancel := taurus.approval.cancel .script
def delegate := taurus.approval.delegate .script
def add_sign := taurus.approval.add_sign .script

end ApprovalFlowEngine

namespace WorkflowApprovalFlowEngine

/-- `need` of a workflow without a matching rule. -/
def needs_approval (dir : Directory) (workflow : Subject) : Bool :=
  workflow.need_audit || workflow.auth_type =
    "public" || dir._is_public_category workflow.category_id

/-- The picked approvers replace the nodes of the rule. -/
def overrides (sub : Submission) : Bool :=
  sub.override_approvers.any fun given => given.approver_ids ≠ [] ∨ given.countersign_ids ≠ []

def start_approval (dir : Directory) (sub : Submission) : Session (Option Started) := do
  let workflow ← get_subject
  match sub.rule with
  | none =>
    if needs_approval dir workflow then
      let i ← create_instance (new_instance workflow sub "Custom approval (need_audit / public flow)")
      let mode ← _create_custom_node dir workflow sub.override_approvers i
      save_subject { workflow with status := .pending_approval }
      pure (some { instance_id := i, approval_mode := some mode })
    else
      save_subject { workflow with status := .enabled }
      pure none
  | some rule =>
    let i ← create_instance (new_instance workflow sub rule.name)
    if overrides sub then
      let mode ← _create_custom_node dir workflow sub.override_approvers i
      save_subject { workflow with status := .pending_approval }
      pure (some { instance_id := i, approval_mode := some mode })
    else
      let _ ← create_nodes dir rule workflow sub.submitter i
      save_subject { workflow with status := .pending_approval }
      pure (some { instance_id := i })

def approve := taurus.approval.approve
def reject := taurus.approval.reject
def cancel := taurus.approval.cancel .workflow
def delegate := taurus.approval.delegate .workflow
def add_sign := taurus.approval.add_sign .workflow

end WorkflowApprovalFlowEngine

/-- A call of an engine. The users may change between two calls, so each call that looks them
up has its own directory. -/
inductive Call where
  | start_approval (dir : Directory) (sub : Submission)
  | approve (i : Nat) (approver : User) (reason : String) (now : Time)
  | reject (i : Nat) (approver : User) (reason : String) (now : Time)
  | cancel (i : Nat) (operator : User) (now : Time)
  | delegate (dir : Directory) (i : Nat) (approver : User) (to_user_id : Int)
    (reason : String) (now : Time)
  | add_sign (dir : Directory) (i : Nat) (approver : User) (user_ids : List Int)
    (reason : String) (now : Time)

def Call.starts : Call → Bool
  | .start_approval _ _ => true
  | .approve _ _ _ _ | .reject _ _ _ _ | .cancel _ _ _ | .delegate _ _ _ _ _ _ | .add_sign _ _ _ _ _ _ => false

def Engine.start_approval : Engine → Directory → Submission → Session (Option Started)
  | .workflow => WorkflowApprovalFlowEngine.start_approval
  | .script => ApprovalFlowEngine.start_approval

/-- The state after a call, whether it returns or raises. -/
def World.next (e : Engine) (w : World) : Call → World
  | .start_approval dir sub => w.after (e.start_approval dir sub)
  | .approve i approver reason now => w.after (approve i approver reason now)
  | .reject i approver reason now => w.after (reject i approver reason now)
  | .cancel i operator now => w.after (cancel e i operator now)
  | .delegate dir i approver to_user_id reason now =>
    w.after (delegate e dir i approver to_user_id reason now)
  | .add_sign dir i approver user_ids reason now =>
    w.after (add_sign e dir i approver user_ids reason now)

end taurus.approval
