import Mathlib.Data.Finset.Dedup
import Mathlib.Data.Finset.Insert
import Taurus.Approval.Start
import Taurus.Engine.Risk

namespace taurus.approval

open taurus.lib taurus.python taurus.engine

/-- A step of a workflow with the template it runs. -/
structure WorkflowStep where
  step : views.Step
  template_id : Int
  template_name : String

/-- What a workflow is besides the settings of its reviews, its steps in the order of
`step_order`. -/
structure Definition where
  id : Int
  name : String
  description : String := ""
  workflow_mode : String := "linear"
  graph_definition : Json := .obj []
  hosts : Nat := 0
  global_envs : Json := .obj []
  steps : List WorkflowStep := []

/-- A condition group of a rule, each key with the default it is read with. -/
structure ConditionGroup where
  category_ids : List Int := []
  workflow_modes : List String := []
  risk_levels : List String := []
  min_risk_points : Int := 0
  auth_types : List String := []
  submitter_roles : List String := []
  workflow_ids : List Int := []
  script_ids : List Int := []
  tags : List String := []

/-- A rule with what decides whether it applies. -/
structure ApprovalRule where
  id : Int
  rule : Rule
  condition_groups : List ConditionGroup := []
  priority : Int := 100
  is_active : Bool := true

/-- A row of `.values('id', 'parent_id')` of a table of categories. -/
structure CategoryRow where
  id : Int
  parent_id : Option Int

/-- A row of `ScriptCategory`. -/
structure ScriptCategory where
  id : Int
  parent : Option Int := none

/-- One turn of the `for` loop on the set and the flag `changed`. -/
def visit_category (state : Finset Int × Bool) (cat : CategoryRow) : Finset Int × Bool :=
  if cat.parent_id.any (· ∈ state.1) ∧ cat.id ∉ state.1 then
    (insert cat.id state.1, true)
  else state

/-- `while changed`; none when it takes more than `turns`. -/
def while_changed (categories : List CategoryRow) : Nat → Finset Int → Option (Finset Int)
  | 0, _ => none
  | turns + 1, result =>
    let (result, changed) := categories.foldl visit_category (result, false)
    if changed then while_changed categories turns result else some result

namespace WorkflowApprovalRuleMatcher

def category_rows (categories : List Category) : List CategoryRow :=
  categories.map fun c => ⟨c.id, c.parent⟩

def _get_all_child_category_ids (categories : List Category) (turns : Nat) (parent_ids : List Int) :
    Option (Finset Int) :=
  while_changed (category_rows categories) turns parent_ids.toFinset

end WorkflowApprovalRuleMatcher

namespace ScriptApprovalRuleMatcher

def category_rows (categories : List ScriptCategory) : List CategoryRow :=
  categories.map fun c => ⟨c.id, c.parent⟩

def _get_all_child_category_ids (categories : List ScriptCategory) (turns : Nat)
    (parent_ids : List Int) :
    Option (Finset Int) :=
  while_changed (category_rows categories) turns parent_ids.toFinset

end ScriptApprovalRuleMatcher

/-- What the risk assessment reads of a workflow. -/
def assessed (dir : Directory) (workflow : Subject) (definition : Definition) : views.Workflow where
  graph_definition := definition.graph_definition
  hosts := definition.hosts
  global_envs := definition.global_envs
  steps := definition.steps.map (·.step)
  auth_type := workflow.auth_type
  need_audit := workflow.need_audit
  category := workflow.category_id
  categories :=
    dir.categories.map fun c => { id := c.id, parent := c.parent, reviewers := c.reviewers ≠ [] }

def risk_level_text : views.RiskLevel → String
  | .low => "low"
  | .medium => "medium"
  | .high => "high"

section

variable (py : Reprs) (lower : String → String) (dir : Directory) (workflow : Subject)
  (definition : Definition) (submitter : User)

def _evaluate_workflow_risk : Except Exn (views.RiskLevel × List String) :=
  views._evaluate_workflow_risk py lower (assessed dir workflow definition)

/-- The texts among which a tag is looked for. -/
def tag_sources : List String :=
  [lower definition.name] ++
    (if definition.description ≠ "" then [lower definition.description] else []) ++
    definition.steps.flatMap fun s =>
      (s.step.step_name.toList.filter (· ≠ "")).map lower ++
        (if s.template_name ≠ "" then [lower s.template_name] else [])

/-- The conditions after the two that assess the risk. -/
def check_settings (group : ConditionGroup) : Bool :=
  let tag_list := (group.tags.map fun t => strip t.toList).filter (· ≠ [])
  (group.auth_types = [] ∨ workflow.auth_type ∈ group.auth_types) &&
  (group.submitter_roles = [] ∨
    dir.roles.any fun roles => (roles submitter.id).any (· ∈ group.submitter_roles)) &&
  (group.workflow_ids = [] ∨ definition.id ∈ group.workflow_ids) &&
  (group.script_ids = [] ∨ definition.steps.any fun s => s.template_id ∈ group.script_ids) &&
  (tag_list = [] ∨ tag_list.any fun t => (tag_sources lower definition).any
    fun source => views.isIn (lower (String.ofList t)) source)

def _check_condition_group (group : ConditionGroup) : Except Exn Bool := do
  let expanded_ids :=
    WorkflowApprovalRuleMatcher._get_all_child_category_ids dir.categories
      (dir.categories.length + 1) group.category_ids
  if group.category_ids ≠ [] ∧ ¬workflow.category_id.any fun id => expanded_ids.any (id ∈ ·) then
    return false
  if group.workflow_modes ≠ [] ∧ definition.workflow_mode ∉ group.workflow_modes then
    return false
  if group.risk_levels ≠ [] then
    let (risk_level, _) ← _evaluate_workflow_risk py lower dir workflow definition
    if risk_level_text risk_level ∉ group.risk_levels then
      return false
  if group.min_risk_points ≠ 0 then
    let (_, risk_points) ← _evaluate_workflow_risk py lower dir workflow definition
    if (risk_points.length : Int) < group.min_risk_points then
      return false
  return check_settings lower dir workflow definition submitter group

def _check_rule (rule : ApprovalRule) : Except Exn Bool :=
  if rule.condition_groups = [] then .ok true
  else rule.condition_groups.anyM
    (_check_condition_group py lower dir workflow definition submitter)

/-- `WorkflowApprovalRuleMatcher.match`: the first active rule that applies, in the
order of priority. -/
def match_rule (rules : List ApprovalRule) : Except Exn (Option ApprovalRule) :=
  ((rules.filter (·.is_active)).insertionSort fun a b => a.priority ≤ b.priority).findM?
    (_check_rule py lower dir workflow definition submitter)

/-- The status of the workflow does not matter. -/
theorem match_rule_status (status : SubjectStatus) (rules : List ApprovalRule) :
    match_rule py lower dir { workflow with status } definition submitter rules =
      match_rule py lower dir workflow definition submitter rules := rfl

end

end taurus.approval
