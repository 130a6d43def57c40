import Taurus.Approval.Start

namespace taurus.approval

open taurus.lib taurus.python taurus.engine taurus.engine.runner

/-- What `start_approval` is about to create: the name of the instance's rule, and each node or
the error that stops the call there. -/
structure Plan where
  rule_name : String
  nodes : List (Except Error NodeExecution)

def rule_plan (dir : Directory) (rule : Rule) (subject : Subject) (submitter : User) : Plan where
  rule_name := rule.name
  nodes := rule.ordered_nodes.map fun node =>
    (dir._get_candidate_approvers node subject submitter).map node.execution

def custom_nodes (dir : Directory) (subject : Subject) (override : Option Override) :
    List NodeExecution :=
  let (any_cand, all_cand, _) := custom_approvers dir subject override
  (if any_cand ≠ [] then
    [specific_users (if override.isSome then "Any one approver"
      else "Specific approver approval") .any 1 any_cand
      { user_ids := any_cand.map (·.user_id) }] else []) ++
  (if all_cand ≠ [] then
    [specific_users (if override.isSome then "All approvers" else "Joint approval") .all
      (if any_cand ≠ [] then 2 else 1) all_cand { user_ids := all_cand.map (·.user_id) }]
      else []) ++
  (if any_cand = [] ∧ all_cand = [] then [admin_node dir] else [])

/-- The mode that is set on the instance object. -/
def custom_mode (dir : Directory) (subject : Subject) (override : Option Override) : ApprovalMode :=
  let (_, all_cand, effective_mode) := custom_approvers dir subject override
  if all_cand ≠ [] then .all else effective_mode

def custom_plan (dir : Directory) (subject : Subject) (override : Option Override)
    (rule_name : String) : Plan where
  rule_name
  nodes := (custom_nodes dir subject override).map .ok

/-- The plan of a start; none when no approval is needed. -/
def plan (e : Engine) (dir : Directory) (subject : Subject) (sub : Submission) : Option Plan :=
  match e, sub.rule with
  | .script, none =>
    if subject.need_audit then
      some ⟨"Default approval (need_audit)", [.ok (admin_node dir)]⟩
    else none
  | .script, some rule => some (rule_plan dir rule subject sub.submitter)
  | .workflow, none =>
    if WorkflowApprovalFlowEngine.needs_approval dir subject then
      some (custom_plan dir subject sub.override_approvers "Custom approval (need_audit / public flow)")
    else none
  | .workflow, some rule =>
    if WorkflowApprovalFlowEngine.overrides sub then
      some (custom_plan dir subject sub.override_approvers rule.name)
    else some (rule_plan dir rule subject sub.submitter)

/-- The nodes that are created before the first error, with their keys. -/
def created : Nat → List (Except Error NodeExecution) → List NodeExecution
  | k, .ok n :: rest => { n with id := k } :: created (k + 1) rest
  | _, .error _ :: _ | _, [] => []

/-- Nodes are numbered in the order of their creation. -/
theorem id_of_created {k j : Nat} {nodes : List (Except Error NodeExecution)} {n : NodeExecution}
    (h : (created k nodes)[j]? = some n) : n.id = k + j := by
  induction nodes generalizing k j with
  | nil => simp [created] at h
  | cons x rest ih =>
    cases x with
    | error err => simp [created] at h
    | ok m =>
      cases j with
      | zero =>
        obtain rfl := Option.some.inj h
        rfl
      | succ j =>
        have := ih (k := k + 1) (j := j) h
        omega

/-- A created node is one of the plan but for its number. -/
theorem mem_created {k : Nat} {nodes : List (Except Error NodeExecution)} {n : NodeExecution}
    (h : n ∈ created k nodes) : ∃ m, .ok m ∈ nodes ∧ n = { m with id := n.id } := by
  induction nodes generalizing k with
  | nil => simp [created] at h
  | cons x rest ih =>
    cases x with
    | error err => simp [created] at h
    | ok m =>
      obtain rfl | h := List.mem_cons.mp h
      · exact ⟨m, List.mem_cons_self, rfl⟩
      · obtain ⟨m', hm', hn⟩ := ih h
        exact ⟨m', List.mem_cons_of_mem _ hm', hn⟩

/-- The nodes of a plan come in the order of their steps. -/
def Plan.Sorted (p : Plan) : Prop :=
  p.nodes.Pairwise fun x y => ∀ m n, x = .ok m → y = .ok n → m.step_order ≤ n.step_order

/-- Created nodes are in the order of their steps. -/
theorem created_sorted {k : Nat} {p : Plan} (h : p.Sorted) :
    (created k p.nodes).Pairwise fun m n => m.step_order ≤ n.step_order := by
  obtain ⟨name, nodes⟩ := p
  unfold Plan.Sorted at h
  dsimp only at h ⊢
  induction nodes generalizing k with
  | nil => exact List.Pairwise.nil
  | cons x rest ih =>
    cases x with
    | error err => exact List.Pairwise.nil
    | ok m =>
      obtain ⟨hx, hrest⟩ := List.pairwise_cons.mp h
      apply List.Pairwise.cons
      · intro n hn
        obtain ⟨m', hm', hn'⟩ := mem_created hn
        have hle := hx _ hm' m m' rfl rfl
        rw [hn']
        exact hle
      · exact ih hrest

/-- The plan of a rule is in the order of its steps. -/
theorem rule_plan_sorted (dir : Directory) (rule : Rule) (subject : Subject) (submitter : User) :
    (rule_plan dir rule subject submitter).Sorted := by
  have hsorted : rule.ordered_nodes.Pairwise fun a b => a.step_order ≤ b.step_order :=
    List.pairwise_insertionSort _ _
  apply List.Pairwise.map _ _ hsorted
  intro a b hab m n hm hn
  cases ha : dir._get_candidate_approvers a subject submitter with
  | error err => simp [ha, Except.map] at hm
  | ok as =>
    cases hb : dir._get_candidate_approvers b subject submitter with
    | error err => simp [hb, Except.map] at hn
    | ok bs =>
      simp only [ha, hb, Except.map, Except.ok.injEq] at hm hn
      subst hm hn
      exact hab

theorem custom_plan_sorted (dir : Directory) (subject : Subject) (override : Option Override)
    (rule_name : String) :
    (custom_plan dir subject override rule_name).Sorted := by
  unfold custom_plan custom_nodes Plan.Sorted
  generalize custom_approvers dir subject override = approvers
  obtain ⟨any_cand, all_cand, mode⟩ := approvers
  by_cases hany : any_cand = [] <;> by_cases hall : all_cand = [] <;>
    simp [hany, hall, specific_users]

/-- Every plan is in the order of its steps. -/
theorem plan_sorted {e : Engine} {dir : Directory} {subject : Subject} {sub : Submission} {p : Plan}
    (h : plan e dir subject sub = some p) : p.Sorted := by
  unfold plan at h
  split at h
  · split at h
    · obtain rfl := Option.some.inj h
      exact List.pairwise_singleton _ _
    · cases h
  · obtain rfl := Option.some.inj h
    exact rule_plan_sorted _ _ _ _
  · split at h
    · obtain rfl := Option.some.inj h
      exact custom_plan_sorted _ _ _ _
    · cases h
  · split at h
    · obtain rfl := Option.some.inj h
      exact custom_plan_sorted _ _ _ _
    · obtain rfl := Option.some.inj h
      exact rule_plan_sorted _ _ _ _

end taurus.approval
