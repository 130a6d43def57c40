import Mathlib.Data.Fintype.EquivFin
import Taurus.Approval.Progress

namespace taurus.approval

open taurus.lib taurus.lib.transition taurus.python taurus.engine taurus.engine.runner

variable {dir : Directory} {w w' : World} {sub : Submission} {listed : List Candidate}

/-- The call creates the nodes of `_create_custom_node`. -/
def CreatesCustom (dir : Directory) (workflow : Subject) (sub : Submission) : Prop :=
  if sub.rule.isSome then WorkflowApprovalFlowEngine.overrides sub = true
  else WorkflowApprovalFlowEngine.needs_approval dir workflow = true

/-- Everybody in the list is asked to approve: either the publisher picks them with the mode
'all', or nobody is picked and they stand in the workflow's approval nodes with that mode. -/
def RequestsAll (dir : Directory) (workflow : Subject) (sub : Submission)
    (listed : List Candidate) : Prop :=
  (∃ given, sub.override_approvers = some given ∧ given.approval_mode = some "all" ∧
    given.countersign_ids = [] ∧
    listed = dir._build_user_candidates given.approver_ids) ∨
  (dir._build_user_candidates (sub.override_approvers.getD {}).approver_ids = [] ∧
    dir._build_user_candidates (sub.override_approvers.getD {}).countersign_ids = [] ∧
    dir._build_user_candidates workflow.custom_approver_ids = [] ∧
      (_extract_graph_approvers workflow).2 = .all ∧
    listed = dir._build_user_candidates (_extract_graph_approvers workflow).1)

/-- The requested mode is worked out correctly. -/
theorem custom_approvers_of_requestsAll (h : RequestsAll dir w.subject sub listed)
    (hlisted : listed ≠ []) :
    custom_approvers dir w.subject sub.override_approvers = (listed, [], .all) := by
  obtain ⟨given, hgiven, hmode, hcountersign, rfl⟩ | ⟨hany, hall, hcustom, hmode, rfl⟩ := h
  · have hnil : dir._build_user_candidates [] = [] := rfl
    simp [custom_approvers, hgiven, hmode, hcountersign, hnil, hlisted]
  · simp [custom_approvers, fallback_approvers, hany, hall, hcustom, hmode, hlisted]

/-- The only node of such a start. -/
def requested_node (sub : Submission) (listed : List Candidate) : NodeExecution :=
  specific_users (if sub.override_approvers.isSome then "Any one approver"
    else "Specific approver approval") .any 1
    listed { user_ids := listed.map (·.user_id) }

/-- Its mode is 'any', whatever was requested. -/
theorem custom_nodes_of_requestsAll (h : RequestsAll dir w.subject sub listed)
    (hlisted : listed ≠ []) :
    custom_nodes dir w.subject sub.override_approvers = [requested_node sub listed] := by
  unfold custom_nodes
  rw [custom_approvers_of_requestsAll h hlisted]
  simp [hlisted, requested_node]

/-- A submission with picked approvers creates their nodes and waits for them. -/
theorem next_start_custom (hcreates : CreatesCustom dir w.subject sub) :
    ∃ rule_name, w.next .workflow (.start_approval dir sub) =
      (w.add (new_instance w.subject sub rule_name)
        (created 0 ((custom_nodes dir w.subject sub.override_approvers).map .ok))).set_status .pending_approval := by
  have hplan : ∃ rule_name, plan .workflow dir w.subject sub =
      some (custom_plan dir w.subject sub.override_approvers rule_name) := by
    unfold CreatesCustom at hcreates
    unfold plan
    cases hrule : sub.rule with
    | none =>
      exact ⟨_, by simp only [hrule, Option.isSome_none, Bool.false_eq_true, if_false] at hcreates; simp only [hcreates, if_true]; rfl⟩
    | some rule =>
      exact ⟨rule.name, by simp only [hrule, Option.isSome_some, if_true] at hcreates; simp only [hcreates, if_true]⟩
  obtain ⟨rule_name, hplan⟩ := hplan
  have heffect := effect_start_approval (e := .workflow) (w := w) dir sub
  generalize w.next .workflow (.start_approval dir sub) = w' at heffect
  cases heffect with
  | stopped hidle => exact absurd trivial hidle
  | not_needed hnone => rw [hplan] at hnone; cases hnone
  | started hsome =>
    obtain rfl := Option.some.inj (hplan.symm.trans hsome)
    exact ⟨rule_name, rfl⟩
  | broken hsome hraise =>
    obtain rfl := Option.some.inj (hplan.symm.trans hsome)
    simp [custom_plan, Except.isOk, Except.toBool] at hraise

/-- An instance with one 'any' node that is pending: one of the candidates delegates to a user who
is nobody of them, who approves, and the instance is approved. -/
theorem approved_by_stranger {e : Engine} {i : Nat} {row : Instance} {n : NodeExecution}
    (stranger : User) (hw : w.Laid) (hat : w.At i { row, nodes := [n] } n)
    (hindex : row.current_node_index = 0) (hmode : n.approval_mode = .any)
    (hstatus : n.status = .pending) (hrecords : n.approval_records = []) {c : Candidate}
    (hc : c ∈ n.candidate_approvers) (hstranger : stranger.id ∉ n.candidate_ids) :
    ∃ w' a, Runs (step e) (fun _ _ => True) w w' ∧ w'.approvals[i]? = some a ∧
      a.row.status = .approved ∧
      ∀ n ∈ a.nodes, n.approvers = [stranger.id] := by
  let approver : User := { id := c.user_id, username := c.username, name := c.name }
  let newcomers : Directory := { users := [stranger], ids_nodup := List.nodup_singleton _ }
  let a : Approval := { row, nodes := [n] }
  let n₁ :=
    (n.add_delegation (approver.record
      (.delegate stranger.id stranger.username) "" 0) e).add_candidates [stranger]
  have happrover : _is_user_approver n approver = true :=
    NodeExecution.mem_candidate_ids.mpr (List.mem_map_of_mem hc)
  have huser : newcomers.users.find? (·.id = stranger.id) = some stranger := by simp [newcomers]
  have hdelegated : w.next e (.delegate newcomers i approver stranger.id "" 0) = w.put i a row n₁ :=
    next_delegate hat (hw _ (List.mem_of_getElem? hat.stored)) happrover huser "" 0
  have hw₁ : (w.put i a row n₁).Laid := hdelegated ▸ laid_next hw _
  have hi := (List.getElem?_eq_some_iff.mp hat.stored).1
  have hnodes : a.put row n₁ = { row, nodes := [n₁] } := by simp [Approval.put, a, hindex]
  have hat₁ : (w.put i a row n₁).At i { row, nodes := [n₁] } n₁ :=
    ⟨hnodes ▸ World.put_getElem? hi, hat.pending, by simp [hindex]⟩
  have hextends : n.Extends n₁ := NodeExecution.extends_delegated stranger
  have happrovers : n₁.approvers = [] := by
    rw [hextends.approvers]
    simp [NodeExecution.approvers, hrecords]
  have hcandidate : _is_user_approver n₁ stranger = true := by
    rw [NodeExecution.mem_candidate_ids, NodeExecution.candidate_ids_add_candidates]
    apply List.mem_append_right
    have hids : (n.add_delegation
      (approver.record (.delegate stranger.id stranger.username) "" 0) e).candidate_ids =
        n.candidate_ids := by cases e <;> rfl
    rw [hids]
    simpa using hstranger
  have hballot : n₁.Ballot := (NodeExecution.Ballot.of_fresh hstatus hrecords).extended hextends
  have hfirst : has_decided n₁ stranger = false := by
    apply Bool.eq_false_of_not_eq_true
    rw [hballot.has_decided_iff, happrovers]
    exact List.not_mem_nil
  have happroved : _is_node_approved (n₁.add_record (stranger.record .approve "" 0)) = true := by
    rw [NodeExecution.is_node_approved_iff]
    have hany : (n₁.add_record (stranger.record .approve "" 0)).approval_mode = .any :=
      hextends.approval_mode.trans hmode
    rw [hany, NodeExecution.approvers_add_approval]
    simp
  have hnext :=
    next_approve (e := e) hat₁ (hw₁ _ (List.mem_of_getElem? hat₁.stored)) hcandidate hfirst "" 0
  rw [if_pos happroved, if_pos (by simp [hindex])] at hnext
  have hi₁ := (List.getElem?_eq_some_iff.mp hat₁.stored).1
  refine ⟨_, _, .head trivial (congrArg some hdelegated)
    (.head trivial (congrArg some hnext) (.refl _)), World.put_getElem? hi₁, rfl, ?_⟩
  intro m hm
  have hm : m ∈ [(n₁.add_record (stranger.record .approve "" 0)).finish .approved 0] := by
    simpa [Approval.put, hindex] using hm
  obtain rfl := List.mem_singleton.mp hm
  rw [NodeExecution.approvers_finish, NodeExecution.approvers_add_approval, happrovers]
  rfl

/-- The instance that a start with the requested mode 'all' creates is approved only after
everybody of the list has approved, along every run, if and only if the list is empty. -/
theorem requested_mode_iff (hreachable : Reachable .workflow w)
    (hcreates : CreatesCustom dir w.subject sub) (hall : RequestsAll dir w.subject sub listed) :
    (∀ w', Runs (step .workflow) (fun _ _ => True) (w.next .workflow (.start_approval dir sub)) w' →
        ∀ a, w'.approvals[w.approvals.length]? = some a → a.row.status = .approved →
          ∀ c ∈ listed, ∃ n ∈ a.nodes, c.user_id ∈ n.approvers) ↔ listed = [] := by
  constructor
  · intro h
    by_contra hlisted
    obtain ⟨rule_name, hstart⟩ := next_start_custom hcreates
    rw [custom_nodes_of_requestsAll hall hlisted] at hstart
    have hat : (w.next .workflow (.start_approval dir sub)).At w.approvals.length
        { row := new_instance w.subject sub rule_name, nodes := [requested_node sub listed] }
        (requested_node sub listed) := by
      rw [hstart]
      exact ⟨List.getElem?_concat_length, rfl, rfl⟩
    obtain ⟨c, hc⟩ := List.exists_mem_of_ne_nil _ hlisted
    obtain ⟨id, hid⟩ :=
      Infinite.exists_notMem_finset (requested_node sub listed).candidate_ids.toFinset
    have hstranger : id ∉ (requested_node sub listed).candidate_ids :=
      fun hmem => hid (List.mem_toFinset.mpr hmem)
    obtain ⟨w', a, hruns, ha, happroved, happrovers⟩ := approved_by_stranger (e := .workflow)
      { id, username := "", name := "" }
      (laid_next hreachable.laid _) hat rfl rfl rfl rfl hc hstranger
    obtain ⟨n, hn, hmem⟩ := h w' hruns a ha happroved c hc
    rw [happrovers n hn] at hmem
    have hlistedId : c.user_id ∈ (requested_node sub listed).candidate_ids := List.mem_map_of_mem hc
    rw [List.mem_singleton.mp hmem] at hlistedId
    exact hstranger hlistedId
  · rintro rfl w' _ a _ _ c hc
    cases hc

/-! Two users are picked with the mode 'all'. -/

def two_approvers : Submission where
  rule := none
  submitter := { id := 1, username := "alice", name := "Alice" }
  override_approvers := some { approver_ids := [.int 2, .int 3], approval_mode := some "all" }

def office_of_three : Directory where
  users :=
    [{ id := 1, username := "alice", name := "Alice" },
      { id := 2, username := "bob", name := "Bob" },
    { id := 3, username := "carol", name := "Carol" }]
  ids_nodup := by decide

def audited_workflow : World where
  subject := { status := .enabled, version := "7", need_audit := true }

def picked : List Candidate :=
  [{ user_id := 2, username := "bob", name := "Bob" },
    { user_id := 3, username := "carol", name := "Carol" }]

theorem two_approvers_iff : CreatesCustom office_of_three audited_workflow.subject two_approvers ∧
    ((∀ w', Runs (step .workflow) (fun _ _ => True)
          (audited_workflow.next .workflow (.start_approval office_of_three two_approvers)) w' →
        ∀ a, w'.approvals[audited_workflow.approvals.length]? = some a → a.row.status = .approved →
          ∀ c ∈ picked, ∃ n ∈ a.nodes, c.user_id ∈ n.approvers) ↔ picked = []) :=
  ⟨rfl, requested_mode_iff ⟨_, .refl _⟩ rfl (Or.inl ⟨_, rfl, rfl, rfl, rfl⟩)⟩

theorem bob_suffices :
    ((audited_workflow.next .workflow (.start_approval office_of_three two_approvers)).next .workflow
    (.approve 0 { id := 2, username := "bob", name := "Bob" } "" 0)).approvals.map (fun a =>
      (a.row.status, a.nodes.map (·.approvers))) = [(.approved, [[2]])] := by
  decide +kernel

/-- Bob approves and the instance is approved, though Carol was picked as well. -/
theorem one_of_two_approves :
    ¬∀ w', Runs (step .workflow) (fun _ _ => True)
        (audited_workflow.next .workflow (.start_approval office_of_three two_approvers)) w' →
      ∀ a, w'.approvals[0]? = some a → a.row.status = .approved →
        ∀ c ∈ picked, ∃ n ∈ a.nodes, c.user_id ∈ n.approvers := by
  intro h
  obtain ⟨a, hstored, ha⟩ := List.map_eq_singleton_iff.mp bob_suffices
  obtain ⟨hstatus, hnodes⟩ := Prod.mk.inj ha
  obtain ⟨n, hn, hcarol⟩ := h _ (.head trivial rfl (.refl _)) a (by rw [hstored]; rfl) hstatus
    { user_id := 3, username := "carol", name := "Carol" } (by decide)
  have happrovers : n.approvers ∈ [[2]] := hnodes ▸ List.mem_map_of_mem hn
  rw [List.mem_singleton.mp happrovers] at hcarol
  revert hcarol
  decide

end taurus.approval
