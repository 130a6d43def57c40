import Taurus.Approval.Plan

namespace taurus.approval

open taurus.lib taurus.lib.Thread taurus.engine

variable {e : Engine} {w : World} {i : Nat} {a : Approval} {n : NodeExecution}

/-- The nodes have their positions as keys and were created in the order they are read in. -/
structure Approval.Laid (a : Approval) : Prop where
  ids : ∀ (k : Nat) (n : NodeExecution), a.nodes[k]? = some n → n.id = k
  sorted : a.nodes.Pairwise fun m n => m.step_order ≤ n.step_order

def World.Laid (w : World) : Prop := ∀ a ∈ w.approvals, a.Laid

namespace Approval

/-- Laid-out nodes are in their order already. -/
theorem Laid.ordered (h : a.Laid) : ordered a.nodes = a.nodes := by
  unfold approval.ordered
  exact List.Pairwise.insertionSort_eq h.sorted

/-- Saving a node replaces it in its place. -/
theorem Laid.save_node {k : Nat} {n' : NodeExecution} (h : a.Laid) (hn : a.nodes[k]? = some n)
    (hid : n'.id = n.id) :
    a.save_node n' = { a with nodes := a.nodes.set k n' } := by
  have hk := h.ids k n hn
  suffices hset : (a.nodes.map fun m => if m.id = n'.id then n' else m) = a.nodes.set k n' by
    unfold Approval.save_node
    rw [hset]
  apply List.ext_getElem?
  intro j
  rw [List.getElem?_map, List.getElem?_set]
  by_cases hj : k = j
  · subst hj
    have hlt := (List.getElem?_eq_some_iff.mp hn).1
    rw [hn, if_pos rfl, if_pos hlt, Option.map_some, if_pos hid.symm]
  · cases hm : a.nodes[j]? with
    | none => simp [hj]
    | some m =>
      have hmj := h.ids j m hm
      have hne : m.id ≠ n'.id := by omega
      simp [hj, hne]

/-- The approval stays laid out when a node is replaced by one of its id and order. -/
theorem Laid.set {k : Nat} {row : Instance} {n' : NodeExecution} (h : a.Laid)
    (hn : a.nodes[k]? = some n) (hid : n'.id = n.id) (horder : n'.step_order = n.step_order) :
    ({ row, nodes := a.nodes.set k n' } : Approval).Laid where
  ids j m hm := by
    simp only [List.getElem?_set] at hm
    split at hm
    · obtain rfl := ‹k = j›
      split at hm
      · obtain rfl := Option.some.inj hm
        rw [hid]
        exact h.ids k n hn
      · cases hm
    · exact h.ids j m hm
  sorted := by
    obtain ⟨hk, rfl⟩ := List.getElem?_eq_some_iff.mp hn
    have hsorted := List.pairwise_iff_getElem.mp h.sorted
    apply List.pairwise_iff_getElem.mpr
    intro j l hj hl hjl
    simp only [List.length_set] at hj hl
    have hle := hsorted j l hj hl hjl
    simp only [List.getElem_set]
    split <;> split <;> simp_all

end Approval

namespace World

/-- Instance `i` is pending at the node `n`. -/
structure At (w : World) (i : Nat) (a : Approval) (n : NodeExecution) : Prop where
  stored : w.approvals[i]? = some a
  pending : a.row.status = .pending
  current : a.nodes[a.row.current_node_index]? = some n

/-- Instance `i` after its row and its current node were saved. -/
def put (w : World) (i : Nat) (a : Approval) (row : Instance) (n : NodeExecution) : World :=
  { w with approvals := w.approvals.set i { row, nodes := a.nodes.set a.row.current_node_index n } }

def set_status (w : World) (status : SubjectStatus) : World :=
  { w with subject := { w.subject with status } }

/-- An approval is changed in its place. -/
theorem modify_eq_set (change : Approval → Approval) (ha : w.approvals[i]? = some a) :
    w.modify i change = { w with approvals := w.approvals.set i (change a) } := by
  unfold modify
  rw [List.modify_eq_set_getElem?, ha]
  rfl

/-- Saving the current node overwrites the approval. -/
theorem At.save_node (hat : w.At i a n) (hlaid : a.Laid) (n' : NodeExecution) (hid : n'.id = n.id) :
    w.modify i (·.save_node n') = w.put i a a.row n' := by
  rw [modify_eq_set _ hat.stored, hlaid.save_node hat.current hid]
  rfl

/-- Saving the row after the node overwrites both. -/
theorem At.save_instance {n' : NodeExecution} {row : Instance} (hat : w.At i a n) :
    (w.put i a a.row n').modify i ({ · with row }) = w.put i a row n' := by
  have hi := (List.getElem?_eq_some_iff.mp hat.stored).1
  rw [modify_eq_set _ (List.getElem?_set_self hi)]
  unfold put
  rw [List.set_set]

end World

/-- The call passes the checks of the engine. -/
def Permitted (e : Engine) (w : World) : Call → Prop
  | .start_approval _ _ => True
  | .approve i user _ _ | .reject i user _ _ =>
    ∃ a n, w.At i a n ∧ _is_user_approver n user = true ∧ has_decided n user = false
  | .cancel i operator _ =>
    ∃ a, w.approvals[i]? = some a ∧ a.row.status = .pending ∧ may_withdraw a.row operator e = true
  | .delegate dir i user to_user_id _ _ =>
    ∃ a n to_user, w.At i a n ∧ _is_user_approver n user = true ∧
      dir.users.find? (·.id = to_user_id) = some to_user
  | .add_sign _ i user _ _ _ => ∃ a n, w.At i a n ∧ _is_user_approver n user = true

/-- What a call can do to the stored state. -/
inductive Effect (e : Engine) (w : World) : Call → World → Prop where
  | stopped {c : Call} (hidle : ¬Permitted e w c) : Effect e w c w
  | recorded {i : Nat} {a : Approval} {n : NodeExecution} {approver : User}
      {reason : String} {now : Time}
      (hat : w.At i a n) (hcandidate : _is_user_approver n approver = true)
      (hfirst : has_decided n approver = false)
      (hopen : _is_node_approved (n.add_record (approver.record .approve reason now)) = false) :
      Effect e w (.approve i approver reason now)
        (w.put i a a.row (n.add_record (approver.record .approve reason now)))
  | passed {i : Nat} {a : Approval} {n : NodeExecution} {approver : User}
      {reason : String} {now : Time}
      (hat : w.At i a n) (hcandidate : _is_user_approver n approver = true)
      (hfirst : has_decided n approver = false)
      (happroved : _is_node_approved (n.add_record (approver.record .approve reason now)) = true)
      (hnext : a.row.current_node_index + 1 < a.nodes.length) :
      Effect e w (.approve i approver reason now)
        (w.put i a (a.row.move_to (a.row.current_node_index + 1))
          ((n.add_record (approver.record .approve reason now)).finish .approved now))
  | granted {i : Nat} {a : Approval} {n : NodeExecution} {approver : User}
      {reason : String} {now : Time}
      (hat : w.At i a n) (hcandidate : _is_user_approver n approver = true)
      (hfirst : has_decided n approver = false)
      (happroved : _is_node_approved (n.add_record (approver.record .approve reason now)) = true)
      (hlast : a.nodes.length = a.row.current_node_index + 1) :
      Effect e w (.approve i approver reason now)
        ((w.put i a (a.row.finish .approved now)
          ((n.add_record (approver.record .approve reason now)).finish .approved now)).set_status .enabled)
  | rejected {i : Nat} {a : Approval} {n : NodeExecution} {approver : User}
      {reason : String} {now : Time}
      (hat : w.At i a n) (hcandidate : _is_user_approver n approver = true)
      (hfirst : has_decided n approver = false) :
      Effect e w (.reject i approver reason now)
        (w.put i a (a.row.finish .rejected now)
          ((n.add_record (approver.record .reject reason now)).finish .rejected now))
  | cancelled {i : Nat} {a : Approval} {operator : User} {now : Time}
      (happroval : w.approvals[i]? = some a)
      (hpending : a.row.status = .pending) (hmay : may_withdraw a.row operator e = true) :
      Effect e w (.cancel i operator now)
        (World.set_status { w with approvals := w.approvals.set i { a with row := a.row.finish .cancelled now } } .disabled)
  | delegated {dir : Directory} {i : Nat} {a : Approval} {n : NodeExecution}
      {approver to_user : User} {to_user_id : Int}
      {reason : String} {now : Time} (hat : w.At i a n)
      (hcandidate : _is_user_approver n approver = true)
      (huser : dir.users.find? (·.id = to_user_id) = some to_user) :
      Effect e w (.delegate dir i approver to_user_id reason now)
        (w.put i a a.row ((n.add_delegation
          (approver.record (.delegate to_user.id to_user.username) reason now) e).add_candidates [to_user]))
  | extended {dir : Directory} {i : Nat} {a : Approval} {n : NodeExecution} {approver : User}
      {user_ids recorded : List Int}
      {reason : String} {now : Time} (hat : w.At i a n)
      (hcandidate : _is_user_approver n approver = true) :
      Effect e w (.add_sign dir i approver user_ids reason now)
        (w.put i a a.row ((n.add_signature (approver.record (.add_sign recorded) reason now) e).add_candidates
          (dir.users.filter (·.id ∈ user_ids))))
  | not_needed {dir : Directory} {sub : Submission} (hplan : plan e dir w.subject sub = none) :
      Effect e w (.start_approval dir sub) (w.set_status .enabled)
  | started {dir : Directory} {sub : Submission} {p : Plan}
      (hplan : plan e dir w.subject sub = some p)
      (hok : p.nodes.all Except.isOk = true) :
      Effect e w (.start_approval dir sub)
        ((w.add (new_instance w.subject sub p.rule_name) (created 0 p.nodes)).set_status .pending_approval)
  | broken {dir : Directory} {sub : Submission} {p : Plan}
      (hplan : plan e dir w.subject sub = some p)
      (hraise : p.nodes.all Except.isOk = false) :
      Effect e w (.start_approval dir sub)
        (w.add (new_instance w.subject sub p.rule_name) (created 0 p.nodes))

section

open World

/-- A request goes on only with a pending row. -/
theorem after_get_pending_bind {α : Type} (i : Nat) (f : Instance → Session α) (w : World) :
    w.after (get_pending i >>= f) =
      match w.approvals[i]? with
      | none => w
      | some a => if a.row.status = .pending then w.after (f a.row) else w := by
  unfold get_pending
  rw [bind_assoc, after_get_instance_bind]
  cases w.approvals[i]? with
  | none => rfl
  | some a =>
    by_cases hp : a.row.status = .pending
    · simp [hp]
    · simp [hp, value_error]

theorem after_set_subject_status_bind {α : Type} (status : SubjectStatus)
    (f : Unit → Session α) (w : World) :
    w.after (set_subject_status status >>= f) = (w.set_status status).after (f ()) := rfl

/-- The current node may be decided by one of its approvers, once. -/
theorem node_to_decide_eq_ok {row : Instance} {nodes : List NodeExecution} {approver : User} :
    node_to_decide row nodes approver = .ok n ↔ nodes[row.current_node_index]? = some n ∧
      _is_user_approver n approver = true ∧ has_decided n approver = false := by
  unfold node_to_decide
  cases h : nodes[row.current_node_index]? with
  | none => simp
  | some m =>
    cases hc : _is_user_approver m approver <;> cases hd : has_decided m approver <;> simp [hc, hd]
    · rintro rfl
      simp [hc]
    · rintro rfl
      simp [hc]
    · rintro rfl
      simp [hc, hd]
    · rintro rfl
      simp [hc, hd]

/-- The current node may be extended by one of its approvers. -/
theorem node_to_extend_eq_ok {row : Instance} {nodes : List NodeExecution} {approver : User} :
    node_to_extend row nodes approver = .ok n ↔
      nodes[row.current_node_index]? = some n ∧ _is_user_approver n approver = true := by
  unfold node_to_extend
  cases h : nodes[row.current_node_index]? with
  | none => simp
  | some m =>
    cases hc : _is_user_approver m approver <;> simp [hc]
    · rintro rfl
      simp [hc]
    · rintro rfl
      simp [hc]

section

variable {α : Type} {check : Instance → List NodeExecution → Except Error NodeExecution}
  {body : Instance → List NodeExecution → NodeExecution → Session α}

/-- A call whose checks pass goes on with the stored row and nodes. -/
theorem after_checked (hat : w.At i a n) (hlaid : a.Laid) (hcheck : check a.row a.nodes = .ok n) :
    w.after (do
        let row ← get_pending i
        let nodes ← node_executions i
        let node_exec ← fromExcept (check row nodes)
        body row nodes node_exec) = w.after (body a.row a.nodes n) := by
  rw [after_get_pending_bind, hat.stored]
  simp only [hat.pending, if_true, after_node_executions_bind, after_fromExcept_bind, hat.stored,
    Option.map_some, Option.getD_some, hlaid.ordered, hcheck]

/-- A call whose checks fail changes nothing. -/
theorem after_unchecked (hw : w.Laid)
    (hcheck : ∀ a, w.approvals[i]? = some a → a.row.status = .pending →
      ∀ n, check a.row a.nodes = .ok n →
      w.after (body a.row a.nodes n) = w) :
    w.after (do
        let row ← get_pending i
        let nodes ← node_executions i
        let node_exec ← fromExcept (check row nodes)
        body row nodes node_exec) = w := by
  rw [after_get_pending_bind]
  cases ha : w.approvals[i]? with
  | none => rfl
  | some a =>
    by_cases hp : a.row.status = .pending
    swap
    · simp only [hp, if_false]
    simp only [hp, if_true, after_node_executions_bind, after_fromExcept_bind, ha, Option.map_some,
      Option.getD_some, (hw a (List.mem_of_getElem? ha)).ordered]
    cases hn : check a.row a.nodes with
    | error err => rfl
    | ok n => exact hcheck a ha hp n hn

end

/-- What a permitted approval does. -/
theorem next_approve {approver : User} (hat : w.At i a n) (hlaid : a.Laid)
    (hcandidate : _is_user_approver n approver = true) (hfirst : has_decided n approver = false)
    (reason : String) (now : Time) :
    w.next e (.approve i approver reason now) =
      if _is_node_approved (n.add_record (approver.record .approve reason now)) then
        if a.nodes.length ≤ a.row.current_node_index + 1 then
          (w.put i a (a.row.finish .approved now)
            ((n.add_record (approver.record .approve reason now)).finish .approved now)).set_status .enabled
        else
          w.put i a (a.row.move_to (a.row.current_node_index + 1))
            ((n.add_record (approver.record .approve reason now)).finish .approved now)
      else w.put i a a.row (n.add_record (approver.record .approve reason now)) := by
  have hsave := hat.save_node hlaid
  simp only [next, approve]
  rw [after_checked hat hlaid (node_to_decide_eq_ok.mpr ⟨hat.current, hcandidate, hfirst⟩)]
  split
  · rw [after_save_node_bind, hsave ((n.add_record _).finish _ _) (Eq.refl n.id)]
    split
    · rw [after_save_instance_bind, after_set_subject_status_bind, hat.save_instance]
      rfl
    · rw [after_save_instance_bind, hat.save_instance]
      rfl
  · rw [after_save_node_bind, hsave (n.add_record _) (Eq.refl n.id)]
    rfl

/-- What a permitted delegation does. -/
theorem next_delegate {dir : Directory} {approver to_user : User} {to_user_id : Int}
    (hat : w.At i a n) (hlaid : a.Laid) (hcandidate : _is_user_approver n approver = true)
    (huser : dir.users.find? (·.id = to_user_id) = some to_user) (reason : String) (now : Time) :
    w.next e (.delegate dir i approver to_user_id reason now) =
      w.put i a a.row ((n.add_delegation
        (approver.record (.delegate to_user.id to_user.username) reason now) e).add_candidates
          [to_user]) := by
  simp only [next, delegate]
  rw [after_checked hat hlaid (node_to_extend_eq_ok.mpr ⟨hat.current, hcandidate⟩), huser]
  dsimp only
  rw [after_save_node_bind, hat.save_node hlaid _ (by cases e <;> rfl)]
  rfl

/-- A call that is not permitted changes nothing. -/
theorem next_of_not_permitted (hw : w.Laid) {c : Call} (h : ¬Permitted e w c) : w.next e c = w := by
  cases c with
  | start_approval dir sub => exact absurd trivial h
  | approve i approver reason now =>
    apply after_unchecked hw
    intro a ha hp n hn
    obtain ⟨hcurrent, hcandidate, hfirst⟩ := node_to_decide_eq_ok.mp hn
    exact absurd ⟨a, n, ⟨ha, hp, hcurrent⟩, hcandidate, hfirst⟩ h
  | reject i approver reason now =>
    apply after_unchecked hw
    intro a ha hp n hn
    obtain ⟨hcurrent, hcandidate, hfirst⟩ := node_to_decide_eq_ok.mp hn
    exact absurd ⟨a, n, ⟨ha, hp, hcurrent⟩, hcandidate, hfirst⟩ h
  | cancel i operator now =>
    simp only [next, cancel]
    rw [after_get_pending_bind]
    cases ha : w.approvals[i]? with
    | none => rfl
    | some a =>
      by_cases hp : a.row.status = .pending
      · cases hmay : may_withdraw a.row operator e with
        | false => simp [hp, hmay, value_error]
        | true => exact absurd ⟨a, ha, hp, hmay⟩ h
      · simp only [hp, if_false]
  | delegate dir i approver to_user_id reason now =>
    apply after_unchecked hw
    intro a ha hp n hn
    obtain ⟨hcurrent, hcandidate⟩ := node_to_extend_eq_ok.mp hn
    cases huser : dir.users.find? (·.id = to_user_id) with
    | none => rfl
    | some to_user => exact absurd ⟨a, n, to_user, ⟨ha, hp, hcurrent⟩, hcandidate, huser⟩ h
  | add_sign dir i approver user_ids reason now =>
    apply after_unchecked hw
    intro a ha hp n hn
    obtain ⟨hcurrent, hcandidate⟩ := node_to_extend_eq_ok.mp hn
    exact absurd ⟨a, n, ⟨ha, hp, hcurrent⟩, hcandidate⟩ h

theorem add_create_node (row : Instance) (nodes : List NodeExecution) (n : NodeExecution) :
    (w.add row nodes).modify w.approvals.length (·.create_node n) =
      w.add row (nodes ++ [{ n with id := nodes.length }]) := by
  have hlast : (w.add row nodes).approvals[w.approvals.length]? = some { row, nodes } :=
    List.getElem?_concat_length
  rw [World.modify_eq_set _ hlast]
  unfold add Approval.create_node
  rw [List.set_append_right _ _ (Nat.le_refl _), Nat.sub_self]
  rfl

/-- The nodes of a rule are created one by one, up to the first that has no candidates. -/
theorem after_create_nodes_bind {α : Type} (dir : Directory) (subject : Subject) (submitter : User)
    (row : Instance) (rest : Session α) (rules : List RuleNode) (nodes : List NodeExecution) :
    let plan :=
  rules.map fun node => (dir._get_candidate_approvers node subject submitter).map node.execution
    (w.add row nodes).after (forEach (fun node => do
        let candidates ← fromExcept (dir._get_candidate_approvers node subject submitter)
        create_node w.approvals.length (node.execution candidates)) rules >>= fun _ => rest) =
      if plan.all Except.isOk then (w.add row (nodes ++ created nodes.length plan)).after rest
      else w.add row (nodes ++ created nodes.length plan) := by
  induction rules generalizing nodes with
  | nil => simp [created, forEach_nil]
  | cons node rules ih =>
    rw [forEach_cons]
    simp only [bind_assoc, pure_bind, after_fromExcept_bind]
    cases hcand : dir._get_candidate_approvers node subject submitter with
    | error err => simp [created, hcand, Except.map, Except.isOk, Except.toBool]
    | ok candidates =>
      dsimp only
      rw [after_create_node_bind, add_create_node, ih]
      simp [created, hcand, Except.map, Except.isOk, Except.toBool]

/-- The nodes that the submitter picked are created after the row. -/
theorem after_create_custom_node_bind {α : Type} (dir : Directory) (subject : Subject)
    (override : Option Override) (row : Instance) (f : ApprovalMode → Session α) :
    (w.add row []).after (_create_custom_node dir subject override w.approvals.length >>= f) =
      (w.add row (created 0 ((custom_nodes dir subject override).map .ok))).after
        (f (custom_mode dir subject override)) := by
  unfold _create_custom_node custom_nodes custom_mode
  generalize custom_approvers dir subject override = approvers
  obtain ⟨any_cand, all_cand, mode⟩ := approvers
  by_cases hany : any_cand = [] <;> by_cases hall : all_cand = [] <;>
    simp [hany, hall, bind_assoc, after_create_node_bind, add_create_node, created]

/-- A submission changes the state as the engine's plan says. -/
theorem effect_start_approval (dir : Directory) (sub : Submission) :
    Effect e w (.start_approval dir sub) (w.next e (.start_approval dir sub)) := by
  have hcustom : ∀ (override : Option Override) (name : String),
      (custom_plan dir w.subject override name).nodes.all Except.isOk = true := by
    intro override name
    simp [custom_plan, Except.isOk, Except.toBool]
  cases e with
  | script =>
    simp only [next, Engine.start_approval, ApprovalFlowEngine.start_approval,
      after_get_subject_bind]
    cases hrule : sub.rule with
    | none =>
      by_cases hneed : w.subject.need_audit = true
      · have hplan : plan .script dir w.subject sub =
            some ⟨"Default approval (need_audit)", [.ok (admin_node dir)]⟩ := by
            simp only [plan, hrule, hneed, if_true]
        dsimp only
        rw [if_pos hneed, after_create_instance_bind, after_create_node_bind, add_create_node]
        exact Effect.started hplan rfl
      · dsimp only
        rw [if_neg hneed]
        apply Effect.not_needed
        simp [plan, hrule, hneed]
    | some rule =>
      have hplan : plan .script dir w.subject sub =
          some (rule_plan dir rule w.subject sub.submitter) := by
        simp only [plan, hrule]
      dsimp only
      rw [after_create_instance_bind]
      unfold create_nodes
      rw [after_create_nodes_bind]
      split
      · exact Effect.started hplan ‹_›
      · exact Effect.broken hplan (Bool.eq_false_of_not_eq_true ‹_›)
  | workflow =>
    simp only [next, Engine.start_approval, WorkflowApprovalFlowEngine.start_approval,
      after_get_subject_bind]
    cases hrule : sub.rule with
    | none =>
      by_cases hneed : WorkflowApprovalFlowEngine.needs_approval dir w.subject = true
      · dsimp only
        rw [if_pos hneed, after_create_instance_bind, after_create_custom_node_bind]
        have hplan : plan .workflow dir w.subject sub =
          some (custom_plan dir w.subject sub.override_approvers
            "Custom approval (need_audit / public flow)") := by
            simp only [plan, hrule, hneed, if_true]
        exact Effect.started hplan (hcustom _ _)
      · dsimp only
        rw [if_neg hneed]
        apply Effect.not_needed
        simp [plan, hrule, hneed]
    | some rule =>
      dsimp only
      rw [after_create_instance_bind]
      by_cases hover : WorkflowApprovalFlowEngine.overrides sub = true
      · have hplan : plan .workflow dir w.subject sub =
            some (custom_plan dir w.subject sub.override_approvers rule.name) := by
            simp only [plan, hrule, hover, if_true]
        rw [if_pos hover, after_create_custom_node_bind]
        exact Effect.started hplan (hcustom _ _)
      · have hplan : plan .workflow dir w.subject sub =
            some (rule_plan dir rule w.subject sub.submitter) := by
          simp [plan, hrule, hover]
        rw [if_neg hover]
        unfold create_nodes
        rw [after_create_nodes_bind]
        split
        · exact Effect.started hplan ‹_›
        · exact Effect.broken hplan (Bool.eq_false_of_not_eq_true ‹_›)

/-- Every call has its effect. -/
theorem effect (hw : w.Laid) (c : Call) : Effect e w c (w.next e c) := by
  by_cases hpermitted : Permitted e w c
  swap
  · rw [next_of_not_permitted hw hpermitted]
    exact .stopped hpermitted
  cases c with
  | start_approval dir sub => exact effect_start_approval dir sub
  | approve i approver reason now =>
    obtain ⟨a, n, hat, hcandidate, hfirst⟩ := hpermitted
    have hlt := (List.getElem?_eq_some_iff.mp hat.current).1
    rw [next_approve hat (hw a (List.mem_of_getElem? hat.stored)) hcandidate hfirst]
    split
    · split
      · exact .granted hat hcandidate hfirst ‹_› (by omega)
      · exact .passed hat hcandidate hfirst ‹_› (by omega)
    · exact .recorded hat hcandidate hfirst (Bool.eq_false_of_not_eq_true ‹_›)
  | reject i approver reason now =>
    obtain ⟨a, n, hat, hcandidate, hfirst⟩ := hpermitted
    have hlaid := hw a (List.mem_of_getElem? hat.stored)
    simp only [next, reject]
    rw [after_checked hat hlaid (node_to_decide_eq_ok.mpr ⟨hat.current, hcandidate, hfirst⟩),
      after_save_node_bind, hat.save_node hlaid ((n.add_record _).finish _ _) (Eq.refl n.id),
      after_save_instance_bind, hat.save_instance]
    exact .rejected hat hcandidate hfirst
  | cancel i operator now =>
    obtain ⟨a, ha, hpending, hmay⟩ := hpermitted
    simp only [next, cancel]
    rw [after_get_pending_bind, ha]
    simp only [hpending, hmay, if_true, Bool.not_true, Bool.false_eq_true, if_false]
    rw [after_save_instance_bind, after_set_subject_status_bind, modify_eq_set _ ha]
    exact .cancelled ha hpending hmay
  | delegate dir i approver to_user_id reason now =>
    obtain ⟨a, n, to_user, hat, hcandidate, huser⟩ := hpermitted
    rw [next_delegate hat (hw a (List.mem_of_getElem? hat.stored)) hcandidate huser]
    exact .delegated hat hcandidate huser
  | add_sign dir i approver user_ids reason now =>
    obtain ⟨a, n, hat, hcandidate⟩ := hpermitted
    have hlaid := hw a (List.mem_of_getElem? hat.stored)
    simp only [next, add_sign]
    rw [after_checked hat hlaid (node_to_extend_eq_ok.mpr ⟨hat.current, hcandidate⟩),
      after_save_node_bind, hat.save_node hlaid _ (by cases e <;> rfl)]
    exact .extended hat hcandidate

/-- The nodes stay in their order. -/
theorem laid_next (hw : w.Laid) (c : Call) : (w.next e c).Laid := by
  have hput : ∀ {i : Nat} {a : Approval} {n : NodeExecution} (row : Instance)
    (n' : NodeExecution), w.At i a n →
      n'.id = n.id → n'.step_order = n.step_order → (w.put i a row n').Laid := by
    intro i a n row n' hat hid horder b hb
    obtain hb | rfl := List.mem_or_eq_of_mem_set hb
    · exact hw b hb
    · exact (hw a (List.mem_of_getElem? hat.stored)).set hat.current hid horder
  have hadd : ∀ {dir : Directory} {sub : Submission} {p : Plan} (row : Instance),
    plan e dir w.subject sub = some p →
      (w.add row (created 0 p.nodes)).Laid := by
    intro dir sub p row hplan b hb
    obtain hb | hb := List.mem_append.mp hb
    · exact hw b hb
    · obtain rfl := List.mem_singleton.mp hb
      exact ⟨fun k n hn => (id_of_created hn).trans (Nat.zero_add k),
        created_sorted (plan_sorted hplan)⟩
  have heffect := effect (e := e) hw c
  generalize w.next e c = w' at heffect
  cases heffect with
  | stopped => exact hw
  | recorded hat => exact hput _ _ hat rfl rfl
  | passed hat => exact hput _ _ hat rfl rfl
  | granted hat => exact hput _ _ hat rfl rfl
  | rejected hat => exact hput _ _ hat rfl rfl
  | delegated hat => exact hput _ _ hat (by cases e <;> rfl) (by cases e <;> rfl)
  | extended hat => exact hput _ _ hat (by cases e <;> rfl) (by cases e <;> rfl)
  | cancelled happroval =>
    intro b hb
    obtain hb | rfl := List.mem_or_eq_of_mem_set hb
    · exact hw b hb
    · have ha := hw _ (List.mem_of_getElem? happroval)
      exact ⟨ha.ids, ha.sorted⟩
  | not_needed => exact hw
  | started hplan => exact hadd _ hplan
  | broken hplan => exact hadd _ hplan

end

end taurus.approval
