import Taurus.Approval.Progress

namespace taurus.approval

open taurus.lib taurus.lib.transition taurus.python taurus.engine taurus.engine.runner

variable {e : Engine} {w w' : World} {i : Nat} {a a' : Approval} {n : NodeExecution}

/-- A node that its candidates can still complete. -/
structure NodeExecution.Open (n : NodeExecution) : Prop where
  ballot : n.Ballot
  nonempty : n.candidate_approvers ≠ []
  distinct : n.approval_mode = .all → n.candidate_ids.Nodup
  unsatisfied : _is_node_approved n = false

namespace NodeExecution.Open

/-- A fresh node with candidates is open, in the mode `all` with different ones. -/
theorem of_fresh (hstatus : n.status = .pending) (hrecords : n.approval_records = [])
    (hnonempty : n.candidate_approvers ≠ [])
    (hdistinct : n.approval_mode = .all → n.candidate_ids.Nodup) : n.Open where
  ballot := .of_fresh hstatus hrecords
  nonempty := hnonempty
  distinct := hdistinct
  unsatisfied := by
    have happrovers : n.approvers = [] := by simp [approvers, hrecords]
    apply Bool.eq_false_of_not_eq_true
    rw [is_node_approved_iff, happrovers]
    cases n.approval_mode <;> simp [hnonempty]

/-- Extending a node keeps it open. -/
theorem extended {n' : NodeExecution} (h : n.Open) (hext : n.Extends n') : n'.Open := by
  obtain ⟨new, hids, hnew, hfresh⟩ := hext.candidate_ids
  have hlength : n'.candidate_approvers.length = n.candidate_approvers.length + new.length := by
    have := congrArg List.length hids
    rwa [List.length_append, length_candidate_ids, length_candidate_ids] at this
  have hpos := List.length_pos_iff.mpr h.nonempty
  refine ⟨h.ballot.extended hext, ?_, ?_, ?_⟩
  · apply List.length_pos_iff.mp
    omega
  · intro hmode
    rw [hids]
    apply List.nodup_append.mpr ⟨h.distinct (hext.approval_mode ▸ hmode), hnew, ?_⟩
    rintro id hid _ hid' rfl
    exact hfresh id hid' hid
  · have hopen : ¬_is_node_approved n = true := by simp [h.unsatisfied]
    apply Bool.eq_false_of_not_eq_true
    rw [is_node_approved_iff] at hopen ⊢
    rw [hext.approval_mode, hext.approvers]
    cases hmode : n.approval_mode with
    | any => simpa [hmode] using hopen
    | first => simpa [hmode] using hopen
    | all =>
      simp only [hmode, h.nonempty, not_and, ne_eq, not_false_eq_true, not_true, imp_false] at hopen
      rintro ⟨hle, _⟩
      omega

/-- Somebody may approve the node. -/
theorem exists_missing (h : n.Open) : ∃ id, id ∈ n.missing := by
  have hopen : ¬_is_node_approved n = true := by simp [h.unsatisfied]
  by_cases hmode : n.approval_mode = .all
  · rw [h.ballot.approved_iff_countersigned hmode (h.distinct hmode) h.nonempty] at hopen
    unfold Countersigned at hopen
    obtain ⟨id, hid, hlate⟩ : ∃ id ∈ n.candidate_ids, id ∉ n.approvers := by
      simpa only [not_forall, exists_prop] using hopen
    exact ⟨id, mem_missing.mpr ⟨hid, hlate⟩⟩
  · have happrovers : n.approvers = [] := by
      rw [is_node_approved_iff] at hopen
      cases hm : n.approval_mode with
      | any => simpa [hm] using hopen
      | first => simpa [hm] using hopen
      | all => exact absurd hm hmode
    obtain ⟨c, hc⟩ := List.exists_mem_of_ne_nil _ h.nonempty
    refine ⟨c.user_id, mem_missing.mpr ⟨List.mem_map_of_mem hc, ?_⟩⟩
    rw [happrovers]
    exact List.not_mem_nil

end NodeExecution.Open

/-- A pending instance has a current node, and that node and all later ones can be completed. -/
def Approval.Live (a : Approval) : Prop :=
  a.row.status = .pending → a.row.current_node_index < a.nodes.length ∧
    ∀ k n, a.row.current_node_index ≤ k → a.nodes[k]? = some n → n.Open

namespace Approval.Live

/-- The current node is replaced and stays open. -/
theorem put {n' : NodeExecution} {row : Instance} (h : a.Live) (hat : a.At n)
    (hindex : row.current_node_index = a.row.current_node_index) (hopen : n'.Open) :
    (a.put row n').Live := by
  intro _
  obtain ⟨hlt, hnodes⟩ := h hat.pending
  refine ⟨?_, fun k m hk hm => ?_⟩
  · change row.current_node_index < (a.nodes.set _ _).length
    rw [List.length_set]
    omega
  · simp only [Approval.put] at hk hm
    rw [List.getElem?_set] at hm
    split at hm
    · exact Option.some.inj hm ▸ hopen
    · exact hnodes k m (hindex ▸ hk) hm

/-- A decided approval is live. -/
theorem of_decided (hdecided : a.row.status ≠ .pending) : a.Live := fun hc => absurd hc hdecided

/-- Progress keeps an approval live. -/
theorem progress (h : a.Live) (hprogress : a.Progress a') : a'.Live := by
  cases hprogress with
  | same => exact h
  | @recorded n user reason now hat hcandidate hfirst hopen =>
    have hn := (h hat.pending).2 _ n (Nat.le_refl _) hat.current
    exact h.put hat rfl ⟨hn.ballot.approve hcandidate hfirst, hn.nonempty, hn.distinct, hopen⟩
  | @passed n user reason now hat hcandidate hfirst happroved hnext =>
    intro _
    obtain ⟨hlt, hnodes⟩ := h hat.pending
    refine ⟨?_, fun k m hk hm => ?_⟩
    · change a.row.current_node_index + 1 < (a.nodes.set _ _).length
      rw [List.length_set]
      exact hnext
    · change a.row.current_node_index + 1 ≤ k at hk
      have hm : a.nodes[k]? = some m := (List.getElem?_set_ne (by omega)).symm.trans hm
      exact hnodes k m (by omega) hm
  | granted => exact of_decided fun hc => by cases hc
  | rejected => exact of_decided fun hc => by cases hc
  | cancelled => exact of_decided fun hc => by cases hc
  | extended hat hextends =>
    have hn := (h hat.pending).2 _ _ (Nat.le_refl _) hat.current
    exact h.put hat rfl (hn.extended hextends)

end Approval.Live

/-- An approval of instance `i` by a candidate of its current node. -/
def ApprovesAt (i : Nat) (w : World) (c : Call) : Prop :=
  ∃ a n user reason now, c = .approve i user reason now ∧ w.At i a n ∧
  _is_user_approver n user = true

/-- Its candidates can turn a live pending instance approved. -/
theorem grantable {left size : Nat} (hw : w.Laid) (hlive : a.Live) (hat : w.At i a n)
    (hleft : a.nodes.length - a.row.current_node_index = left) (hsize : n.missing.length = size) :
    ∃ w', Runs (step e) (ApprovesAt i) w w' ∧ ∃ a', w'.approvals[i]? = some a' ∧
      a'.row.status = .approved := by
  induction left using Nat.strong_induction_on generalizing w a n size with
  | _ left ihleft =>
    induction size using Nat.strong_induction_on generalizing w a n with
    | _ size ihsize =>
      have hi := (List.getElem?_eq_some_iff.mp hat.stored).1
      have hk := (List.getElem?_eq_some_iff.mp hat.current).1
      have hopen := (hlive hat.pending).2 _ n (Nat.le_refl _) hat.current
      obtain ⟨id, hmissing⟩ := hopen.exists_missing
      obtain ⟨user, rfl, hpermitted, hfirst⟩ := hopen.ballot.permits hmissing
      have hc : ApprovesAt i w (.approve i user "" 0) := ⟨a, n, user, "", 0, rfl, hat, hpermitted⟩
      have hnext :=
        next_approve (e := e) hat (hw a (List.mem_of_getElem? hat.stored)) hpermitted hfirst "" 0
      let n' := n.add_record (user.record .approve "" 0)
      cases happroved : _is_node_approved n' with
      | false =>
        -- the node needs more approvals: one fewer is missing
        rw [if_neg (by simp [n', happroved])] at hnext
        have hlive' : (a.put a.row n').Live :=
          hlive.progress (.recorded hat.local hpermitted hfirst happroved)
        have hat' : (w.put i a a.row n').At i (a.put a.row n') n' :=
          ⟨World.put_getElem? hi, hat.pending, List.getElem?_set_self hk⟩
        have hless : n'.missing.length < size := hsize ▸ NodeExecution.missing_add_approval hmissing
        have hleft' : (a.put a.row n').nodes.length -
            (a.put a.row n').row.current_node_index = left := by
          rw [← hleft]
          exact congrArg (· - a.row.current_node_index) List.length_set
        obtain ⟨w', hruns, ha'⟩ := ihsize _ hless (hnext ▸ laid_next hw _) hlive' hat' hleft' rfl
        exact ⟨w', .head hc (congrArg some hnext) hruns, ha'⟩
      | true =>
        rw [if_pos happroved] at hnext
        by_cases hlast : a.nodes.length ≤ a.row.current_node_index + 1
        · rw [if_pos hlast] at hnext
          exact ⟨_, .head hc (congrArg some hnext) (.refl _), _, World.put_getElem? hi, rfl⟩
        · -- the next node is the current one
          rw [if_neg hlast] at hnext
          have hlt : a.row.current_node_index + 1 < a.nodes.length := by omega
          let row := a.row.move_to (a.row.current_node_index + 1)
          have hlive' : (a.put row (n'.finish .approved 0)).Live :=
            hlive.progress (.passed hat.local hpermitted hfirst happroved hlt)
          have hat' : (w.put i a row (n'.finish .approved 0)).At i
            (a.put row (n'.finish .approved 0))
              a.nodes[a.row.current_node_index + 1] := by
            refine ⟨World.put_getElem? hi, hat.pending, ?_⟩
            change (a.nodes.set a.row.current_node_index _)[a.row.current_node_index + 1]? = _
            rw [List.getElem?_set_ne (by omega)]
            exact List.getElem?_eq_getElem _
          have hleft' : (a.put row (n'.finish .approved 0)).nodes.length - row.current_node_index < left := by
            have : (a.put row (n'.finish .approved 0)).nodes.length = a.nodes.length :=
              List.length_set
            have : row.current_node_index = a.row.current_node_index + 1 := rfl
            omega
          obtain ⟨w', hruns, ha'⟩ := ihleft _ hleft' (hnext ▸ laid_next hw _) hlive' hat' rfl rfl
          exact ⟨w', .head hc (congrArg some hnext) hruns, ha'⟩

namespace Directory

variable (dir : Directory)

/-- The ids of a list that belong to users. -/
def known (uid_list : List Json) : List Int :=
  (uid_list.filterMap int_of?).filter fun uid => dir.users.any (·.id = uid)

/-- The candidates are the known users of the list. -/
theorem ids_build_user_candidates (uid_list : List Json) :
    (dir._build_user_candidates uid_list).map (·.user_id) = dir.known uid_list := by
  unfold _build_user_candidates known
  rw [List.map_filterMap]
  simp only [Option.map_map]
  generalize uid_list.filterMap int_of? = uids
  induction uids with
  | nil => rfl
  | cons uid rest ih =>
    cases hfind : dir.users.find? (·.id = uid) with
    | none =>
      have hany : dir.users.any (·.id = uid) = false := by
        simpa [List.any_eq_false] using List.find?_eq_none.mp hfind
      simp [hfind, hany, ih]
    | some u =>
      have hid : u.id = uid := by simpa using List.find?_some hfind
      have hany : dir.users.any (·.id = uid) = true :=
        List.any_eq_true.mpr ⟨u, List.mem_of_find?_eq_some hfind, by simpa using hid⟩
      simp [hfind, hany, ih, User.candidate, hid]

/-- There are none exactly when no user of the list is known. -/
theorem build_user_candidates_eq_nil {uid_list : List Json} :
    dir._build_user_candidates uid_list = [] ↔ dir.known uid_list = [] := by
  rw [← ids_build_user_candidates, List.map_eq_nil_iff]

theorem known_append (xs ys : List Json) : dir.known (xs ++ ys) = dir.known xs ++ dir.known ys := by
  simp [known]

end Directory

/-- Somebody is named who has an account, or there is a superuser; and no countersigner stands
twice. -/
def CustomReviewable (dir : Directory) (subject : Subject) (override : Option Override) : Prop :=
  let given := override.getD {}
  (dir.known given.countersign_ids).Nodup ∧
    (dir.known (given.approver_ids ++ given.countersign_ids ++ subject.custom_approver_ids ++
        (_extract_graph_approvers subject).1) ≠ [] ∨
      ∃ u ∈ dir.users, u.is_superuser = true)

/-- A user who may review the node. -/
def HasReviewer (dir : Directory) (subject : Subject) (submitter : User) (node : RuleNode) : Prop :=
  match node.approver_type with
  | .category_reviewer => ∃ category, dir.category? subject.category_id = some category ∧
      ∃ u ∈ dir.users, u.id ∈ category.reviewers
  | .specific_users => ∃ u ∈ dir.users, u.id ∈ node.approver_config.user_ids
  | .role => ∃ roles, dir.roles = some roles ∧
      ∃ u ∈ dir.users, ∃ code ∈ roles u.id, code ∈ node.approver_config.role_codes
  | .submitter_manager =>
    ∃ manager, dir._get_manager_by_levels submitter node.approver_config.levels = some manager

/-- The nodes that can be created: a node for roles raises when users have no roles, and with
it all later nodes are missing. -/
def creatable (dir : Directory) (rule : Rule) : List RuleNode :=
  rule.ordered_nodes.takeWhile fun node => node.approver_type ≠ .role || dir.roles.isSome

def RuleReviewable (dir : Directory) (subject : Subject) (submitter : User) (rule : Rule) : Prop :=
  creatable dir rule ≠ [] ∧ ∀ node ∈ creatable dir rule, HasReviewer dir subject submitter node

/-- The reviewers that a start needs. -/
def Reviewable (e : Engine) (dir : Directory) (subject : Subject) (sub : Submission) : Prop :=
  match e, sub.rule with
  | .script, none => subject.need_audit = true → ∃ u ∈ dir.users, u.is_superuser = true
  | .script, some rule => RuleReviewable dir subject sub.submitter rule
  | .workflow, none =>
    WorkflowApprovalFlowEngine.needs_approval dir subject = true →
      CustomReviewable dir subject sub.override_approvers
  | .workflow, some rule =>
    if WorkflowApprovalFlowEngine.overrides sub then
      CustomReviewable dir subject sub.override_approvers
    else RuleReviewable dir subject sub.submitter rule

/-- A node with a reviewer gets different candidates, and at least one. -/
theorem candidates_of_hasReviewer {dir : Directory} {subject : Subject} {submitter : User}
    {node : RuleNode} (h : HasReviewer dir subject submitter node) : ∃ candidates,
      dir._get_candidate_approvers node subject submitter = .ok candidates ∧ candidates ≠ [] ∧
        (candidates.map (·.user_id)).Nodup := by
  have hnodup : ∀ p : User → Bool,
    (((dir.users.filter p).map User.candidate).map (·.user_id)).Nodup := by
    intro p
    rw [List.map_map]
    exact dir.ids_nodup.sublist (List.filter_sublist.map _)
  unfold HasReviewer at h
  unfold Directory._get_candidate_approvers
  cases htype : node.approver_type with
  | category_reviewer =>
    simp only [htype] at h
    obtain ⟨category, hcategory, u, hu, hid⟩ := h
    simp only [hcategory]
    refine ⟨_, rfl, ?_, hnodup _⟩
    exact List.ne_nil_of_mem (List.mem_map_of_mem (List.mem_filter.mpr ⟨hu, by simpa using hid⟩))
  | specific_users =>
    simp only [htype] at h
    obtain ⟨u, hu, hid⟩ := h
    refine ⟨_, rfl, ?_, hnodup _⟩
    exact List.ne_nil_of_mem (List.mem_map_of_mem (List.mem_filter.mpr ⟨hu, by simpa using hid⟩))
  | role =>
    simp only [htype] at h
    obtain ⟨roles, hroles, u, hu, code, hcode, hin⟩ := h
    simp only [hroles]
    refine ⟨_, rfl, ?_, hnodup _⟩
    apply List.ne_nil_of_mem (List.mem_map_of_mem (List.mem_filter.mpr ⟨hu, ?_⟩))
    exact List.any_eq_true.mpr ⟨code, hcode, by simpa using hin⟩
  | submitter_manager =>
    simp only [htype] at h
    obtain ⟨manager, hmanager⟩ := h
    simp only [hmanager]
    exact ⟨_, rfl, List.cons_ne_nil _ _, List.nodup_singleton _⟩

/-- Nodes behind the first that cannot be created do not count. -/
theorem created_takeWhile {k : Nat} {f : RuleNode → Except Error NodeExecution}
    {p : RuleNode → Bool} (hp : ∀ node, p node = false → ∃ err, f node = .error err)
    (nodes : List RuleNode) :
    created k (nodes.map f) = created k ((nodes.takeWhile p).map f) := by
  induction nodes generalizing k with
  | nil => rfl
  | cons node rest ih =>
    cases hnode : p node with
    | false =>
      obtain ⟨err, herr⟩ := hp node hnode
      simp [hnode, herr, created]
    | true =>
      rw [List.takeWhile_cons_of_pos hnode, List.map_cons, List.map_cons]
      cases f node with
      | error err => rfl
      | ok n => simp only [created, ih]

/-- What a plan creates can be completed, when each of its nodes is there and can. -/
theorem live_of_plan {row : Instance} {nodes : List (Except Error NodeExecution)}
    (hindex : row.current_node_index = 0) (hne : nodes ≠ [])
    (hnodes : ∀ x ∈ nodes, ∃ n, x = .ok n ∧ n.status = .pending ∧ n.approval_records = [] ∧
      n.candidate_approvers ≠ [] ∧ (n.approval_mode = .all → n.candidate_ids.Nodup)) :
    ({ row, nodes := created 0 nodes } : Approval).Live := by
  intro _
  constructor
  · obtain ⟨x, rest, rfl⟩ := List.exists_cons_of_ne_nil hne
    obtain ⟨n, rfl, _⟩ := hnodes x List.mem_cons_self
    change row.current_node_index < (created 0 (.ok n :: rest)).length
    rw [hindex]
    exact Nat.zero_lt_succ _
  · intro k n _ hn
    obtain ⟨m, hm, hnm⟩ := mem_created (List.mem_of_getElem? hn)
    obtain ⟨m', hmm', hstatus, hrecords, hnonempty, hdistinct⟩ := hnodes _ hm
    obtain rfl := Except.ok.inj hmm'
    rw [hnm]
    exact .of_fresh hstatus hrecords hnonempty hdistinct

/-- A review by a rule is live when each of its nodes has a reviewer. -/
theorem live_of_rule {dir : Directory} {subject : Subject} {submitter : User} {rule : Rule}
    {row : Instance} (hindex : row.current_node_index = 0)
    (h : RuleReviewable dir subject submitter rule) :
    ({ row, nodes := created 0 (rule_plan dir rule subject submitter).nodes } : Approval).Live := by
  obtain ⟨hne, hreviewers⟩ := h
  have hcreatable : created 0 (rule_plan dir rule subject submitter).nodes =
    created 0 ((creatable dir rule).map
      fun node => (dir._get_candidate_approvers node subject submitter).map node.execution) := by
    apply created_takeWhile
    intro node hnode
    simp only [Bool.or_eq_false_iff, decide_eq_false_iff_not, not_not, Option.isSome_eq_false_iff,
      Option.isNone_iff_eq_none] at hnode
    refine ⟨.FieldError, ?_⟩
    simp only [Directory._get_candidate_approvers, hnode]
    rfl
  rw [hcreatable]
  apply live_of_plan hindex
  · exact fun hc => hne (List.map_eq_nil_iff.mp hc)
  · intro x hx
    obtain ⟨node, hnode, rfl⟩ := List.mem_map.mp hx
    obtain ⟨candidates, hcandidates, hnonempty, hnodup⟩ :=
      candidates_of_hasReviewer (hreviewers node hnode)
    rw [hcandidates]
    exact ⟨_, rfl, rfl, rfl, hnonempty, fun _ => hnodup⟩

theorem custom_approvers_all {dir : Directory} {subject : Subject} {override : Option Override} :
    (custom_approvers dir subject override).2.1 =
      dir._build_user_candidates (override.getD {}).countersign_ids := by
  unfold custom_approvers
  dsimp only
  split <;> rfl

/-- Without a single known approver the fallbacks found none either. -/
theorem known_of_custom_approvers_nil {dir : Directory} {subject : Subject}
    {override : Option Override} (hany : (custom_approvers dir subject override).1 = [])
    (hall : (custom_approvers dir subject override).2.1 = []) :
    dir.known ((override.getD {}).approver_ids ++ (override.getD {}).countersign_ids ++
      subject.custom_approver_ids ++
      (_extract_graph_approvers subject).1) = [] := by
  rw [custom_approvers_all] at hall
  have happrovers : dir._build_user_candidates (override.getD {}).approver_ids = [] := by
    unfold custom_approvers at hany
    dsimp only at hany
    split at hany
    · exact ‹_ ∧ _›.1
    · exact hany
  have hfallback : dir._build_user_candidates subject.custom_approver_ids = [] ∧
      dir._build_user_candidates (_extract_graph_approvers subject).1 = [] := by
    unfold custom_approvers at hany
    simp only [happrovers, hall, and_self, if_true] at hany
    unfold fallback_approvers at hany
    dsimp only at hany
    split at hany
    · exact absurd hany ‹_›
    · split at hany
      · exact absurd hany ‹_›
      · exact ⟨not_not.mp ‹_›, not_not.mp ‹_›⟩
  simp only [Directory.known_append, List.append_eq_nil_iff,
    ← Directory.build_user_candidates_eq_nil]
  exact ⟨⟨⟨happrovers, hall⟩, hfallback.1⟩, hfallback.2⟩

/-- A review by picked approvers is live when they are known. -/
theorem live_of_custom {dir : Directory} {subject : Subject} {override : Option Override}
    {rule_name : String} {row : Instance} (hindex : row.current_node_index = 0)
    (h : CustomReviewable dir subject override) :
    ({ row, nodes := created 0 (custom_plan dir subject override rule_name).nodes } : Approval).Live := by
  obtain ⟨hnodup, hsomebody⟩ := h
  have hall : ((custom_approvers dir subject override).2.1.map (·.user_id)).Nodup := by
    rw [custom_approvers_all, Directory.ids_build_user_candidates]
    exact hnodup
  have hadmin : (custom_approvers dir subject override).1 = [] →
    (custom_approvers dir subject override).2.1 = [] →
      dir._get_default_admin_approvers ≠ [] := by
    intro hany hall
    obtain ⟨u, hu, hsuper⟩ :=
      hsomebody.resolve_left (not_not.mpr (known_of_custom_approvers_nil hany hall))
    exact List.ne_nil_of_mem (List.mem_map_of_mem (List.mem_filter.mpr ⟨hu, hsuper⟩))
  unfold custom_plan custom_nodes
  generalize custom_approvers dir subject override = approvers at hall hadmin
  obtain ⟨any_cand, all_cand, mode⟩ := approvers
  dsimp only at hall hadmin ⊢
  apply live_of_plan hindex
  · by_cases hany : any_cand = [] <;> by_cases hall : all_cand = [] <;> simp [hany, hall]
  · intro x hx
    obtain ⟨n, hn, rfl⟩ := List.mem_map.mp hx
    refine ⟨n, rfl, ?_⟩
    simp only [List.mem_append] at hn
    obtain (hn | hn) | hn := hn
    · split at hn
      · obtain rfl := List.mem_singleton.mp hn
        exact ⟨rfl, rfl, ‹_›, fun hc => by cases hc⟩
      · cases hn
    · split at hn
      · obtain rfl := List.mem_singleton.mp hn
        exact ⟨rfl, rfl, ‹_›, fun _ => hall⟩
      · cases hn
    · split at hn
      · obtain rfl := List.mem_singleton.mp hn
        exact ⟨rfl, rfl, hadmin ‹_ ∧ _›.1 ‹_ ∧ _›.2, fun hc => by cases hc⟩
      · cases hn

/-- A reviewable submission starts a live review. -/
theorem live_of_reviewable {dir : Directory} {subject : Subject} {sub : Submission} {p : Plan}
    {row : Instance} (hindex : row.current_node_index = 0) (h : Reviewable e dir subject sub)
    (hplan : plan e dir subject sub = some p) :
    ({ row, nodes := created 0 p.nodes } : Approval).Live := by
  unfold plan at hplan
  unfold Reviewable at h
  cases e with
  | script =>
    cases hrule : sub.rule with
    | none =>
      simp only [hrule, Option.ite_none_right_eq_some, Option.some.injEq] at h hplan
      obtain ⟨hneed, rfl⟩ := hplan
      obtain ⟨u, hu, hsuper⟩ := h hneed
      apply live_of_plan hindex (List.cons_ne_nil _ _)
      intro x hx
      obtain rfl := List.mem_singleton.mp hx
      refine ⟨_, rfl, rfl, rfl, ?_, fun hc => by cases hc⟩
      exact List.ne_nil_of_mem (List.mem_map_of_mem (List.mem_filter.mpr ⟨hu, hsuper⟩))
    | some rule =>
      simp only [hrule, Option.some.injEq] at h hplan
      subst hplan
      exact live_of_rule hindex h
  | workflow =>
    cases hrule : sub.rule with
    | none =>
      simp only [hrule, Option.ite_none_right_eq_some, Option.some.injEq] at h hplan
      obtain ⟨hneed, rfl⟩ := hplan
      exact live_of_custom hindex (h hneed)
    | some rule =>
      simp only [hrule] at h hplan
      by_cases hover : WorkflowApprovalFlowEngine.overrides sub = true
      · rw [if_pos hover] at h hplan
        obtain rfl := Option.some.inj hplan
        exact live_of_custom hindex h
      · rw [if_neg hover] at h hplan
        obtain rfl := Option.some.inj hplan
        exact live_of_rule hindex h

/-- Every start on the way finds reviewers. -/
def Startable (e : Engine) (w : World) : Call → Prop
  | .start_approval dir sub => Reviewable e dir w.subject sub
  | .approve _ _ _ _ | .reject _ _ _ _ | .cancel _ _ _ | .delegate _ _ _ _ _ _ | .add_sign _ _ _ _ _ _ => True

/-- A request keeps all reviews live. -/
theorem live_next (hw : w.Laid) (hlive : ∀ a ∈ w.approvals, a.Live) {c : Call}
    (hc : Startable e w c) :
    ∀ a ∈ (w.next e c).approvals, a.Live := by
  intro a' ha'
  obtain ⟨i, hi⟩ := List.mem_iff_getElem?.mp ha'
  obtain ⟨a, ha, hprogress⟩ | ⟨_, dir, sub, p, rfl, hplan, rfl⟩ := stored_or_started hw hi
  · exact (hlive a (List.mem_of_getElem? ha)).progress hprogress
  · exact live_of_reviewable rfl hc hplan

/-- As long as every start finds reviewers, each pending instance has a current node which is not
satisfied, and its candidates can turn it approved. -/
theorem pending_decidable {subject : Subject} (hruns : Runs (step e) (Startable e) { subject } w)
    (ha : w.approvals[i]? = some a) (hpending : a.row.status = .pending) :
    a.row.current_node_index < a.nodes.length ∧
      ∃ n, w.At i a n ∧ _is_node_approved n = false ∧ n.candidate_approvers ≠ [] ∧
        ∃ w', Runs (step e) (ApprovesAt i) w w' ∧ ∃ a', w'.approvals[i]? = some a' ∧
          a'.row.status = .approved := by
  have hinvariant := hruns.invariant (I := fun w => w.Laid ∧ ∀ a ∈ w.approvals, a.Live) ?_ ⟨?_, ?_⟩
  · obtain ⟨hw, hlive⟩ := hinvariant
    have hliveAt := hlive a (List.mem_of_getElem? ha)
    obtain ⟨hlt, hnodes⟩ := hliveAt hpending
    have hcurrent := List.getElem?_eq_getElem hlt
    have hat : w.At i a a.nodes[a.row.current_node_index] := ⟨ha, hpending, hcurrent⟩
    have hopen := hnodes _ _ (Nat.le_refl _) hcurrent
    exact ⟨hlt, _, hat, hopen.unsatisfied, hopen.nonempty, grantable hw hliveAt hat rfl rfl⟩
  · rintro s c s' ⟨hw, hlive⟩ hc hstep
    obtain rfl := Option.some.inj hstep
    exact ⟨laid_next hw c, live_next hw hlive hc⟩
  · exact fun a ha => by cases ha
  · exact fun a ha => by cases ha

/-! A rule without a step, and one whose step finds a reviewer. -/

def review_rule (nodes : List RuleNode) : Submission where
  rule := some { name := "review", nodes }
  submitter := { id := 1, username := "alice", name := "Alice" }

def office : Directory where
  users :=
    [{ id := 1, username := "alice", name := "Alice" },
      { id := 2, username := "bob", name := "Bob" }]
  ids_nodup := by decide

def deploy_script : Subject := { status := .enabled, version := "V1.0" }

def bobs_review : Submission :=
  review_rule [{ node_name := "Security review", approver_type := .specific_users, approver_config := { user_ids := [2] } }]

theorem bobs_review_startable :
    Startable .script { subject := deploy_script } (.start_approval office bobs_review) := by
  refine ⟨?_, fun node hnode => ?_⟩
  · decide
  · have hnode : node ∈ [_] := hnode
    obtain rfl := List.mem_singleton.mp hnode
    exact ⟨_, List.mem_cons_of_mem _ List.mem_cons_self, by decide⟩

theorem bobs_review_decidable :
    ∃ a, (World.next .script { subject := deploy_script }
      (.start_approval office bobs_review)).approvals[0]? = some a ∧
      a.row.status = .pending ∧ a.row.current_node_index < a.nodes.length := by
  refine ⟨_, rfl, rfl, ?_⟩
  have hruns : Runs (step .script) (Startable .script) { subject := deploy_script }
      (World.next .script { subject := deploy_script } (.start_approval office bobs_review)) :=
    .head bobs_review_startable rfl (.refl _)
  exact (pending_decidable (i := 0) hruns rfl rfl).1

/-- The rule has no nodes: the instance is pending without a current node. -/
theorem rule_without_nodes_pending :
    ∃ a, (World.next .script { subject := deploy_script }
      (.start_approval office (review_rule []))).approvals[0]? = some a ∧
      a.row.status = .pending ∧ ¬a.row.current_node_index < a.nodes.length :=
  ⟨_, rfl, rfl, Nat.lt_irrefl 0⟩

end taurus.approval
