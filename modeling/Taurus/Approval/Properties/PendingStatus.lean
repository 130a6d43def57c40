import Taurus.Approval.Progress

namespace taurus.approval

open taurus.lib taurus.lib.transition taurus.python taurus.engine

variable {e : Engine} {w w' : World} {i j : Nat} {a : Approval} {n : NodeExecution}
  {dir : Directory} {sub : Submission}

/-- The subject is pending exactly when one of its instances is. -/
def Tracks (w : World) : Prop := w.subject.status = .pending_approval ↔ ∃ i, w.Pending i

/-- The approval completes the last node. -/
def Grants (w : World) (i : Nat) (user : User) (reason : String) (now : Time) : Prop :=
  ∃ a n, w.At i a n ∧ _is_user_approver n user = true ∧ has_decided n user = false ∧
    _is_node_approved (n.add_record (user.record .approve reason now)) = true ∧
    a.nodes.length = a.row.current_node_index + 1

/-- The submission is reviewed at all. -/
def Needed (e : Engine) (dir : Directory) (subject : Subject) (sub : Submission) : Prop :=
  sub.rule.isSome = true ∨
    match e with
    | .script => subject.need_audit = true
    | .workflow => WorkflowApprovalFlowEngine.needs_approval dir subject = true

/-- The rule asks for a role, which the users do not have. -/
def Raises (e : Engine) (dir : Directory) (sub : Submission) : Prop :=
  dir.roles = none ∧ ∃ rule, sub.rule = some rule ∧
    ¬(e = .workflow ∧ WorkflowApprovalFlowEngine.overrides sub = true) ∧
    ∃ node ∈ rule.nodes, node.approver_type = .role

/-- The calls that keep the status in step: no call ends a review while another one is pending,
a rejection leaves another one, and a start neither skips the review while one is pending nor
raises while none is. -/
def KeepsTrack (e : Engine) (w : World) : Call → Prop
  | .start_approval dir sub =>
    (¬Needed e dir w.subject sub → ∀ j, ¬w.Pending j) ∧ (Raises e dir sub → ∃ j, w.Pending j)
  | .approve i user reason now => Grants w i user reason now → ∀ j, w.Pending j → j = i
  | .reject i user reason now =>
    Permitted e w (.reject i user reason now) → ∃ j, j ≠ i ∧ w.Pending j
  | .cancel i operator now => Permitted e w (.cancel i operator now) → ∀ j, w.Pending j → j = i
  | .delegate _ _ _ _ _ _ | .add_sign _ _ _ _ _ _ => True

/-- Which approvals are pending once one is overwritten. -/
theorem pending_set {b : Approval} (hi : i < w.approvals.length) :
    ({ w with approvals := w.approvals.set i b } : World).Pending j ↔
      if j = i then b.row.status = .pending else w.Pending j := by
  unfold World.Pending
  by_cases hj : j = i
  · subst hj
    simp [List.getElem?_set_self hi]
  · simp only [List.getElem?_set_ne (Ne.symm hj), hj, if_false]

/-- Which are once the current node was decided. -/
theorem pending_put {row : Instance} (hat : w.At i a n) {n' : NodeExecution} :
    (w.put i a row n').Pending j ↔ if j = i then row.status = .pending else w.Pending j :=
  pending_set (List.getElem?_eq_some_iff.mp hat.stored).1

/-- Which are once one was started. -/
theorem pending_add {row : Instance} {nodes : List NodeExecution} (hrow : row.status = .pending) :
    (w.add row nodes).Pending j ↔ w.Pending j ∨ j = w.approvals.length := by
  unfold World.Pending World.add
  dsimp only
  obtain hj | rfl | hj := Nat.lt_trichotomy j w.approvals.length
  · rw [List.getElem?_append_left hj]
    simp [Nat.ne_of_lt hj]
  · simp [hrow]
  · have hnone : w.approvals[j]? = none := List.getElem?_eq_none (Nat.le_of_lt hj)
    have hnone' : (w.approvals ++ [({ row, nodes } : Approval)])[j]? = none := by
      apply List.getElem?_eq_none
      rw [List.length_append]
      exact hj
    simp [hnone, hnone', Nat.ne_of_gt hj]

theorem World.At.isPending (hat : w.At i a n) : w.Pending i := ⟨a, hat.stored, hat.pending⟩

/-- There is no plan exactly when no review is needed. -/
theorem plan_eq_none_iff {subject : Subject} :
    plan e dir subject sub = none ↔ ¬Needed e dir subject sub := by
  unfold plan Needed
  cases e with
  | script => cases sub.rule <;> simp
  | workflow =>
    cases sub.rule with
    | none => simp
    | some rule =>
      dsimp only
      split <;> simp

/-- Candidates cannot be found only for roles without a role table. -/
theorem candidates_isOk {node : RuleNode} {subject : Subject} {submitter : User} :
    (dir._get_candidate_approvers node subject submitter).isOk = false ↔
      node.approver_type = .role ∧ dir.roles = none := by
  unfold Directory._get_candidate_approvers
  cases node.approver_type with
  | role => cases dir.roles <;> simp [Except.isOk, Except.toBool]
  | category_reviewer =>
    cases dir.category? subject.category_id <;> simp [Except.isOk, Except.toBool]
  | specific_users => simp [Except.isOk, Except.toBool]
  | submitter_manager =>
    cases dir._get_manager_by_levels submitter node.approver_config.levels <;>
      simp [Except.isOk, Except.toBool]

/-- A plan raises exactly for such a node. -/
theorem plan_raises_iff {subject : Subject} {p : Plan} (hplan : plan e dir subject sub = some p) :
    p.nodes.all Except.isOk = false ↔ Raises e dir sub := by
  have hrule : ∀ rule, (rule_plan dir rule subject sub.submitter).nodes.all Except.isOk = false ↔
      dir.roles = none ∧ ∃ node ∈ rule.nodes, node.approver_type = .role := by
    intro rule
    have hmap : ∀ node : RuleNode,
      ((dir._get_candidate_approvers node subject sub.submitter).map node.execution).isOk =
        (dir._get_candidate_approvers node subject sub.submitter).isOk := by
      intro node
      cases dir._get_candidate_approvers node subject sub.submitter <;> rfl
    have hmem : ∀ node, node ∈ rule.ordered_nodes ↔ node ∈ rule.nodes := fun node =>
      (List.perm_insertionSort _ _).mem_iff
    simp only [rule_plan, List.all_eq_false, List.mem_map, hmem]
    constructor
    · rintro ⟨_, ⟨node, hnode, rfl⟩, herr⟩
      obtain ⟨hrole, hroles⟩ :=
        candidates_isOk.mp ((hmap node).symm.trans (Bool.eq_false_of_not_eq_true herr))
      exact ⟨hroles, node, hnode, hrole⟩
    · rintro ⟨hroles, node, hnode, hrole⟩
      refine ⟨_, ⟨node, hnode, rfl⟩, ?_⟩
      rw [hmap, candidates_isOk.mpr ⟨hrole, hroles⟩]
      exact Bool.false_ne_true
  have hcustom : ∀ name, (custom_plan dir subject sub.override_approvers name).nodes.all Except.isOk ≠ false := by
    intro name
    simp [custom_plan, Except.isOk, Except.toBool]
  unfold plan at hplan
  unfold Raises
  cases e with
  | script =>
    cases hsub : sub.rule with
    | none =>
      simp only [hsub, Option.ite_none_right_eq_some, Option.some.injEq] at hplan
      obtain ⟨_, rfl⟩ := hplan
      simp [Except.isOk, Except.toBool]
    | some rule =>
      simp only [hsub, Option.some.injEq] at hplan
      subst hplan
      simp [hrule]
  | workflow =>
    cases hsub : sub.rule with
    | none =>
      simp only [hsub, Option.ite_none_right_eq_some, Option.some.injEq] at hplan
      obtain ⟨_, rfl⟩ := hplan
      simp [hcustom]
    | some rule =>
      simp only [hsub] at hplan
      by_cases hover : WorkflowApprovalFlowEngine.overrides sub = true
      · rw [if_pos hover] at hplan
        obtain rfl := Option.some.inj hplan
        simp [hcustom, hover]
      · rw [if_neg hover] at hplan
        obtain rfl := Option.some.inj hplan
        simp [hrule, hover]

/-- An approval has one current node. -/
theorem World.At.unique {a' : Approval} {n' : NodeExecution} (hat : w.At i a n)
    (hat' : w.At i a' n') :
    a' = a ∧ n' = n := by
  obtain rfl := Option.some.inj (hat.stored.symm.trans hat'.stored)
  exact ⟨rfl, Option.some.inj (hat'.current.symm.trans hat.current)⟩

/-- The instance stays pending, and so does the subject. -/
theorem tracks_put {row : Instance} {n' : NodeExecution} (htracks : Tracks w) (hat : w.At i a n)
    (hrow : row.status = .pending) : Tracks (w.put i a row n') := by
  refine htracks.trans ?_
  apply exists_congr
  intro j
  rw [pending_put hat]
  by_cases hj : j = i
  · subst hj
    simp [hrow, hat.isPending]
  · simp [hj]

/-- The review of instance `i` ends. -/
theorem exists_pending_iff {s : World} (h : ∀ j, s.Pending j ↔ j ≠ i ∧ w.Pending j) :
    (¬∃ j, s.Pending j) ↔ ∀ j, w.Pending j → j = i := by
  simp only [h, not_exists, not_and]
  exact forall_congr' fun j => by rw [not_imp_comm, not_not]

/-- One call keeps the status in step exactly when it meets the condition. -/
theorem tracks_next_iff (hw : w.Laid) (htracks : Tracks w) (c : Call) :
    Tracks (w.next e c) ↔ KeepsTrack e w c := by
  have heffect := effect (e := e) hw c
  generalize w.next e c = w' at heffect
  cases heffect with
  | stopped hidle =>
    refine iff_of_true htracks ?_
    cases c with
    | start_approval dir sub => exact absurd trivial hidle
    | approve i user reason now =>
      rintro ⟨a, n, hat, hcandidate, hfirst, _⟩
      exact absurd ⟨a, n, hat, hcandidate, hfirst⟩ hidle
    | reject i user reason now => exact fun hpermitted => absurd hpermitted hidle
    | cancel i operator now => exact fun hpermitted => absurd hpermitted hidle
    | delegate => trivial
    | add_sign => trivial
  | recorded hat hcandidate hfirst hopen =>
    refine iff_of_true (tracks_put htracks hat hat.pending) ?_
    rintro ⟨a', n', hat', _, _, happroved, _⟩
    obtain ⟨rfl, rfl⟩ := hat.unique hat'
    rw [hopen] at happroved
    cases happroved
  | passed hat hcandidate hfirst happroved hnext =>
    refine iff_of_true (tracks_put htracks hat hat.pending) ?_
    rintro ⟨a', n', hat', _, _, _, hlast⟩
    obtain ⟨rfl, rfl⟩ := hat.unique hat'
    omega
  | @granted i a n user reason now hat hcandidate hfirst happroved hlast =>
    have hgrants : Grants w i user reason now := ⟨a, n, hat, hcandidate, hfirst, happroved, hlast⟩
    have hpending : ∀ j, (w.put i a (a.row.finish .approved now)
        ((n.add_record (user.record .approve reason now)).finish .approved now)).Pending j ↔
          j ≠ i ∧ w.Pending j := by
      intro j
      rw [pending_put hat]
      by_cases hj : j = i <;> simp [hj, Instance.finish]
    have hstatus : ¬SubjectStatus.enabled = .pending_approval := fun hc => by cases hc
    simp only [Tracks, World.set_status, hstatus, false_iff, KeepsTrack, hgrants, true_imp_iff]
    exact exists_pending_iff hpending
  | @rejected i a n user reason now hat hcandidate hfirst =>
    have hpermitted : Permitted e w (.reject i user reason now) := ⟨a, n, hat, hcandidate, hfirst⟩
    have hstatus : w.subject.status = .pending_approval := htracks.mpr ⟨i, hat.isPending⟩
    simp only [Tracks, World.put, hstatus, true_iff, KeepsTrack, hpermitted, true_imp_iff]
    apply exists_congr
    intro j
    change World.Pending (w.put i a _ _) j ↔ _
    rw [pending_put hat]
    by_cases hj : j = i <;> simp [hj, Instance.finish]
  | @cancelled i a operator now hstored hpending hmay =>
    have hpermitted : Permitted e w (.cancel i operator now) := ⟨a, hstored, hpending, hmay⟩
    have hothers : ∀ j, ({ w with approvals := w.approvals.set i { a with row := a.row.finish .cancelled now } } :
        World).Pending j ↔ j ≠ i ∧ w.Pending j := by
      intro j
      rw [pending_set (List.getElem?_eq_some_iff.mp hstored).1]
      by_cases hj : j = i <;> simp [hj, Instance.finish]
    have hstatus : ¬SubjectStatus.disabled = .pending_approval := fun hc => by cases hc
    simp only [Tracks, World.set_status, hstatus, false_iff, KeepsTrack, hpermitted, true_imp_iff]
    exact exists_pending_iff hothers
  | delegated hat => exact iff_of_true (tracks_put htracks hat hat.pending) trivial
  | extended hat => exact iff_of_true (tracks_put htracks hat hat.pending) trivial
  | @not_needed dir sub hplan =>
    have hneeded := plan_eq_none_iff.mp hplan
    have hraises : ¬Raises e dir sub := by
      rintro ⟨_, rule, hrule, _⟩
      exact hneeded (Or.inl (by rw [hrule]; rfl))
    have hstatus : ¬SubjectStatus.enabled = .pending_approval := fun hc => by cases hc
    simp only [Tracks, World.set_status, hstatus, false_iff, KeepsTrack, hneeded, hraises,
      not_false_eq_true, true_imp_iff, false_imp_iff, and_true, not_exists]
    exact Iff.rfl
  | @started dir sub p hplan hok =>
    have hneeded : Needed e dir w.subject sub := by
      by_contra hc
      rw [plan_eq_none_iff.mpr hc] at hplan
      cases hplan
    have hraises : ¬Raises e dir sub := by
      rw [← plan_raises_iff hplan, hok]
      exact fun hc => by cases hc
    refine iff_of_true (iff_of_true rfl ⟨w.approvals.length, (pending_add rfl).mpr (Or.inr rfl)⟩) ?_
    exact ⟨fun hc => absurd hneeded hc, fun hc => absurd hc hraises⟩
  | @broken dir sub p hplan hraise =>
    have hneeded : Needed e dir w.subject sub := by
      by_contra hc
      rw [plan_eq_none_iff.mpr hc] at hplan
      cases hplan
    have hraises : Raises e dir sub := (plan_raises_iff hplan).mp hraise
    have hnew : ∃ j, (w.add (new_instance w.subject sub p.rule_name)
      (created 0 p.nodes)).Pending j :=
      ⟨w.approvals.length, (pending_add rfl).mpr (Or.inr rfl)⟩
    simp only [KeepsTrack, hneeded, not_true, false_imp_iff, true_and, hraises, true_imp_iff]
    have hsame : w.subject.status = .pending_approval ↔ ∃ j, w.Pending j := htracks
    rw [← hsame]
    exact iff_true_right hnew

/-- Along every sequence of calls the status of the subject is 'pending approval' exactly while
one of its instances is pending, if and only if every call meets the condition. -/
theorem status_tracks_iff (hreachable : Reachable e w) (htracks : Tracks w) (cs : List Call) :
    Along (World.next e) (fun w c => Tracks (w.next e c)) w cs ↔
      Along (World.next e) (KeepsTrack e) w cs := by
  apply Along.iff_of_invariant (J := fun w => w.Laid ∧ Tracks w) ?_ ?_ ⟨hreachable.laid, htracks⟩
  · rintro s c ⟨hw, _⟩ hnext
    exact ⟨laid_next hw c, hnext⟩
  · rintro s c ⟨hw, hs⟩
    exact tracks_next_iff hw hs c

/-! A script whose only submission is rejected. -/

def admin : User := { id := 9, username := "root", name := "Root", is_superuser := true }

def admins : Directory where
  users := [admin]
  ids_nodup := by decide

def audited_script : World where
  subject := { status := .enabled, version := "V1.0", need_audit := true }

def submitted : Call := .start_approval admins { rule := none, submitter := admin }

def turned_down : Call := .reject 0 admin "" 0

theorem audited_script_tracks : Tracks audited_script :=
  iff_of_false (fun hc => by cases hc) fun ⟨j, a, ha, _⟩ => by cases ha

theorem submitted_tracks : Reachable .script audited_script ∧ Tracks audited_script ∧
    (Along (World.next .script) (fun w c => Tracks (w.next .script c)) audited_script [submitted] ↔
      Along (World.next .script) (KeepsTrack .script) audited_script [submitted]) :=
  ⟨⟨_, .refl _⟩, audited_script_tracks, status_tracks_iff ⟨_, .refl _⟩ audited_script_tracks _⟩

theorem turned_down_stored :
    ((audited_script.next .script submitted).next .script turned_down).approvals.map (·.row.status) =
      [.rejected] ∧
    ((audited_script.next .script submitted).next .script turned_down).subject.status =
      .pending_approval := by
  decide +kernel

/-- After the rejection no instance is pending, and the script still is. -/
theorem rejected_script_pending :
    ¬Tracks ((audited_script.next .script submitted).next .script turned_down) := by
  intro htracks
  obtain ⟨hrows, hstatus⟩ := turned_down_stored
  obtain ⟨j, a, ha, hpending⟩ := htracks.mp hstatus
  have hrow : a.row.status ∈ [InstanceStatus.rejected] :=
    hrows ▸ List.mem_map_of_mem (List.mem_of_getElem? ha)
  rw [List.mem_singleton.mp hrow] at hpending
  cases hpending

end taurus.approval
