import Taurus.Approval.Progress
import Taurus.Approval.Properties.PendingStatus
import Taurus.Approval.Rules

namespace taurus.approval

open taurus.lib taurus.python taurus.engine

/-- The status of a row of `WorkflowApprove`, the table of the first approvals. -/
inductive ApproveStatus where
  | pending
  | approved
  | rejected
  deriving DecidableEq

/-- A row of `WorkflowExecution` with the hosts and steps of its `WorkflowStepExecution` rows. -/
structure Execution where
  start_time : Time
  global_envs : Json
  step_executions : List (Int × Int)

/-- A workflow with its approvals of both kinds, the rules and the hosts of the installation. -/
structure Site where
  review : World
  definition : Definition
  rules : List ApprovalRule := []
  approvals : List ApproveStatus := []
  hosts : List Int := []
  executions : List Execution := []
  exec_count : Int := 0
  last_exec_time : Option Time := none

/-- A request to execute the workflow, of a user who is logged in. -/
structure Request where
  user : User
  dir : Directory
  host_ids : List Int
  submit_desc : String := ""
  global_envs : Json := .obj []
  now : Time := 0

inductive Answer where
  | refused (msg : String)
  | need_approval (instance_id : Option Nat) (rule : Option (Int × String)) (status : SubjectStatus)
    (msg : String)
  | started (execution_id : Nat) (msg : String)
  | raised

namespace Site

section

variable (py : Reprs) (lower : String → String) (site : Site) (request : Request)

/-- The rule that the matcher finds for the user. -/
def matched_rule : Except Exn (Option ApprovalRule) :=
  match_rule py lower request.dir site.review.subject site.definition request.user site.rules

/-- What `start_approval` works out first. -/
def submission : Except Exn Submission := do
  let rule ← site.matched_rule py lower request
  let (risk_level, risk_points) ← _evaluate_workflow_risk py lower request.dir site.review.subject site.definition
  let desc := String.ofList (request.submit_desc.toList.take 500)
  pure {
    rule := rule.map (·.rule)
    submitter := request.user
    submit_desc := if desc = "" then "Auto-approval before execution" else desc
    risk_level := risk_level_text risk_level
    risk_points }

/-- The execution asks for an approval. -/
def ask_approval (rule : Option (Int × String)) (msg : String) : Answer × Site :=
  match site.submission py lower request with
  | .error _ => (.raised, site)
  | .ok sub =>
    let (result, review) :=
      (WorkflowApprovalFlowEngine.start_approval request.dir sub).complete World.exec site.review
    match result with
    | .error _ => (.raised, { site with review })
    | .ok inst =>
      (.need_approval (inst.map (·.instance_id)) rule review.subject.status msg,
        { site with review })

/-- Some approval of the workflow is pending, in the old table or the new one. -/
def is_pending : Bool :=
  site.approvals.contains .pending || site.review.approvals.any fun a => a.row.status = .pending

def create_execution : Answer × Site :=
  let hosts := site.hosts.filter (· ∈ request.host_ids)
  let execution : Execution := {
    start_time := request.now
    global_envs := request.global_envs
    step_executions := hosts.flatMap fun host => site.definition.steps.map fun s => (host,
      s.step.id) }
  (.started site.executions.length "Workflow execution started",
    { site with
      executions := site.executions ++ [execution]
      exec_count := site.exec_count + 1
      last_exec_time := some request.now })

def execute : Answer × Site :=
  if request.host_ids = [] then (.refused "Please select at least one host", site)
  else if (site.hosts.filter (· ∈ request.host_ids)).length ≠ request.host_ids.length then
    (.refused "Some hosts do not exist", site)
  else if site.definition.steps = [] then (.refused "Workflow has no configured steps", site)
  else
    match site.matched_rule py lower request with
    | .error _ => (.raised, site)
    | .ok (some matched_rule) =>
      site.ask_approval py lower request (some (matched_rule.id, matched_rule.rule.name))
        ("Approval rule triggered [" ++ matched_rule.rule.name ++
        "], execution requires approval first")
    | .ok none =>
      if site.review.subject.need_audit then
        if !site.is_pending then
          site.ask_approval py lower request none "This workflow requires approval, please wait for approval before execution"
        else if site.review.subject.status = .pending_approval then
          (.refused "This workflow is pending approval, please wait for approval before execution",
            site)
        else site.create_execution request
      else site.create_execution request

end

end Site

end taurus.approval

namespace taurus.approval

open taurus.lib taurus.lib.transition taurus.python taurus.engine

variable {py : Reprs} {lower : String → String}

/-- A workflow with the instances that its executions have started for each user since the workflow
or the rules were last changed. -/
structure Watched where
  site : Site
  asked : List (Int × Nat) := []

/-- What can happen to a workflow. -/
inductive Event where
  | execute (request : Request)
  | decide (c : Call)
  | decide_old (approvals : List ApproveStatus)
  | edit (subject : Subject) (definition : Definition) (rules : List ApprovalRule)
    (hosts : List Int)

/-- The instance for which an execution has asked. -/
def Answer.asked_for : Answer → Option Nat
  | .need_approval instance_id _ _ _ => instance_id
  | .refused _ | .started _ _ | .raised => none

namespace Watched

def next (py : Reprs) (lower : String → String) (w : Watched) : Event → Watched
  | .execute request =>
    let (answer, site) := w.site.execute py lower request
    { site, asked := (answer.asked_for.toList.map fun i => (request.user.id, i)) ++ w.asked }
  | .decide c => { w with site := { w.site with review := w.site.review.next .workflow c } }
  | .decide_old approvals => { w with site := { w.site with approvals } }
  | .edit subject definition rules hosts =>
    { site := { w.site with review := { w.site.review with subject }, definition, rules, hosts } }

end Watched

namespace Site

/-- The instance has been approved. -/
def Approved (site : Site) (i : Nat) : Prop :=
  ∃ a, site.review.approvals[i]? = some a ∧ a.row.status = .approved

/-- The request names hosts that exist, each once, of a workflow with steps. -/
structure Fits (site : Site) (request : Request) : Prop where
  selected : request.host_ids ≠ []
  exist : (site.hosts.filter (· ∈ request.host_ids)).length = request.host_ids.length
  steps : site.definition.steps ≠ []

/-- The call adds an execution, and starts no approval. -/
def Creates (py : Reprs) (lower : String → String) (site : Site) (request : Request) : Prop :=
  (site.execute py lower request).2.executions.length = site.executions.length + 1 ∧
    (site.execute py lower request).2.review = site.review

/-- A rule matches, or the workflow needs an approval anyway. -/
def Gated (py : Reprs) (lower : String → String) (site : Site) (request : Request) : Prop :=
  (∃ rule, site.matched_rule py lower request = .ok (some rule)) ∨
  site.review.subject.need_audit = true

/-- Nothing that the call reads holds the execution back. -/
def LetsThrough (py : Reprs) (lower : String → String) (site : Site) (request : Request) : Prop :=
  site.matched_rule py lower request = .ok none ∧
    (site.review.subject.need_audit = true →
    site.is_pending = true ∧ site.review.subject.status ≠ .pending_approval)

section

variable {site : Site} {request : Request}

/-- Asking for a review starts nothing. -/
theorem ask_approval_executions (rule : Option (Int × String)) (msg : String) :
    (site.ask_approval py lower request rule msg).2.executions = site.executions := by
  unfold ask_approval
  cases site.submission py lower request with
  | error err => rfl
  | ok sub =>
    dsimp only
    split <;> rfl

/-- An execution is created exactly where the request fits and nothing holds it back. -/
theorem creates_iff :
    site.Creates py lower request ↔ site.Fits request ∧ site.LetsThrough py lower request := by
  have hunchanged : ∀ {s : Site}, s.executions = site.executions →
      ¬(s.executions.length = site.executions.length + 1 ∧ s.review = site.review) := by
    rintro s hs ⟨hlength, -⟩
    rw [hs] at hlength
    omega
  unfold Creates execute
  by_cases hselected : request.host_ids = []
  · rw [if_pos hselected]
    exact iff_of_false (hunchanged rfl) fun ⟨hfits, _⟩ => hfits.selected hselected
  rw [if_neg hselected]
  by_cases hexist : (site.hosts.filter (· ∈ request.host_ids)).length ≠ request.host_ids.length
  · rw [if_pos hexist]
    exact iff_of_false (hunchanged rfl) fun ⟨hfits, _⟩ => hexist hfits.exist
  rw [if_neg hexist]
  by_cases hsteps : site.definition.steps = []
  · rw [if_pos hsteps]
    exact iff_of_false (hunchanged rfl) fun ⟨hfits, _⟩ => hfits.steps hsteps
  rw [if_neg hsteps, and_iff_right (Fits.mk hselected (not_not.mp hexist) hsteps)]
  unfold LetsThrough
  cases hmatched : site.matched_rule py lower request with
  | error err => exact iff_of_false (hunchanged rfl) fun ⟨hnone, _⟩ => nomatch hnone
  | ok found =>
    cases found with
    | some rule =>
      exact iff_of_false (hunchanged (ask_approval_executions _ _)) fun ⟨hnone, _⟩ => nomatch hnone
    | none =>
      have hcreated : (site.create_execution request).2.executions.length =
        site.executions.length + 1 ∧
          (site.create_execution request).2.review = site.review := ⟨List.length_append, rfl⟩
      rw [and_iff_right rfl]
      dsimp only
      by_cases haudit : site.review.subject.need_audit = true
      · rw [if_pos haudit]
        by_cases hpending : site.is_pending = true
        · rw [hpending, if_neg (by decide)]
          by_cases hstatus : site.review.subject.status = .pending_approval
          · rw [if_pos hstatus]
            exact iff_of_false (hunchanged rfl) fun h => (h haudit).2 hstatus
          · rw [if_neg hstatus]
            exact iff_of_true hcreated fun _ => ⟨rfl, hstatus⟩
        · rw [Bool.eq_false_of_not_eq_true hpending, if_pos (by decide)]
          exact iff_of_false (hunchanged (ask_approval_executions _ _)) fun h =>
            nomatch (h haudit).1
      · rw [if_neg haudit]
        exact iff_of_true hcreated fun h => absurd h haudit

end

end Site

namespace Watched

/-- An instance that an execution of the user has started is approved. -/
def Granted (w : Watched) (user : User) : Prop := ∃ i, (user.id, i) ∈ w.asked ∧ w.site.Approved i

/-- What an approval is for: once it is granted the user may execute, and nobody may where one is
needed and none is granted. -/
structure Unlocks (py : Reprs) (lower : String → String) (w : Watched)
    (request : Request) : Prop where
  granted : w.Granted request.user → w.site.Fits request → w.site.Creates py lower request
  gated : w.site.Creates py lower request → w.site.Gated py lower request → ∃ i, w.site.Approved i

/-- After the approval no rule matches, and if the workflow needs one anyway, another one is pending
while the status is not; before any approval the latter is not so. -/
structure Clear (py : Reprs) (lower : String → String) (w : Watched)
    (request : Request) : Prop where
  granted : w.Granted request.user → w.site.Fits request → w.site.LetsThrough py lower request
  gated : w.site.review.subject.need_audit = true → w.site.Fits request →
    w.site.LetsThrough py lower request → ∃ i, w.site.Approved i

/-- A request unlocks the workflow exactly when it is clear of the review. -/
theorem unlocks_iff {w : Watched} {request : Request} :
    w.Unlocks py lower request ↔ w.Clear py lower request := by
  constructor
  · intro h
    refine ⟨fun hgranted hfits => (Site.creates_iff.mp (h.granted hgranted hfits)).2,
      fun haudit hfits hthrough => ?_⟩
    exact h.gated (Site.creates_iff.mpr ⟨hfits, hthrough⟩) (Or.inr haudit)
  · intro h
    refine ⟨fun hgranted hfits => Site.creates_iff.mpr ⟨hfits, h.granted hgranted hfits⟩,
      fun hcreates hgated => ?_⟩
    obtain ⟨hfits, hthrough⟩ := Site.creates_iff.mp hcreates
    obtain ⟨rule, hrule⟩ | haudit := hgated
    · exact nomatch hthrough.1.symm.trans hrule
    · exact h.gated haudit hfits hthrough

/-- What is asked of every execution. -/
def OnExecute (P : Watched → Request → Prop) (w : Watched) : Event → Prop
  | .execute request => P w request
  | .decide _ | .decide_old _ | .edit _ _ _ _ => True

/-- In every run approvals unlock executions, and only they do, exactly where every
execution meets the condition. -/
theorem approval_unlocks_iff (w : Watched) (events : List Event) :
    Along (next py lower) (OnExecute (Unlocks py lower)) w events ↔
      Along (next py lower) (OnExecute (Clear py lower)) w events := by
  apply Along.iff_of_invariant (J := fun _ => True) (fun _ _ _ _ => trivial) ?_ trivial
  intro w event _
  cases event with
  | execute request => exact unlocks_iff
  | _ => exact Iff.rfl

end Watched

/-! Where only approvals come between two executions, the second one always asks again. -/

/-- An approval: the instance, who approves it, the reason and the time. -/
structure Vote where
  i : Nat
  approver : User
  reason : String
  now : Time

def Vote.event (v : Vote) : Event := .decide (.approve v.i v.approver v.reason v.now)

def Watched.after_votes (py : Reprs) (lower : String → String) (w : Watched)
    (votes : List Vote) : Watched :=
  votes.foldl (fun w v => w.next py lower v.event) w

/-- What approvals leave as it was: all but the status of the workflow, and no
instance becomes pending. -/
structure Decided (s s' : Site) : Prop where
  laid : s'.review.Laid
  subject : ∃ status, s'.review.subject = { s.review.subject with status }
  definition : s'.definition = s.definition
  rules : s'.rules = s.rules
  approvals : s'.approvals = s.approvals
  pending : ∀ j, s'.review.Pending j → s.review.Pending j

/-- Approving one review makes no other pending. -/
theorem pending_of_approve {w : World} (hw : w.Laid) {i j : Nat} {approver : User}
    {reason : String} {now : Time}
    (h : (w.next .workflow (.approve i approver reason now)).Pending j) : w.Pending j := by
  obtain ⟨a', ha', hpending⟩ := h
  obtain ⟨a, ha, hprogress⟩ | ⟨-, dir, sub, p, hstart, -⟩ := stored_or_started hw ha'
  · exact ⟨a, ha, hprogress.row.2 hpending⟩
  · exact nomatch hstart

/-- After any votes every review is decided by its nodes. -/
theorem decided_after_votes (py : Reprs) (lower : String → String) {w : Watched}
    (hw : w.site.review.Laid) (votes : List Vote) :
    Decided w.site (w.after_votes py lower votes).site := by
  suffices h : ∀ v : Watched, Decided w.site v.site →
    Decided w.site (v.after_votes py lower votes).site from
    h w ⟨hw, ⟨_, rfl⟩, rfl, rfl, rfl, fun _ hpending => hpending⟩
  induction votes with
  | nil => exact fun v hv => hv
  | cons vote rest ih =>
    intro v hv
    apply ih
    obtain ⟨status, hsubject⟩ := hv.subject
    obtain ⟨status', hsubject'⟩ :=
      next_subject (e := .workflow) hv.laid (.approve vote.i vote.approver vote.reason vote.now)
    exact {
      laid := laid_next hv.laid _
      subject := ⟨status', by rw [hsubject] at hsubject'; exact hsubject'⟩
      definition := hv.definition
      rules := hv.rules
      approvals := hv.approvals
      pending := fun j hj => hv.pending j (pending_of_approve hv.laid hj) }

/-- A session that returns comes from a first part that does. -/
theorem result_of_bind {α β : Type} {t : Session α} {f : α → Session β} {w : World} {b : β}
    (h : ((t >>= f).complete World.exec w).1 = .ok b) :
    ∃ a w', ((f a).complete World.exec w').1 = .ok b := by
  rw [Thread.complete_bind] at h
  split at h
  next a w' _ => exact ⟨a, w', h⟩
  next => cases h

theorem complete_get_subject_bind {α : Type} (f : Subject → Session α) (w : World) :
    (get_subject >>= f).complete World.exec w = (f w.subject).complete World.exec w := rfl

theorem complete_create_instance_bind {α : Type} (row : Instance)
    (f : Nat → Session α) (w : World) :
    (create_instance row >>= f).complete World.exec w =
      (f w.approvals.length).complete World.exec (w.add row []) := rfl

/-- The new instance comes after those that there are. -/
theorem started_instance {dir : Directory} {sub : Submission} {w : World} {started : Started}
    (h : ((WorkflowApprovalFlowEngine.start_approval dir sub).complete World.exec w).1 =
      .ok (some started)) :
    started.instance_id = w.approvals.length := by
  have hends : ∀ {α : Type} {t : Session α} {f : α → Option ApprovalMode}
    {subject : Subject} {w' : World},
      ((t >>= fun a => save_subject subject >>= fun _ =>
        pure (some { instance_id := w.approvals.length, approval_mode := f a })).complete World.exec w').1 = .ok (some started) →
      started.instance_id = w.approvals.length := by
    intro α t f subject w' h
    obtain ⟨a, w₁, h⟩ := result_of_bind h
    obtain ⟨-, w₂, h⟩ := result_of_bind h
    obtain rfl := Option.some.inj (Except.ok.inj h)
    rfl
  unfold WorkflowApprovalFlowEngine.start_approval at h
  rw [complete_get_subject_bind] at h
  split at h
  · split at h
    · rw [complete_create_instance_bind] at h
      exact hends (f := some) h
    · obtain ⟨-, w₁, h⟩ := result_of_bind h
      cases Except.ok.inj h
  · rw [complete_create_instance_bind] at h
    split at h
    · exact hends (f := some) h
    · exact hends (f := fun _ => none) h

section

variable {site : Site} {request : Request} {i : Nat}

/-- The state after a call that asks for an approval. -/
structure Asked (py : Reprs) (lower : String → String) (site : Site) (request : Request) (i : Nat)
    (asked : Site) : Prop where
  held : (∃ rule, site.matched_rule py lower request = .ok (some rule)) ∨
    site.review.subject.need_audit = true ∧ site.is_pending = false
  new : i = site.review.approvals.length
  started : ∃ sub, asked = { site with review := site.review.next .workflow (.start_approval request.dir sub) }

/-- A review that is asked for is the newest one. -/
theorem asked_of_ask_approval {rule : Option (Int × String)} {msg : String}
    (h : (site.ask_approval py lower request rule msg).1.asked_for = some i) :
    i = site.review.approvals.length ∧
      ∃ sub, (site.ask_approval py lower request rule msg).2 =
        { site with review := site.review.next .workflow (.start_approval request.dir sub) } := by
  unfold Site.ask_approval at h ⊢
  cases hsub : site.submission py lower request with
  | error err =>
    rw [hsub] at h
    cases h
  | ok sub =>
    rw [hsub] at h
    dsimp only at h ⊢
    split at h
    next => cases h
    next inst hresult =>
      obtain ⟨started, rfl, rfl⟩ := Option.map_eq_some_iff.mp h
      exact ⟨started_instance hresult, sub, rfl⟩

/-- An execution that asks for a review has created it. -/
theorem asked_of_execute (h : (site.execute py lower request).1.asked_for = some i) :
    Asked py lower site request i (site.execute py lower request).2 := by
  unfold Site.execute at h ⊢
  split at h
  · cases h
  split at h
  · cases h
  split at h
  · cases h
  rw [if_neg ‹_›, if_neg ‹_›, if_neg ‹_›]
  cases hmatched : site.matched_rule py lower request with
  | error err =>
    rw [hmatched] at h
    cases h
  | ok found =>
    rw [hmatched] at h
    cases found with
    | some rule =>
      obtain ⟨hnew, hstarted⟩ := asked_of_ask_approval h
      exact ⟨Or.inl ⟨rule, hmatched⟩, hnew, hstarted⟩
    | none =>
      dsimp only at h ⊢
      split at h
      next haudit =>
        rw [if_pos haudit]
        split at h
        next hpending =>
          rw [if_pos hpending]
          obtain ⟨hnew, hstarted⟩ := asked_of_ask_approval h
          exact ⟨Or.inr ⟨haudit, by simpa using hpending⟩, hnew, hstarted⟩
        next =>
          split at h
          · cases h
          · cases h
      next => cases h

end

/-- After any approvals, the next execution of the user whose instance they have
approved creates nothing. -/
theorem approved_asks_again {w : Watched} (hw : w.site.review.Laid)
    {request request' : Request} {i : Nat}
    (hasked : (w.site.execute py lower request).1.asked_for = some i) (votes : List Vote)
    (happroved : ((w.next py lower (.execute request)).after_votes py lower votes).site.Approved i)
    (huser : request'.user = request.user) (hdir : request'.dir = request.dir) :
    ¬((w.next py lower (.execute request)).after_votes py lower votes).site.Creates py lower request' := by
  obtain ⟨hheld, rfl, sub, hafter⟩ := asked_of_execute hasked
  have hsite : (w.next py lower (.execute request)).site =
      { w.site with review := w.site.review.next .workflow (.start_approval request.dir sub) } :=
      hafter
  have hlaid : (w.next py lower (.execute request)).site.review.Laid := by
    rw [hsite]
    exact laid_next hw _
  have hdecided := decided_after_votes py lower hlaid votes
  generalize ((w.next py lower (.execute request)).after_votes py lower votes).site =
    site' at happroved hdecided ⊢
  rw [hsite] at hdecided
  obtain ⟨status, hsubject⟩ := hdecided.subject
  obtain ⟨status₀, hsubject₀⟩ := next_subject (e := .workflow) hw (.start_approval request.dir sub)
  have hmatched : site'.matched_rule py lower request' = w.site.matched_rule py lower request := by
    unfold Site.matched_rule
    rw [huser, hdir, hdecided.definition, hdecided.rules, hsubject, hsubject₀, match_rule_status,
      match_rule_status]
  intro hcreates
  obtain ⟨-, hnone, hopen⟩ := Site.creates_iff.mp hcreates
  rw [hmatched] at hnone
  obtain ⟨rule, hrule⟩ | ⟨haudit, hidle⟩ := hheld
  · exact nomatch hnone.symm.trans hrule
  have hpending := (hopen (by rw [hsubject, hsubject₀]; exact haudit)).1
  obtain ⟨holdidle, hnewidle⟩ := Bool.or_eq_false_iff.mp hidle
  unfold Site.is_pending at hpending
  rw [hdecided.approvals, holdidle, Bool.false_or, List.any_eq_true] at hpending
  obtain ⟨a, hmem, ha⟩ := hpending
  obtain ⟨j, hj⟩ := List.mem_iff_getElem?.mp hmem
  obtain ⟨b, hb, hbpending⟩ := hdecided.pending j ⟨a, hj, of_decide_eq_true ha⟩
  obtain ⟨c, hc, hprogress⟩ | ⟨rfl, -⟩ := stored_or_started hw hb
  · have hstill := List.any_eq_false.mp hnewidle c (List.mem_of_getElem? hc)
    exact hstill (decide_eq_true (hprogress.row.2 hbpending))
  · obtain ⟨a', ha', happroved⟩ := happroved
    obtain rfl := Option.some.inj (hj.symm.trans ha')
    rw [of_decide_eq_true ha] at happroved
    cases happroved

/-! A workflow that needs an approval and has no rule: one that is approved once, and one with two open submissions of which
one is withdrawn. -/

def audited_nightly : Watched where
  site := {
    review := { subject := { status := .enabled, version := "1", need_audit := true } }
    definition := { id := 1, name := "nightly", steps := [{ step := { id := 1 }, template_id := 1, template_name := "dump" }] }
    hosts := [7] }

def tonight : Request where
  user := admin
  dir := admins
  host_ids := [7]

def approved_once : List Event := [.execute tonight, .decide (.approve 0 admin "" 0)]

def withdrawn_once : List Event :=
  [.decide submitted, .decide submitted, .decide (.cancel 0 admin 0)]

def after (events : List Event) : Watched :=
  events.foldl (Watched.next .short String.toLower) audited_nightly

theorem after_approved_once : (admin.id, 0) ∈ (after approved_once).asked ∧
    (after approved_once).site.review.approvals.map (·.row.status) = [.approved] ∧
    (after approved_once).site.is_pending = false ∧
      (after approved_once).site.review.subject.need_audit = true := by
  decide +kernel

theorem after_withdrawn_once :
    (after withdrawn_once).site.review.approvals.map (·.row.status) = [.cancelled, .pending] ∧
    (after withdrawn_once).site.is_pending = true ∧
      (after withdrawn_once).site.review.subject.status = .disabled ∧
    (after withdrawn_once).site.review.subject.need_audit = true := by
  decide +kernel

/-- Nothing but the review can refuse tonight's run. -/
theorem fits_after (events : List Event) (hhosts : (after events).site.hosts = [7])
    (hsteps : (after events).site.definition.steps.isEmpty = false) :
    (after events).site.Fits tonight where
  selected := List.cons_ne_nil _ _
  exist := by
    rw [hhosts]
    rfl
  steps hnil := by
    rw [hnil] at hsteps
    cases hsteps

theorem approval_not_granted : ¬(after approved_once).Unlocks .short String.toLower tonight := by
  intro h
  obtain ⟨hasked, hrows, hidle, haudit⟩ := after_approved_once
  obtain ⟨a, ha, hstatus⟩ := List.map_eq_singleton_iff.mp hrows
  have hgranted : (after approved_once).Granted admin := ⟨0, hasked, a, by rw [ha]; rfl, hstatus⟩
  have hfits := fits_after approved_once (by decide +kernel) (by decide +kernel)
  have hpending := ((Site.creates_iff.mp (h.granted hgranted hfits)).2.2 haudit).1
  rw [hidle] at hpending
  cases hpending

theorem execution_not_gated : ¬(after withdrawn_once).Unlocks .short String.toLower tonight := by
  intro h
  obtain ⟨hrows, hpending, hstatus, haudit⟩ := after_withdrawn_once
  have hfits := fits_after withdrawn_once (by decide +kernel) (by decide +kernel)
  have hrules : (after withdrawn_once).site.rules = [] := List.isEmpty_iff.mp (by decide +kernel)
  have hnone : (after withdrawn_once).site.matched_rule .short String.toLower tonight =
      .ok none := by
    unfold Site.matched_rule
    rw [hrules]
    rfl
  have hthrough : (after withdrawn_once).site.LetsThrough .short String.toLower tonight :=
    ⟨hnone, fun _ => ⟨hpending, by rw [hstatus]; nofun⟩⟩
  obtain ⟨i, a, ha, happroved⟩ := h.gated (Site.creates_iff.mpr ⟨hfits, hthrough⟩) (Or.inr haudit)
  have hmem := List.mem_map_of_mem (f := fun a : Approval => a.row.status) (List.mem_of_getElem? ha)
  rw [hrows, happroved] at hmem
  revert hmem
  decide

/-- The approved workflow asks for another approval, and the other one runs without any. -/
theorem approvals_not_unlocking :
    ¬Along (Watched.next .short String.toLower)
      (Watched.OnExecute (Watched.Unlocks .short String.toLower)) audited_nightly
        (approved_once ++ [.execute tonight]) ∧
      ¬Along (Watched.next .short String.toLower)
        (Watched.OnExecute (Watched.Unlocks .short String.toLower)) audited_nightly
        (withdrawn_once ++ [.execute tonight]) := by
  constructor
  · rintro ⟨-, -, h, -⟩
    exact approval_not_granted h
  · rintro ⟨-, -, -, h, -⟩
    exact execution_not_gated h

end taurus.approval
