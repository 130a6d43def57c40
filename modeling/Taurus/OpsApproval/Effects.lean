import Taurus.OpsApproval.Requests

namespace taurus.ops_approval

open taurus.lib taurus.lib.Thread taurus.python taurus.engine taurus.ops
open taurus.approval (User)

variable {site : Site} {w : World} {i : Nat} {a : Approval} {user : User}
  {reason : String} {now : Time}

/-- A request on the approvals and executions. -/
inductive Call where
  | execute_command (origin : Origin) (request : CommandRequest)
  | execute_script (origin : Origin) (request : ScriptRequest)
  | submit_script_approval (origin : Origin) (request : ScriptRequest)
  | approve (site : Site) (i : Nat) (user : User) (reason : String) (now : Time)
  | reject (site : Site) (i : Nat) (user : User) (reason : String) (now : Time)
  | delegate (site : Site) (i : Nat) (user : User) (to_user_id : Int) (reason : String) (now : Time)
  | add_sign (site : Site) (i : Nat) (user : User) (user_ids : List Int)
    (reason : String) (now : Time)
  | cancel (site : Site) (i : Nat) (user : User) (now : Time)

def Call.session : Call → Session String
  | .execute_command origin request => ops_approval.execute_command origin request
  | .execute_script origin request => ops_approval.execute_script origin request
  | .submit_script_approval origin request => ops_approval.submit_script_approval origin request
  | .approve site i user reason now => ops_approval.approve site i user reason now
  | .reject site i user reason now => ops_approval.reject site i user reason now
  | .delegate site i user to_user_id reason now =>
    ops_approval.delegate site i user to_user_id reason now
  | .add_sign site i user user_ids reason now =>
    ops_approval.add_sign site i user user_ids reason now
  | .cancel site i user now => ops_approval.cancel site i user now

/-- A request whose execution needs an approval. -/
inductive Submission where
  | command (request : CommandRequest)
  | script (request : ScriptRequest)
  | script_approval (request : ScriptRequest)

namespace Submission

/-- The request as it is sent. -/
def call (origin : Origin) : Submission → Call
  | command request => .execute_command origin { request with need_audit := true }
  | script request => .execute_script origin { request with need_audit := true }
  | script_approval request => .submit_script_approval origin request

/-- The same request without `need_audit`. -/
def direct (origin : Origin) : Submission → Call
  | command request => .execute_command origin { request with need_audit := false }
  | script request | script_approval request =>
    .execute_script origin { request with need_audit := false }

end Submission

/-- The state after a request, whatever it is answered. -/
def World.next (w : World) (c : Call) : World := w.after c.session

/-- The user may decide the approval. -/
def Reviews (site : Site) (a : Approval) (user : User) : Prop :=
  a.status = .pending ∧ _is_user_candidate_approver site a user = true

/-- The user has not decided the approval before. -/
def Votes (site : Site) (a : Approval) (user : User) : Prop :=
  Reviews site a user ∧ (a.approval_records.any fun r => r.user_id = user.id ∧
    r.action.decides) = false

/-- The row that a completing vote works on. -/
def granted (a : Approval) (user : User) (reason : String) (now : Time) : Approval :=
  (a.add_record (user.record .approve reason now)).decide .approved user reason now

/-- The vote completes the approval. -/
def Completes (site : Site) (a : Approval) (user : User) (reason : String) (now : Time) : Prop :=
  Votes site a user ∧ _is_approved_by_mode
    (a.add_record (user.record .approve reason now)) = .ok true

/-- The user may withdraw the approval. -/
def Withdraws (a : Approval) (user : User) (site : Site) : Prop :=
  a.status = .pending ∧ (a.submitter_id = some user.id ∨
    user.is_superuser = true ∧
    (a.approver_id = some user.id ∨ _is_user_candidate_approver site a user = true))

/-- A request goes on only with a pending row that the user may see. -/
theorem after_get_pending_bind {α : Type} (action : String) (f : Approval → Session α)
    (ha : w.approvals[i]? = some a) :
    w.after (get_pending site i user action >>= f) =
      if (a.submitter_id = some user.id ∨ a.approver_id = some user.id ∨
        _is_user_candidate_approver site a user = true) ∧
          a.status = .pending then w.after (f a) else w := by
  unfold get_pending get_object
  simp only [bind_assoc, World.after_get_approval_bind, ha]
  by_cases hvisible : a.submitter_id = some user.id ∨ a.approver_id = some user.id ∨
      _is_user_candidate_approver site a user = true
  · rw [if_pos (by simpa [or_assoc] using hvisible), pure_bind]
    by_cases hpending : a.status = .pending
    · rw [if_neg (not_not.mpr hpending), pure_bind, if_pos ⟨hvisible, hpending⟩]
    · rw [if_pos hpending, if_neg fun h => hpending h.2]
      rfl
  · rw [if_neg (by simpa [or_assoc] using hvisible), if_neg fun h => hvisible h.1]
    rfl

/-- A missing row ends the request. -/
theorem after_get_pending_bind_none {α : Type} (action : String) (f : Approval → Session α)
    (ha : w.approvals[i]? = none) :
    w.after (get_pending site i user action >>= f) = w := by
  unfold get_pending get_object
  simp only [bind_assoc, World.after_get_approval_bind, ha]
  rfl

/-- The two checks that come first in the handling of a reviewer's request. -/
theorem after_reviewed {α : Type} (action refusal : String) (f : Approval → Session α)
    (ha : w.approvals[i]? = some a) :
    (Reviews site a user → w.after (do
      let row ← get_pending site i user action
      if !_is_user_candidate_approver site row user then error_response refusal
        else f row) = w.after (f a)) ∧
    (¬Reviews site a user → w.after (do
      let row ← get_pending site i user action
      if !_is_user_candidate_approver site row user then error_response refusal
        else f row) = w) := by
  constructor
  · rintro ⟨hpending, hcandidate⟩
    rw [after_get_pending_bind action _ ha, if_pos ⟨Or.inr (Or.inr hcandidate), hpending⟩,
      if_neg (by simp [hcandidate])]
  · intro h
    rw [after_get_pending_bind action _ ha]
    split
    · rename_i hseen
      rw [if_pos]
      · rfl
      · simpa using fun hc => h ⟨hseen.2, hc⟩
    · rfl

namespace World

/-- An approval is overwritten. -/
def put (w : World) (i : Nat) (a : Approval) : World := { w with approvals := w.approvals.set i a }

/-- An approval is changed in its place. -/
theorem modify_approval_eq_put (change : Approval → Approval) (ha : w.approvals[i]? = some a) :
    w.modify_approval i change = w.put i (change a) := by
  unfold modify_approval put
  rw [List.modify_eq_set_getElem?, ha]
  rfl

/-- An overwritten approval is found in its place. -/
theorem put_getElem? {a' : Approval} (ha : w.approvals[i]? = some a) :
    (w.put i a').approvals[i]? = some a' :=
  List.getElem?_set_self (List.getElem?_eq_some_iff.mp ha).1

/-- Two changes of an approval are one. -/
theorem modify_modify (f g : Approval → Approval) (ha : w.approvals[i]? = some a) :
    (w.modify_approval i f).modify_approval i g = w.put i (g (f a)) := by
  rw [modify_approval_eq_put f ha, modify_approval_eq_put g (put_getElem? ha)]
  unfold put
  rw [List.set_set]

def add_execution (w : World) (x : Execution) : World :=
  { w with executions := w.executions ++ [x] }

def add_approval (w : World) (a : Approval) : World := { w with approvals := w.approvals ++ [a] }

end World

/-- The execution that a trigger starts, or what stops it. -/
def launch (site : Site) (w : World) (row : Approval) (user : User) : Except Error Execution := do
  check_quota site (w.executions.countP (·.live))
  match site.host row.host_id with
  | none => .error (.ValueError "Approval not associated with target host")
  | some host =>
    if host.online_status ≠ 1 then .error (.ValueError s!"Host is offline: {host.host_ip}")
    else .ok (approved_execution row host user)

/-- The row of an approval whose execution is number `k`. -/
def launched (row : Approval) (k : Nat) : Approval :=
  { row with ops_execution := some k, status := .executing }

/-- The trigger creates the execution and points the approval to it, or raises before either. -/
theorem complete_trigger (row : Approval) :
    (_trigger_approval_execution site i row user).complete World.exec w =
      match launch site w row user with
      | .error err => (.error err, w)
      | .ok x => (.ok (launched row w.executions.length),
          (w.add_execution x).modify_approval i (·.save
          (launched row w.executions.length) [.ops_execution, .status])) := by
  unfold _trigger_approval_execution launch
  change ((fromExcept (check_quota site
    (w.executions.countP (·.live))) : Session Unit) >>= _).complete World.exec w = _
  rw [complete_fromExcept_bind]
  cases check_quota site (w.executions.countP (·.live)) with
  | error err => rfl
  | ok answer =>
    cases site.host row.host_id with
    | none => rfl
    | some host =>
      change (Thread.complete World.exec (if _ then _ else _) w) =
        (match (if _ then _ else _ : Except Error Execution) with
        | .error err => _ | .ok x => _)
      by_cases honline : host.online_status = 1
      · rw [if_neg (not_not.mpr honline), if_neg (not_not.mpr honline)]
        rfl
      · rw [if_pos honline, if_pos honline]
        rfl

/-- The view goes on after a trigger that raised, too. -/
theorem after_attempt_trigger {α : Type} (row : Approval) (f : Except Error Approval → Session α) :
    w.after (attempt (_trigger_approval_execution site i row user) >>= f) =
      match launch site w row user with
      | .error err => w.after (f (.error err))
      | .ok x =>
        ((w.add_execution x).modify_approval i (·.save
          (launched row w.executions.length) [.ops_execution, .status])).after
          (f (.ok (launched row w.executions.length))) := by
  rw [World.after_attempt_bind]
  unfold World.after
  rw [complete_trigger]
  cases launch site w row user <;> rfl

/-- An execution that is launched is for a host that is there and online. -/
theorem launch_row {x : Execution} {row : Approval} (h : launch site w row user = .ok x) :
    ∃ host, site.host row.host_id = some host ∧ host.online_status = 1 ∧
      x = approved_execution row host user := by
  unfold launch at h
  cases hquota : check_quota site (w.executions.countP (·.live)) with
  | error err => rw [hquota] at h; cases h
  | ok answer =>
    rw [hquota] at h
    cases hhost : site.host row.host_id with
    | none => rw [hhost] at h; cases h
    | some host =>
      rw [hhost] at h
      change (if _ then _ else _) = Except.ok x at h
      split at h
      · cases h
      · exact ⟨host, rfl, not_not.mp ‹_›, (Except.ok.inj h).symm⟩

section approve

/-- The trigger saves two columns. -/
theorem save_trigger (row : Approval) : a.save row [.ops_execution, .status] =
    { a with ops_execution := row.ops_execution, status := row.status } := by
  simp only [Approval.save, List.foldl_cons, List.foldl_nil, Approval.take]

/-- A decision saves its columns. -/
theorem save_decision (row : Approval) : a.save row decision_fields =
    { a with approval_records := row.approval_records, status := row.status, approver_id := row.approver_id,
             approve_reason := row.approve_reason, approve_time := row.approve_time, finish_time := row.finish_time } := by
  simp only [Approval.save, decision_fields, List.foldl_cons, List.foldl_nil, Approval.take]

/-- What the trigger and the vote save together. -/
theorem save_launched (k : Nat) :
    (a.save (launched (granted a user reason now) k) [.ops_execution, .status]).save
    (launched (granted a user reason now) k) decision_fields =
      launched (granted a user reason now) k := by
  rw [save_trigger, save_decision]
  rfl

/-- What a vote leaves behind, by whether it completes the approval and whether the
trigger succeeds. -/
theorem after_approve (ha : w.approvals[i]? = some a) (hvotes : Votes site a user) :
    w.next (.approve site i user reason now) =
      match _is_approved_by_mode (a.add_record (user.record .approve reason now)) with
      | .error _ => w
      | .ok false => w.put i (a.add_record (user.record .approve reason now))
      | .ok true =>
        match launch site w (granted a user reason now) user with
        | .error _ => w.put i { granted a user reason now with status := .failed }
        | .ok x =>
          (w.add_execution x).put i (launched (granted a user reason now) w.executions.length) := by
  obtain ⟨hreviews, hfirst⟩ := hvotes
  unfold World.next Call.session approve
  rw [(after_reviewed "approval" _ _ ha).1 hreviews, if_neg (by simpa using hfirst),
    World.after_fromExcept_bind]
  cases _is_approved_by_mode (a.add_record (user.record .approve reason now)) with
  | error err => rfl
  | ok approved =>
    cases approved with
    | false => exact World.modify_approval_eq_put _ ha
    | true =>
      dsimp only
      rw [if_pos rfl, after_attempt_trigger]
      change (match launch site w
        (granted a user reason now) user with | .error err => _ | .ok x => _) = _
      cases launch site w (granted a user reason now) user with
      | error err => exact World.modify_approval_eq_put _ ha
      | ok x =>
        exact (World.modify_modify (w := w.add_execution x) _ _ ha).trans
          (congrArg (World.put _ i) (save_launched w.executions.length))

/-- A user who may not vote changes nothing. -/
theorem after_approve_of_not_votes (h : ∀ a, w.approvals[i]? = some a → ¬Votes site a user) :
    w.next (.approve site i user reason now) = w := by
  unfold World.next Call.session approve
  cases ha : w.approvals[i]? with
  | none => exact after_get_pending_bind_none _ _ ha
  | some a =>
    by_cases hreviews : Reviews site a user
    · rw [(after_reviewed "approval" _ _ ha).1 hreviews, if_pos]
      · rfl
      · have hvoted := h a ha
        unfold Votes at hvoted
        simpa using fun hc => hvoted ⟨hreviews, hc⟩
    · exact (after_reviewed "approval" _ _ ha).2 hreviews

end approve

section reject

/-- The row of a rejected approval. -/
def turned_down (a : Approval) (user : User) (reason : String) (now : Time) : Approval :=
  (a.add_record (user.record .reject reason now)).decide .rejected user reason now

/-- The executions after the decision: the one that waited is refused. -/
def World.refuse (w : World) (a : Approval) : World :=
  match a.ops_execution with
  | some k => w.set_status k .REJECTED
  | none => w

/-- A rejection with a reason turns the approval down and refuses the execution that
waits for it. -/
theorem after_reject (ha : w.approvals[i]? = some a) (hreviews : Reviews site a user)
    (hreason : reason ≠ "") :
    w.next (.reject site i user reason now) =
      (w.put i (turned_down a user reason now)).refuse a := by
  unfold World.next Call.session reject World.refuse
  rw [(after_reviewed "rejection" _ _ ha).1 hreviews, if_neg hreason,
    World.after_save_approval_bind, World.modify_approval_eq_put _ ha]
  change World.after _ (match a.ops_execution with | some k => _ | none => _) = _
  cases a.ops_execution <;> rfl

/-- Without a reason, or by another user, it changes nothing. -/
theorem after_reject_of_not
    (h : ∀ a, w.approvals[i]? = some a → Reviews site a user → reason = "") :
    w.next (.reject site i user reason now) = w := by
  unfold World.next Call.session reject
  cases ha : w.approvals[i]? with
  | none => exact after_get_pending_bind_none _ _ ha
  | some a =>
    by_cases hreviews : Reviews site a user
    · rw [(after_reviewed "rejection" _ _ ha).1 hreviews, if_pos (h a ha hreviews)]
      rfl
    · exact (after_reviewed "rejection" _ _ ha).2 hreviews

end reject

section cancel

/-- The submitter withdraws the approval, and nothing else. -/
theorem after_cancel (ha : w.approvals[i]? = some a) (h : Withdraws a user site) :
    w.next (.cancel site i user now) =
      w.put i { a with status := .cancelled, finish_time := some now } := by
  obtain ⟨hpending, hwithdraws⟩ := h
  unfold World.next Call.session cancel
  rw [after_get_pending_bind _ _ ha, if_pos, if_neg]
  · exact World.modify_approval_eq_put _ ha
  · rintro ⟨hsubmitter, hsuperuser⟩
    obtain hc | ⟨hc, -⟩ := hwithdraws
    · exact hsubmitter hc
    · rw [hc] at hsuperuser
      cases hsuperuser
  · refine ⟨?_, hpending⟩
    obtain hc | ⟨-, hc⟩ := hwithdraws
    · exact Or.inl hc
    · exact Or.inr hc

/-- Another user changes nothing. -/
theorem after_cancel_of_not (h : ∀ a, w.approvals[i]? = some a → ¬Withdraws a user site) :
    w.next (.cancel site i user now) = w := by
  unfold World.next Call.session cancel
  cases ha : w.approvals[i]? with
  | none => exact after_get_pending_bind_none _ _ ha
  | some a =>
    rw [after_get_pending_bind _ _ ha]
    split
    · rename_i hseen
      rw [if_pos]
      · rfl
      · constructor
        · exact fun hc => h a ha ⟨hseen.2, Or.inl hc⟩
        · by_contra hsuperuser
          have hsuperuser : user.is_superuser = true := by simpa using hsuperuser
          refine h a ha ⟨hseen.2, ?_⟩
          obtain hc | hc := hseen.1
          · exact Or.inl hc
          · exact Or.inr ⟨hsuperuser, hc⟩
    · rfl

end cancel

/-- A change of a pending approval that leaves what it is about: candidates or records are added. -/
structure Noted (a a' : Approval) : Prop where
  status : a'.status = a.status
  params : a'.params = a.params
  execution_type : a'.execution_type = a.execution_type
  ops_execution : a'.ops_execution = a.ops_execution

/-- What `delegate` and `add_sign` make of an approval that the user reviews: existing users become
candidates, and a record says so. -/
inductive Joined (site : Site) (user : User) (a : Approval) : Approval → Prop
  | mk {users : List User} {record : taurus.approval.ActionRecord} (hreviews : Reviews site a user)
      (husers : users ⊆ site.users) (hrecord : record.action.decides = false) :
      Joined site user a ((add_candidates a users).add_record record)

/-- Added candidates leave what the approval is about. -/
theorem Joined.noted {a' : Approval} (h : Joined site user a a') : Noted a a' := by
  cases h
  exact ⟨rfl, rfl, rfl, rfl⟩

section

variable {to_user_id : Int} {user_ids : List Int}

/-- A delegation adds candidates to the approval, or nothing happens. -/
theorem after_delegate : w.next (.delegate site i user to_user_id reason now) = w ∨
    ∃ a a', w.approvals[i]? = some a ∧ Joined site user a a' ∧
      w.next (.delegate site i user to_user_id reason now) = w.put i a' := by
  unfold World.next Call.session delegate
  cases ha : w.approvals[i]? with
  | none => exact Or.inl (after_get_pending_bind_none _ _ ha)
  | some a =>
    by_cases hreviews : Reviews site a user
    · rw [(after_reviewed "delegation" _ _ ha).1 hreviews]
      split
      · exact Or.inl rfl
      · split
        · exact Or.inl rfl
        · rename_i to_user hfound
          rw [World.after_fromExcept_bind]
          split
          · have husers : [to_user] ⊆ site.users := by simpa using List.mem_of_find?_eq_some hfound
            exact Or.inr ⟨a, _, rfl, .mk hreviews husers rfl, World.modify_approval_eq_put _ ha⟩
          · exact Or.inl rfl
    · exact Or.inl ((after_reviewed "delegation" _ _ ha).2 hreviews)

theorem after_add_sign : w.next (.add_sign site i user user_ids reason now) = w ∨
    ∃ a a', w.approvals[i]? = some a ∧ Joined site user a a' ∧
      w.next (.add_sign site i user user_ids reason now) = w.put i a' := by
  unfold World.next Call.session add_sign
  cases ha : w.approvals[i]? with
  | none => exact Or.inl (after_get_pending_bind_none _ _ ha)
  | some a =>
    by_cases hreviews : Reviews site a user
    · rw [(after_reviewed "adding signers" _ _ ha).1 hreviews]
      split
      · exact Or.inl rfl
      · rw [World.after_fromExcept_bind]
        split
        · have husers : site.users.filter (·.id ∈ user_ids) ⊆ site.users :=
            List.filter_subset_self _
          exact Or.inr ⟨a, _, rfl, .mk hreviews husers rfl, World.modify_approval_eq_put _ ha⟩
        · exact Or.inl rfl
    · exact Or.inl ((after_reviewed "adding signers" _ _ ha).2 hreviews)

end

section

variable {origin : Origin}

/-- The state after a submission was accepted for a host. -/
def World.submitted (w : World) (form : Form) (origin : Origin) (host : Host)
    (execution_type : String) (params : Parameters) : World :=
  let w' := w.add_execution (form.execution origin host execution_type params)
  if form.need_audit then
    match form.checked_approval origin host execution_type params w.executions.length with
    | .ok row => w'.add_approval row
    | .error _ => w'
  else w'

/-- A form leaves its execution and, where one is needed, its approval. -/
theorem after_submit (form : Form) (host : Host) (execution_type : String) (params : Parameters) :
    w.after (form.submit origin host execution_type params) =
      w.submitted form origin host execution_type params := by
  unfold Form.submit World.submitted
  rw [World.after_create_execution_bind]
  cases form.need_audit with
  | false => rfl
  | true =>
    simp only [if_true, World.after_fromExcept_bind]
    cases form.checked_approval origin host execution_type params w.executions.length <;> rfl

/-- A checked approval is the approval of the request with some number of hosts. -/
theorem checked_approval_eq {form : Form} {host : Host} {execution_type : String}
    {params : Parameters} {k : Nat} {a : Approval}
    (h : form.checked_approval origin host execution_type params k = .ok a) :
    ∃ n, a = form.approval origin host execution_type params k n := by
  obtain ⟨n, -, h⟩ := bind_eq_ok.mp h
  obtain ⟨-, -, h⟩ := bind_eq_ok.mp h
  exact ⟨n, (Except.ok.inj h).symm⟩

/-- A script approval that passes the checks is the one of the request. -/
theorem checked_script_approval_eq {request : ScriptRequest} {host : Host} {a : Approval}
    (h : request.checked_script_approval origin host = .ok a) :
    ∃ n, a = request.script_approval origin host n := by
  obtain ⟨n, -, h⟩ := bind_eq_ok.mp h
  obtain ⟨-, -, h⟩ := bind_eq_ok.mp h
  exact ⟨n, (Except.ok.inj h).symm⟩

/-- A submission that stores an approval stores the execution with it. -/
theorem submitted_eq {form : Form} {host : Host} {execution_type : String} {params : Parameters}
    (hstored : (w.submitted form origin host execution_type params).approvals.length =
      w.approvals.length + 1) :
    ∃ n, w.submitted form origin host execution_type params =
      (w.add_execution (form.execution origin host execution_type params)).add_approval
        (form.approval origin host execution_type params w.executions.length n) := by
  unfold World.submitted at hstored ⊢
  dsimp only at hstored ⊢
  split at hstored
  · rename_i haudit
    rw [if_pos haudit]
    cases hchecked : form.checked_approval origin host execution_type params w.executions.length with
    | error err =>
      rw [hchecked] at hstored
      change w.approvals.length = _ at hstored
      omega
    | ok row =>
      obtain ⟨n, rfl⟩ := checked_approval_eq hchecked
      exact ⟨n, rfl⟩
  · change w.approvals.length = _ at hstored
    omega

/-- The request passes the checks: the quota has room, and the host is there and online. -/
structure CommandRequest.Accepted (request : CommandRequest) (origin : Origin) (w : World)
    (host : Host) : Prop where
  room : check_quota origin.site (w.executions.countP (·.live)) = .ok ()
  found : origin.site._get_host_by_id request.host_id = some host
  online : host.online_status = 1

/-- For a script its type has to be known, too. -/
structure ScriptRequest.Accepted (request : ScriptRequest) (origin : Origin) (w : World)
    (host : Host) : Prop where
  room : check_quota origin.site (w.executions.countP (·.live)) = .ok ()
  found : origin.site._get_host_by_id request.host_id = some host
  online : host.online_status = 1
  known : request.script_type = "sh" ∨ request.script_type = "python"

/-- A command that is accepted is submitted, any other changes nothing. -/
theorem after_execute_command (w : World) (origin : Origin) (request : CommandRequest) :
    ((∀ host, ¬request.Accepted origin w host) ∧ w.next (.execute_command origin request) = w) ∨
      ∃ host, request.Accepted origin w host ∧ w.next (.execute_command origin request) =
        w.submitted request.toForm origin host "command" (request.params origin) := by
  unfold World.next Call.session execute_command
  rw [World.after_count_live_bind, World.after_fromExcept_bind]
  cases hroom : check_quota origin.site (w.executions.countP (·.live)) with
  | error err =>
    refine Or.inl ⟨fun host h => ?_, rfl⟩
    cases hroom.symm.trans h.room
  | ok answer =>
    dsimp only
    cases hfound : origin.site._get_host_by_id request.host_id with
    | none =>
      refine Or.inl ⟨fun host h => ?_, rfl⟩
      cases hfound.symm.trans h.found
    | some host =>
      dsimp only
      split
      · rename_i hoffline
        refine Or.inl ⟨fun host' h => hoffline ?_, rfl⟩
        obtain rfl := Option.some.inj (hfound.symm.trans h.found)
        exact h.online
      · rename_i honline
        exact Or.inr ⟨host, ⟨hroom, hfound, not_not.mp honline⟩, after_submit _ _ _ _⟩

/-- A script is submitted exactly when it is accepted for a host. -/
theorem after_execute_script (w : World) (origin : Origin) (request : ScriptRequest) :
    ((∀ host, ¬request.Accepted origin w host) ∧ w.next (.execute_script origin request) = w) ∨
      ∃ host, request.Accepted origin w host ∧ w.next (.execute_script origin request) =
        w.submitted request.toForm origin host "script" (request.params origin) := by
  unfold World.next Call.session execute_script
  rw [World.after_count_live_bind, World.after_fromExcept_bind]
  cases hroom : check_quota origin.site (w.executions.countP (·.live)) with
  | error err =>
    refine Or.inl ⟨fun host h => ?_, rfl⟩
    cases hroom.symm.trans h.room
  | ok answer =>
    dsimp only
    cases hfound : origin.site._get_host_by_id request.host_id with
    | none =>
      refine Or.inl ⟨fun host h => ?_, rfl⟩
      cases hfound.symm.trans h.found
    | some host =>
      dsimp only
      split
      · rename_i hoffline
        refine Or.inl ⟨fun host' h => hoffline ?_, rfl⟩
        obtain rfl := Option.some.inj (hfound.symm.trans h.found)
        exact h.online
      · rename_i honline
        split
        · rename_i hunknown
          exact Or.inl ⟨fun host' h => h.known.elim hunknown.1 hunknown.2, rfl⟩
        · rename_i hknown
          have hknown : request.script_type = "sh" ∨ request.script_type = "python" := by
            by_contra hc
            rw [not_or] at hc
            exact hknown hc
          exact Or.inr ⟨host, ⟨hroom, hfound, not_not.mp honline, hknown⟩, after_submit _ _ _ _⟩

/-- A script approval is stored alone, or nothing happens. -/
theorem after_submit_script_approval (w : World) (origin : Origin) (request : ScriptRequest) :
    w.next (.submit_script_approval origin request) = w ∨
      ∃ host n, w.next (.submit_script_approval origin request) =
        w.add_approval (request.script_approval origin host n) := by
  simp only [World.next, Call.session, submit_script_approval]
  split
  · exact Or.inl rfl
  · rename_i host _
    rw [World.after_fromExcept_bind]
    cases hchecked : request.checked_script_approval origin host with
    | error err => exact Or.inl rfl
    | ok row =>
      obtain ⟨n, rfl⟩ := checked_script_approval_eq hchecked
      exact Or.inr ⟨host, n, rfl⟩

end

end taurus.ops_approval
