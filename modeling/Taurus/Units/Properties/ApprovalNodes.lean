import Taurus.Units.Approval

namespace taurus.units

open taurus.lib taurus.python taurus.engine taurus.ops
open taurus.ops_approval (World ApprovalStatus Completes Votes Reviews Withdraws)
open taurus.approval (User)

/-- What happens to the tables while approval nodes run: requests and executions as
ever, and dispatches and cancels of approval nodes. Rows of approvals are neither
deleted nor edited by hand. -/
inductive OfficeEvent where
  | ops (event : ops_approval.Event)
  | dispatch (office : Office) (cfg : ApprovalConfig)
  | cancel (office : Office) (adapter_state : Dict String Json)

def OfficeEvent.run (w : World) : OfficeEvent → World
  | ops event => w.react event
  | dispatch office cfg =>
    match ApprovalAdapter.dispatch office cfg w with
    | .ok (_, w') => w'
    | .error _ => w
  | cancel office adapter_state => (ApprovalAdapter.cancel office adapter_state w).2

/-- What decides about an approval: a vote that completes it, and whether its execution was started
then, the end of this execution, a rejection, a withdrawal, or the cancel of its node. -/
inductive Decision where
  | vote (user : User) (started : Bool)
  | finished (success : Bool)
  | rejection (user : User)
  | withdrawal (user : User)
  | abort

/-- The execution of the approval can be started: the quota has room, and the host is
there and online. -/
def Starts (site : ops_approval.Site) (w : World) (a : ops_approval.Approval) : Prop :=
  ops_approval.check_quota site (w.executions.countP (·.live)) = .ok () ∧
    ∃ host, site.host a.host_id = some host ∧ host.online_status = 1

/-- The event ends script execution `k`, well or not. -/
def Ends (w : World) (k : Nat) (status : ops.OpsStatus) (success : Bool) : Prop :=
  (∃ x, w.executions[k]? = some x ∧ (x.status = .PENDING ∨ x.status = .RUNNING) ∧
    x.execution_type = "script") ∧
    status = if success then .SUCCESS else .FAILED

/-- The event decides approval `i`: a vote that completes it, the end of the script that the vote
has started, a rejection with a reason, a withdrawal by someone allowed to, or a cancel of its node
while it is not settled. -/
inductive Decides (i : Nat) (w : World) : OfficeEvent → Decision → Prop
  | vote {a site user reason now} (ha : w.approvals[i]? = some a) (h : Completes site a user reason now)
      (hstarts : Starts site w a) :
      Decides i w (.ops (.request (.approve site i user reason now))) (.vote user true)
  | stalled {a site user reason now} (ha : w.approvals[i]? = some a)
      (h : Completes site a user reason now)
      (hstarts : ¬Starts site w a) :
      Decides i w (.ops (.request (.approve site i user reason now))) (.vote user false)
  | finished {a k status success} (ha : w.approvals[i]? = some a) (hrunning : a.status = .executing)
      (hexecution : a.ops_execution = some k) (h : Ends w k status success) :
      Decides i w (.ops (.progress k status)) (.finished success)
  | rejection {a site user reason now} (ha : w.approvals[i]? = some a) (h : Reviews site a user)
      (hreason : reason ≠ "") :
      Decides i w (.ops (.request (.reject site i user reason now))) (.rejection user)
  | withdrawal {a site user now} (ha : w.approvals[i]? = some a) (h : Withdraws a user site) :
      Decides i w (.ops (.request (.cancel site i user now))) (.withdrawal user)
  | abort {a office adapter_state}
      (h : ApprovalAdapter.located w (getJson adapter_state "approval_id") = some (i, a))
      (hopen : a.status = .pending ∨ a.status = .executing ∨ a.status = .failed) :
      Decides i w (.cancel office adapter_state) .abort

/-- A run with the decisions on approval `i` that it brings, in order. -/
inductive Decided (i : Nat) (w : World) : List Decision → World → Prop
  | refl : Decided i w [] w
  | quiet {ds w'} (h : Decided i w ds w') (event : OfficeEvent)
      (hquiet : ∀ d, ¬Decides i w' event d) :
      Decided i w ds (event.run w')
  | step {ds w'} (h : Decided i w ds w') (event : OfficeEvent) {d} (hd : Decides i w' event d) :
      Decided i w (ds ++ [d]) (event.run w')

/-- Where an approval stands after the decisions on it. -/
inductive Standing : List Decision → ApprovalStatus → Prop
  | waiting : Standing [] .pending
  | launched (user : User) : Standing [.vote user true] .executing
  | not_launched (user : User) : Standing [.vote user false] .failed
  | finished (user : User) (success : Bool) :
      Standing [.vote user true, .finished success] (if success then .done else .failed)
  | rejected (user : User) : Standing [.rejection user] .rejected
  | withdrawn (user : User) : Standing [.withdrawal user] .cancelled
  | aborted : Standing [.abort] .cancelled
  | stopped (user : User) (started : Bool) : Standing [.vote user started, .abort] .cancelled
  | given_up (user : User) : Standing [.vote user true, .finished false, .abort] .cancelled

/-- What an approval node is told after the decisions on its approval: it passes with the vote, and
fails if the execution could not be started or has failed. -/
inductive Follows : List Decision → Status → Prop
  | waiting : Follows [] .RUNNING
  | passed (user : User) : Follows [.vote user true] .SUCCESS
  | not_started (user : User) : Follows [.vote user false] .FAILED
  | finished (user : User) (success : Bool) :
      Follows [.vote user true, .finished success] (if success then .SUCCESS else .FAILED)
  | rejected (user : User) : Follows [.rejection user] .FAILED
  | withdrawn (user : User) : Follows [.withdrawal user] .CANCELLED
  | aborted : Follows [.abort] .CANCELLED
  | stopped (user : User) (started : Bool) : Follows [.vote user started, .abort] .CANCELLED
  | given_up (user : User) : Follows [.vote user true, .finished false, .abort] .CANCELLED

variable {i : Nat} {w w' : World} {a a' : ops_approval.Approval} {ds : List Decision} {d : Decision}
  {status status' : ApprovalStatus} {event : OfficeEvent}

/-- The answer of the node follows the decisions. -/
theorem Standing.follows (h : Standing ds a.status) (env : Env) (pk : Nat) :
    Follows ds (ApprovalAdapter.answer env pk a).status := by
  unfold ApprovalAdapter.answer
  generalize a.status = status at h
  cases h with
  | waiting => exact .waiting
  | launched user => exact .passed user
  | not_launched user => exact .not_started user
  | finished user success => cases success <;> exact .finished user _
  | rejected user => exact .rejected user
  | withdrawn user => exact .withdrawn user
  | aborted => exact .aborted
  | stopped user started => exact .stopped user started
  | given_up user => exact .given_up user

/-- The status of approval `i` has moved as said. -/
def Turned (i : Nat) (R : ApprovalStatus → Prop) (w : World) : Prop :=
  ∃ a, w.approvals[i]? = some a ∧ R a.status

theorem located_of_int (ha : w.approvals[i]? = some a) :
    ApprovalAdapter.located w (.int i) = some (i, a) := by
  unfold ApprovalAdapter.located
  simp [ha]

/-- The latest approval with a batch id is one with it. -/
theorem existing_some {batch_id : String} (h : ApprovalAdapter.existing w batch_id = some i) :
    ∃ a, w.approvals[i]? = some a ∧ a.batch_id = some batch_id := by
  obtain ⟨⟨a, k⟩, hlast, rfl⟩ := Option.map_eq_some_iff.mp h
  obtain ⟨hmem, hbatch⟩ := List.mem_filter.mp (List.mem_of_getLast? hlast)
  exact ⟨a, List.mem_zipIdx_iff_getElem?.mp hmem, of_decide_eq_true hbatch⟩

/-- What a dispatch does that leaves the node running: it takes the approval there is, or creates a
pending one. -/
def Taken (cfg : ApprovalConfig) (i : Nat) (w w' : World) : Prop :=
  ApprovalAdapter.existing w cfg.dispatch_id = some i ∧ w' = w ∨
    ApprovalAdapter.existing w cfg.dispatch_id = none ∧ i = w.approvals.length ∧
      ∃ a, w' = w.add_approval a ∧ a.batch_id = some cfg.dispatch_id ∧ a.status = .pending

/-- The approval it takes has the batch of the dispatch. -/
theorem Taken.row {cfg : ApprovalConfig} (h : Taken cfg i w w') :
    ∃ a, w'.approvals[i]? = some a ∧ a.batch_id = some cfg.dispatch_id := by
  obtain ⟨hexisting, rfl⟩ | ⟨-, rfl, a, rfl, hbatch, -⟩ := h
  · exact existing_some hexisting
  · exact ⟨a, List.getElem?_concat_length, hbatch⟩

/-- A poll answers for the approval that was taken. -/
theorem poll_row (ha : w.approvals[i]? = some a) (office : Office) :
    ApprovalAdapter.poll office w [("approval_id", .int i)] =
      ApprovalAdapter.answer office.env i a := by
  have hid : getJson [("approval_id", .int i)] "approval_id" = .int i := rfl
  unfold ApprovalAdapter.poll
  rw [if_neg (List.cons_ne_nil _ _), hid]
  simp only [located_of_int ha]

section quiet

variable {j : Nat} {site : ops_approval.Site} {user : User} {reason : String} {now : Time}

/-- An approval that is left keeps its status. -/
theorem Turned.kept (ha : w.approvals[i]? = some a) : Turned i (· = a.status) w := ⟨a, ha, rfl⟩

theorem Turned.add_approval (ha : w.approvals[i]? = some a) :
    Turned i (· = a.status) (w.add_approval a') :=
  .kept ((List.getElem?_append_left (List.getElem?_eq_some_iff.mp ha).1).trans ha)

end quiet

section again

/-! A node that is dispatched again finds its approval by the batch id. -/

variable {batch_id : String} {j : Nat} {b b' : ops_approval.Approval}

def batches (w : World) : List (Option String) := w.approvals.map (·.batch_id)

end again

/-! Bob has to agree before the workflow goes on. -/

/-- An office whose clock shows a minute and which writes no times. -/
def front_desk (minute : Int) : Office where
  site := ops_approval.shop
  first_host := some 1
  env :=
    { get_class := fun node_type => .error (.other "AdapterNotFound" node_type)
      render_structure := fun _ params => .ok params
      isoformat := fun _ => ""
      parse_datetime := fun _ => none
      now := Time.seconds (60 * minute) }
  repr := fun _ => ""
  foreign_key_error := "FOREIGN KEY constraint failed"

def sign_off : ApprovalConfig where
  execution_id := 7
  dispatch_id := "wfex-7-sign_off"
  node_key := "sign_off"
  node_name := "Sign off"
  user_id := 1
  params := [("approver_user_id", .int 2), ("title", .str "Release")]

/-- The first dispatch, with the tables after it. -/
def asked : UnitOutput × World :=
  (ApprovalAdapter.dispatch (front_desk 0) sign_off {}).toOption.getD ({ status := .FAILED }, {})

end taurus.units
