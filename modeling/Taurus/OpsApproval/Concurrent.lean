import Taurus.Lib.Thread
import Taurus.OpsApproval.Effects

namespace taurus.ops_approval

open taurus.lib taurus.lib.Thread taurus.lib.Protocol taurus.engine taurus.ops
open taurus.approval (User)

/-- The stored state with the executed accesses, the latest one first. -/
structure Database where
  world : World
  log : List (Nat × Statement) := []

def Database.exec (t : Nat) (c : Statement) (d : Database) : Option (c.Answer × Database) :=
  some ((World.exec c d.world).1, { world := (World.exec c d.world).2, log := (t, c) :: d.log })

/-- The access starts an execution. -/
def Statement.creates : Statement → Bool
  | .create_execution _ => true
  | _ => false

/-- The access stores a status of approval `i`. -/
def Statement.settles (i : Nat) : Statement → Bool
  | .save_approval j _ update_fields => j = i ∧ Field.status ∈ update_fields
  | _ => false

/-- What a request has read of approval `i` is out of date once another one has started an
execution for it or stored its status. -/
def accesses (i : Nat) : Accesses Statement Unit where
  reads
    | .get_approval j, _ => j = i
    | _, _ => false
  saves c _ := c.creates || c.settles i

/-- Request `t` has started an execution and not stored the status since. -/
def launching (i t : Nat) : List (Nat × Statement) → Bool
  | [] => false
  | (u, c) :: rest =>
    if u = t then c.creates || (!c.settles i && launching i t rest) else launching i t rest

/-- How far the handling of a request has come: what it has read is pending, or it has started
the execution. -/
inductive Stage where
  | idle
  | reviewed
  | launched
  deriving DecidableEq

/-- How far a request is with what it has read. -/
def Stage.of_row (row : Option Approval) : Stage :=
  if row.any (·.status = .pending) then reviewed else idle

/-- How the requests on approval `i` use the database. -/
def discipline (i : Nat) : Protocol Statement Statement.Answer Stage where
  allowed stage
    | .count_live | .set_execution_status _ _ => True
    | .get_approval j => j = i
    | .create_execution _ => stage = .reviewed
    | .save_approval j row update_fields => j = i ∧ (Field.status ∈ update_fields →
        stage = .reviewed ∧ (row.status = .rejected ∨ row.status = .cancelled ∨
        row.status = .failed) ∨
          stage = .launched ∧ row.status = .executing)
    | .create_approval _ => False
  answers _ _ _ := True
  next stage c answer stage' :=
    match c, answer with
    | .get_approval _, row => stage' = .of_row row
    | .create_execution _, _ => stage' = .launched
    | .save_approval _ _ update_fields, _ =>
      stage' = if Field.status ∈ update_fields ∧ stage = .reviewed then .idle else stage
    | .count_live, _ | .set_execution_status _ _, _ | .create_approval _, _ => stage' = stage

/-- How a request on approval `i` comes along in a protocol: it has read nothing yet, it has read
the approval while it was pending, it has counted the live executions, it has created an execution,
it has stored that the approval is executed, or it has decided the approval otherwise. -/
structure Usage {η : Type} (p : Protocol Statement Statement.Answer η) (i : Nat) (site : Site) where
  idle : η → Prop
  reviewed : η → Prop
  counted : Nat → η → Prop
  created : Nat → η → Prop
  stored : η → Prop
  settled : η → Prop
  get : p.Keeps idle (get_approval i)
    (fun answer h => ∀ row, answer = some row → row.status = .pending → reviewed h) fun _ => False
  count : p.Keeps reviewed count_live counted fun _ => False
  reviewed_of_counted : ∀ running h, counted running h → reviewed h
  create : ∀ running x, check_quota site running = .ok () → x.status = .PENDING →
    p.Keeps (counted running) (create_execution x) created fun _ => False
  launch : ∀ k row, row.ops_execution = some k → row.status = .executing →
    p.Keeps (created k) (save_approval i row [.ops_execution, .status]) (fun _ => stored)
    fun _ => False
  finish : ∀ row, row.status = .executing →
    p.Keeps stored (save_approval i row decision_fields) (fun _ _ => True) fun _ => False
  settle : ∀ row update_fields, Field.status ∈ update_fields → Field.ops_execution ∉ update_fields →
    (row.status = .rejected ∨ row.status = .cancelled ∨ row.status = .failed) →
      p.Keeps reviewed (save_approval i row update_fields) (fun _ => settled) fun _ => False
  note : ∀ row update_fields, Field.status ∉ update_fields → Field.ops_execution ∉ update_fields →
    p.Keeps reviewed (save_approval i row update_fields) (fun _ _ => True) fun _ => False
  mark : ∀ k, p.Keeps settled (set_execution_status k .REJECTED) (fun _ _ => True) fun _ => False

namespace Usage

variable {α β η : Type} {p : Protocol Statement Statement.Answer η} {i : Nat} {site : Site}
  (usage : Usage p i site)
  {user : User} {reason action : String} {now : Time}

/-- A request that keeps to the protocol until it returns or raises. -/
def Keeps (p : Protocol Statement Statement.Answer η) (P : η → Prop) (t : Session α) : Prop :=
  p.Keeps P t (fun _ _ => True) fun _ => True

/-- A request that keeps to the protocol first and goes on with one that does. -/
theorem keeps_step {P : η → Prop} {R : α → η → Prop} {t : Session α} {f : α → Session β}
    (ht : p.Keeps P t R fun _ => False) (hf : ∀ x, Keeps p (R x) (f x)) : Keeps p P (t >>= f) :=
  keeps_bind (ht.conseq (fun _ h => h) (fun _ _ h => h) fun _ h => absurd h id) hf

/-- An error answer ends the request. -/
theorem keeps_error_response {P : η → Prop} {msg : String} :
    Keeps p P (error_response msg : Session β) :=
  keeps_raise fun _ _ => trivial

theorem keeps_return {P : η → Prop} {x : β} : Keeps p P (pure x : Session β) :=
  keeps_pure fun _ _ => trivial

include usage

/-- The row is loaded before it is reviewed. -/
theorem keeps_get_pending_bind {f : Approval → Session β}
    (hf : ∀ row, Keeps p usage.reviewed (f row)) :
    Keeps p usage.idle (get_pending site i user action >>= f) := by
  unfold get_pending get_object
  simp only [bind_assoc]
  refine keeps_step usage.get fun answer => ?_
  cases answer with
  | none => exact keeps_raise fun _ _ => trivial
  | some row =>
    dsimp only
    split
    · rw [pure_bind]
      split
      · exact keeps_error_response
      · rename_i hpending
        intro h hread
        exact hf row h (hread row rfl (not_not.mp hpending))
    · exact keeps_raise fun _ _ => trivial

/-- The trigger starts the execution and stores that it runs, or stops before. -/
theorem keeps_trigger {row : Approval} :
    p.Keeps usage.reviewed (_trigger_approval_execution site i row user)
    (fun row h => usage.stored h ∧ row.status = .executing) usage.reviewed := by
  have strong : ∀ {α : Type} {t : Session α} {P : η → Prop} {R : α → η → Prop},
    p.Keeps P t R (fun _ => False) →
      p.Keeps P t R usage.reviewed :=
    fun h => h.conseq (fun _ h => h) (fun _ _ h => h) fun _ h => absurd h id
  refine keeps_bind (strong usage.count) fun running => ?_
  refine keeps_bind (R := fun _ h => check_quota site running = .ok () ∧ usage.counted running h)
    (keeps_fromExcept (fun _ hquota h hh => ⟨hquota, hh⟩) (usage.reviewed_of_counted running))
    fun _ => ?_
  split
  · exact keeps_raise fun h hh => usage.reviewed_of_counted running h hh.2
  · split
    · exact keeps_raise fun h hh => usage.reviewed_of_counted running h hh.2
    · rename_i host _ _
      rintro h ⟨hquota, hcounted⟩
      have hcreate := strong (usage.create running (approved_execution row host user) hquota rfl)
      refine keeps_bind hcreate (fun k => ?_) h hcounted
      refine keeps_bind (strong (usage.launch k
        { row with ops_execution := some k, status := .executing } rfl rfl)) fun _ => ?_
      exact keeps_pure fun h hh => ⟨hh, rfl⟩

/-- An approval keeps to the protocol: the execution is created before the status is stored. -/
theorem keeps_approve : Keeps p usage.idle (approve site i user reason now) := by
  refine usage.keeps_get_pending_bind fun row => ?_
  split
  · exact keeps_error_response
  · split
    · exact keeps_error_response
    · refine keeps_bind (R := fun _ => usage.reviewed)
        (keeps_fromExcept (fun _ _ _ hs => hs) fun _ _ => trivial) fun completes => ?_
      split
      · refine keeps_bind (keeps_attempt usage.keeps_trigger) fun result => ?_
        cases result with
        | error err =>
          refine keeps_step (usage.settle _ _ (by decide) (by decide) (Or.inr (Or.inr rfl)))
            fun _ => ?_
          exact keeps_error_response
        | ok row =>
          rintro h ⟨hstored, hstatus⟩
          exact keeps_step (usage.finish row hstatus) (fun _ => keeps_return) h hstored
      · exact keeps_step (usage.note _ _ (by decide) (by decide)) fun _ => keeps_return

/-- A rejection stores the status without an execution. -/
theorem keeps_reject : Keeps p usage.idle (reject site i user reason now) := by
  refine usage.keeps_get_pending_bind fun row => ?_
  split
  · exact keeps_error_response
  · split
    · exact keeps_error_response
    · refine keeps_step (usage.settle _ _ (by decide) (by decide) (Or.inl rfl)) fun _ => ?_
      split
      · exact keeps_step (usage.mark _) fun _ => keeps_return
      · exact keeps_return

theorem keeps_cancel : Keeps p usage.idle (cancel site i user now) := by
  refine usage.keeps_get_pending_bind fun row => ?_
  split
  · exact keeps_error_response
  · exact keeps_step (usage.settle _ _ (by decide) (by decide) (Or.inr (Or.inl rfl)))
      fun _ => keeps_return

/-- A delegation stores no status. -/
theorem keeps_delegate {to_user_id : Int} :
    Keeps p usage.idle (delegate site i user to_user_id reason now) := by
  refine usage.keeps_get_pending_bind fun row => ?_
  split
  · exact keeps_error_response
  · split
    · exact keeps_error_response
    · split
      · exact keeps_error_response
      · refine keeps_bind (R := fun _ => usage.reviewed)
          (keeps_fromExcept (fun _ _ _ hs => hs) fun _ _ => trivial) fun _ => ?_
        exact keeps_step (usage.note _ _ (by decide) (by decide)) fun _ => keeps_return

/-- Neither does adding signers. -/
theorem keeps_add_sign {user_ids : List Int} :
    Keeps p usage.idle (add_sign site i user user_ids reason now) := by
  refine usage.keeps_get_pending_bind fun row => ?_
  split
  · exact keeps_error_response
  · split
    · exact keeps_error_response
    · refine keeps_bind (R := fun _ => usage.reviewed)
        (keeps_fromExcept (fun _ _ _ hs => hs) fun _ _ => trivial) fun _ => ?_
      exact keeps_step (usage.note _ _ (by decide) (by decide)) fun _ => keeps_return

end Usage

namespace Call

/-- The request decides or changes approval `i`. -/
def On (i : Nat) : Call → Prop
  | .execute_command _ _ | .execute_script _ _ | .submit_script_approval _ _ => False
  | .approve _ j _ _ _ | .reject _ j _ _ _ | .delegate _ j _ _ _ _ | .add_sign _ j _ _ _ _ | .cancel _ j _ _ => j = i

def site : Call → Site
  | .execute_command origin _ | .execute_script origin _ | .submit_script_approval origin _ => origin.site
  | .approve site _ _ _ _ | .reject site _ _ _ _ | .delegate site _ _ _ _ _ | .add_sign site _ _ _ _ _ | .cancel site _ _ _ => site

def thread (c : Call) : Session Unit := c.session >>= fun _ => pure ()

end Call

/-- Every request on the approval keeps to the protocol. -/
theorem Usage.keeps_thread {η : Type} {p : Protocol Statement Statement.Answer η}
    {i : Nat} {c : Call} (usage : Usage p i c.site) (hc : c.On i) :
    Usage.Keeps p usage.idle c.thread := by
  refine keeps_bind (R := fun _ _ => True) ?_ fun _ => keeps_return
  cases c with
  | execute_command => exact absurd hc id
  | execute_script => exact absurd hc id
  | submit_script_approval => exact absurd hc id
  | approve site j user reason now =>
    obtain rfl : j = i := hc
    exact usage.keeps_approve
  | reject site j user reason now =>
    obtain rfl : j = i := hc
    exact usage.keeps_reject
  | delegate site j user to_user_id reason now =>
    obtain rfl : j = i := hc
    exact usage.keeps_delegate
  | add_sign site j user user_ids reason now =>
    obtain rfl : j = i := hc
    exact usage.keeps_add_sign
  | cancel site j user now =>
    obtain rfl : j = i := hc
    exact usage.keeps_cancel

/-- How the requests go through the stages of the discipline. -/
def usage (i : Nat) (site : Site) : Usage (discipline i) i site where
  idle _ := True
  reviewed stage := stage = .reviewed
  counted _ stage := stage = .reviewed
  created _ stage := stage = .launched
  stored stage := stage = .launched
  settled stage := stage = .idle
  get stage _ := ⟨rfl, fun answer _ => ⟨.of_row answer, rfl, fun row hrow hpending => by
    subst hrow
    exact if_pos (decide_eq_true hpending)⟩⟩
  count stage hstage := ⟨trivial, fun _ _ => ⟨stage, rfl, hstage⟩⟩
  reviewed_of_counted _ _ h := h
  create _ _ _ _ _ hstage := ⟨hstage, fun _ _ => ⟨.launched, rfl, rfl⟩⟩
  launch _ _ _ hstatus stage hstage := by
    subst hstage
    exact ⟨⟨rfl, fun _ => Or.inr ⟨rfl, hstatus⟩⟩,
      fun _ _ => ⟨.launched, (if_neg fun hc => by cases hc.2).symm, rfl⟩⟩
  finish _ hstatus stage hstage := by
    subst hstage
    exact ⟨⟨rfl, fun _ => Or.inr ⟨rfl, hstatus⟩⟩,
      fun _ _ => ⟨.launched, (if_neg fun hc => by cases hc.2).symm, trivial⟩⟩
  settle _ _ hfield _ hstatus stage hstage := by
    subst hstage
    exact ⟨⟨rfl, fun _ => Or.inl ⟨rfl, hstatus⟩⟩,
      fun _ _ => ⟨.idle, (if_pos ⟨hfield, rfl⟩).symm, rfl⟩⟩
  note _ _ hfield _ stage _ :=
    ⟨⟨rfl, fun hc => absurd hc hfield⟩,
      fun _ _ => ⟨stage, (if_neg fun hc => hfield hc.1).symm, trivial⟩⟩
  mark _ stage _ := ⟨trivial, fun _ _ => ⟨stage, rfl, trivial⟩⟩

end taurus.ops_approval
