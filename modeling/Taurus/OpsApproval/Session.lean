import Taurus.Lib.Thread
import Taurus.OpsApproval.Models

namespace taurus.ops_approval

open taurus.lib taurus.ops

/-- The columns of an approval that a save may name in `update_fields`. -/
inductive Field where
  | status
  | approver
  | approve_reason
  | approve_time
  | candidate_approvers
  | approval_records
  | finish_time
  | ops_execution
  deriving DecidableEq

/-- An access to the database. -/
inductive Statement where
  | count_live
  | create_execution (execution : Execution)
  | set_execution_status (k : Nat) (status : OpsStatus)
  | create_approval (row : Approval)
  | get_approval (i : Nat)
  | save_approval (i : Nat) (row : Approval) (update_fields : List Field)

/-- What the database answers. -/
def Statement.Answer : Statement → Type
  | .count_live | .create_execution _ | .create_approval _ => Nat
  | .get_approval _ => Option Approval
  | .set_execution_status _ _ | .save_approval _ _ _ => Unit

/-- The handling of a request, access by access. -/
abbrev Session (α : Type) : Type := Thread Statement Statement.Answer Error α

def count_live : Session Nat := Thread.statement (.count_live : Statement)

def create_execution (execution : Execution) : Session Nat :=
  Thread.statement (.create_execution execution : Statement)

def set_execution_status (k : Nat) (status : OpsStatus) : Session Unit :=
  Thread.statement (.set_execution_status k status : Statement)

def create_approval (row : Approval) : Session Nat :=
  Thread.statement (.create_approval row : Statement)

def get_approval (i : Nat) : Session (Option Approval) :=
  Thread.statement (.get_approval i : Statement)

def save_approval (i : Nat) (row : Approval) (update_fields : List Field) : Session Unit :=
  Thread.statement (.save_approval i row update_fields : Statement)

def error_response {α : Type} (msg : String) : Session α := Thread.raise (.ErrorResponse msg)

namespace Approval

/-- The stored row takes one column over from the object. -/
def take (stored row : Approval) : Field → Approval
  | .status => { stored with status := row.status }
  | .approver => { stored with approver_id := row.approver_id }
  | .approve_reason => { stored with approve_reason := row.approve_reason }
  | .approve_time => { stored with approve_time := row.approve_time }
  | .candidate_approvers => { stored with candidate_approvers := row.candidate_approvers }
  | .approval_records => { stored with approval_records := row.approval_records }
  | .finish_time => { stored with finish_time := row.finish_time }
  | .ops_execution => { stored with ops_execution := row.ops_execution }

def save (stored row : Approval) (update_fields : List Field) : Approval :=
  update_fields.foldl (fun stored field => stored.take row field) stored

section

variable {β : Type} {stored row : Approval} {update_fields : List Field}

/-- A save takes over exactly the columns that it names. -/
theorem save_column {g : Approval → β} {field : Field}
    (hown : ∀ stored row, g (take stored row field) = g row)
    (hother : ∀ stored row other, other ≠ field → g (take stored row other) = g stored) :
    g (save stored row update_fields) = if field ∈ update_fields then g row else g stored := by
  unfold save
  induction update_fields generalizing stored with
  | nil => rfl
  | cons first rest ih =>
    rw [List.foldl_cons, ih]
    by_cases hrest : field ∈ rest
    · rw [if_pos hrest, if_pos (List.mem_cons_of_mem _ hrest)]
    · rw [if_neg hrest]
      by_cases hfirst : first = field
      · rw [hfirst, hown, if_pos List.mem_cons_self]
      · rw [hother _ _ _ hfirst, if_neg]
        exact fun hc => (List.mem_cons.mp hc).elim (fun hc => hfirst hc.symm) hrest

/-- The status is saved if it is among the fields. -/
theorem status_save : (save stored row update_fields).status =
  if Field.status ∈ update_fields then row.status else stored.status := by
  apply save_column fun _ _ => rfl
  intro stored row other hother
  cases other <;> first | rfl | exact absurd rfl hother

theorem ops_execution_save : (save stored row update_fields).ops_execution =
    if Field.ops_execution ∈ update_fields then row.ops_execution else stored.ops_execution := by
  apply save_column fun _ _ => rfl
  intro stored row other hother
  cases other <;> first | rfl | exact absurd rfl hother

end

end Approval

namespace Execution

/-- `status__in=[0, 1, 5]` -/
def live (execution : Execution) : Bool :=
  execution.status = .PENDING || execution.status = .RUNNING || execution.status = .APPROVING

end Execution

/-- The two tables; rows are numbered from 0. -/
structure World where
  executions : List Execution := []
  approvals : List Approval := []

namespace World

def modify_approval (w : World) (i : Nat) (change : Approval → Approval) : World :=
  { w with approvals := w.approvals.modify i change }

def set_status (w : World) (k : Nat) (status : OpsStatus) : World :=
  { w with executions := w.executions.modify k ({ · with status }) }

/-- The database executes one access. -/
def exec : (c : Statement) → World → c.Answer × World
  | .count_live, w => (w.executions.countP (·.live), w)
  | .create_execution execution, w =>
    (w.executions.length, { w with executions := w.executions ++ [execution] })
  | .set_execution_status k status, w => ((), w.set_status k status)
  | .create_approval row, w => (w.approvals.length, { w with approvals := w.approvals ++ [row] })
  | .get_approval i, w => (w.approvals[i]?, w)
  | .save_approval i row update_fields, w => ((), w.modify_approval i (·.save row update_fields))

/-- The state after a request that is handled with nothing in between. -/
def after {α : Type} (w : World) (session : Session α) : World := (session.complete exec w).2

section

variable {α β : Type} (w : World) (i : Nat)

@[simp] theorem after_pure (x : α) : w.after (pure x) = w := rfl

@[simp] theorem after_raise (err : Error) : w.after (Thread.raise err : Session α) = w := rfl

@[simp] theorem after_error_response (msg : String) :
    w.after (error_response msg : Session α) = w := rfl

@[simp] theorem after_raise_bind (err : Error) (f : α → Session β) :
    w.after ((Thread.raise err : Session α) >>= f) = w := rfl

@[simp] theorem after_fromExcept_bind (result : Except Error α) (f : α → Session β) :
    w.after (Thread.fromExcept result >>= f) =
      match result with
      | .ok x => w.after (f x)
      | .error _ => w := by
  cases result <;> rfl

/-- The view goes on whatever the attempt gives. -/
theorem after_attempt_bind (t : Session α) (f : Except Error α → Session β) :
    w.after (Thread.attempt t >>= f) = (w.after t).after (f (t.complete exec w).1) := by
  unfold after
  rw [Thread.complete_bind, Thread.complete_attempt]

@[simp] theorem after_count_live_bind (f : Nat → Session α) :
    w.after (count_live >>= f) = w.after (f (w.executions.countP (·.live))) := rfl

@[simp] theorem after_create_execution_bind (execution : Execution) (f : Nat → Session α) :
    w.after (create_execution execution >>= f) =
      ({ w with executions := w.executions ++ [execution] } : World).after
        (f w.executions.length) := rfl

@[simp] theorem after_set_execution_status_bind (k : Nat) (status : OpsStatus)
    (f : Unit → Session α) :
    w.after (set_execution_status k status >>= f) = (w.set_status k status).after (f ()) := rfl

@[simp] theorem after_create_approval_bind (row : Approval) (f : Nat → Session α) :
    w.after (create_approval row >>= f) =
      ({ w with approvals := w.approvals ++ [row] } : World).after (f w.approvals.length) := rfl

@[simp] theorem after_get_approval_bind (f : Option Approval → Session α) :
    w.after (get_approval i >>= f) = w.after (f w.approvals[i]?) := rfl

@[simp] theorem after_save_approval_bind (row : Approval) (update_fields : List Field)
    (f : Unit → Session α) :
    w.after (save_approval i row update_fields >>= f) =
      (w.modify_approval i (·.save row update_fields)).after (f ()) := rfl

end

end World

end taurus.ops_approval
