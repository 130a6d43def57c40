import Mathlib.Data.List.Sort
import Taurus.Approval.Models
import Taurus.Lib.Thread

namespace taurus.approval

open taurus.lib

/-- An access to the database. Every `save()` writes a whole object. -/
inductive Statement where
  | get_instance (i : Nat)
  | node_executions (i : Nat)
  | save_node (i : Nat) (node_exec : NodeExecution)
  | save_instance (i : Nat) (row : Instance)
  | get_subject
  | save_subject (subject : Subject)
  | create_instance (row : Instance)
  | create_node (i : Nat) (node_exec : NodeExecution)

/-- What the database answers. -/
def Statement.Answer : Statement → Type
  | .get_instance _ => Option Instance
  | .node_executions _ => List NodeExecution
  | .get_subject => Subject
  | .create_instance _ => Nat
  | .save_node _ _ | .save_instance _ _ | .save_subject _ | .create_node _ _ => Unit

/-- A call of an approval engine, access by access. -/
abbrev Session (α : Type) : Type := Thread Statement Statement.Answer Error α

def statement (c : Statement) : Session c.Answer := Thread.statement c

def get_instance (i : Nat) : Session (Option Instance) := statement (.get_instance i)

def node_executions (i : Nat) : Session (List NodeExecution) := statement (.node_executions i)

def save_node (i : Nat) (node_exec : NodeExecution) : Session Unit :=
  statement (.save_node i node_exec)

def save_instance (i : Nat) (row : Instance) : Session Unit := statement (.save_instance i row)

def get_subject : Session Subject := statement .get_subject

def save_subject (subject : Subject) : Session Unit := statement (.save_subject subject)

def create_instance (row : Instance) : Session Nat := statement (.create_instance row)

def create_node (i : Nat) (node_exec : NodeExecution) : Session Unit :=
  statement (.create_node i node_exec)

/-- `order_by('step_order')`; nodes with the same order come in the order of their creation. -/
def ordered (nodes : List NodeExecution) : List NodeExecution :=
  nodes.insertionSort fun a b => a.step_order ≤ b.step_order

namespace Approval

/-- The row with the object's key is overwritten. -/
def save_node (a : Approval) (node_exec : NodeExecution) : Approval :=
  { a with nodes := a.nodes.map fun n => if n.id = node_exec.id then node_exec else n }

def create_node (a : Approval) (node_exec : NodeExecution) : Approval :=
  { a with nodes := a.nodes ++ [{ node_exec with id := a.nodes.length }] }

end Approval

namespace World

def modify (w : World) (i : Nat) (change : Approval → Approval) : World :=
  { w with approvals := w.approvals.modify i change }

def add (w : World) (row : Instance) (nodes : List NodeExecution) : World :=
  { w with approvals := w.approvals ++ [{ row, nodes }] }

/-- The database executes one access. -/
def exec : (c : Statement) → World → c.Answer × World
  | .get_instance i, w => (w.approvals[i]?.map (·.row), w)
  | .node_executions i, w => (ordered ((w.approvals[i]?.map (·.nodes)).getD []), w)
  | .save_node i node_exec, w => ((), w.modify i (·.save_node node_exec))
  | .save_instance i row, w => ((), w.modify i ({ · with row }))
  | .get_subject, w => (w.subject, w)
  | .save_subject subject, w => ((), { w with subject })
  | .create_instance row, w => (w.approvals.length, w.add row [])
  | .create_node i node_exec, w => ((), w.modify i (·.create_node node_exec))

/-- The state after a session that runs with nothing in between. -/
def after {α : Type} (w : World) (session : Session α) : World := (session.complete exec w).2

section

variable {α : Type} (w : World) (i : Nat)

@[simp] theorem after_pure (x : α) : w.after (pure x) = w := rfl

@[simp] theorem after_raise (err : Error) : w.after (Thread.raise err : Session α) = w := rfl

@[simp] theorem after_raise_bind {β : Type} (err : Error) (f : α → Session β) :
    w.after ((Thread.raise err : Session α) >>= f) = w := rfl

/-- A failed check ends the session and leaves the state. -/
@[simp] theorem after_fromExcept_bind {β : Type} (result : Except Error α) (f : α → Session β) :
    w.after (Thread.fromExcept result >>= f) =
      match result with
      | .ok x => w.after (f x)
      | .error _ => w := by
  cases result <;> rfl

@[simp] theorem after_get_instance_bind (f : Option Instance → Session α) :
    w.after (get_instance i >>= f) = w.after (f (w.approvals[i]?.map (·.row))) := rfl

/-- The nodes come in their order. -/
@[simp] theorem after_node_executions_bind (f : List NodeExecution → Session α) :
    w.after (node_executions i >>= f) =
      w.after (f (ordered ((w.approvals[i]?.map (·.nodes)).getD []))) := rfl

@[simp] theorem after_save_node_bind (node_exec : NodeExecution) (f : Unit → Session α) :
    w.after (approval.save_node i node_exec >>= f) =
      (w.modify i (·.save_node node_exec)).after (f ()) := rfl

@[simp] theorem after_save_instance_bind (row : Instance) (f : Unit → Session α) :
    w.after (save_instance i row >>= f) = (w.modify i ({ · with row })).after (f ()) := rfl

@[simp] theorem after_get_subject_bind (f : Subject → Session α) :
    w.after (get_subject >>= f) = w.after (f w.subject) := rfl

@[simp] theorem after_save_subject_bind (subject : Subject) (f : Unit → Session α) :
    w.after (save_subject subject >>= f) = ({ w with subject } : World).after (f ()) := rfl

@[simp] theorem after_create_instance_bind (row : Instance) (f : Nat → Session α) :
    w.after (create_instance row >>= f) =
      (w.add row []).after (f w.approvals.length) := rfl

@[simp] theorem after_create_node_bind (node_exec : NodeExecution) (f : Unit → Session α) :
    w.after (approval.create_node i node_exec >>= f) =
      (w.modify i (·.create_node node_exec)).after (f ()) := rfl

end

end World

open taurus.lib.Thread taurus.engine

/-- The two approval engines, `WorkflowApprovalFlowEngine` and `ApprovalFlowEngine`. -/
inductive Engine where
  | workflow
  | script
  deriving DecidableEq

def value_error {α : Type} (message : String) : Session α := raise (.ValueError message)

def User.candidate (user : User) : Candidate :=
  { user_id := user.id, username := user.username, name := user.name }

def User.record (user : User) (action : Action) (reason : String) (now : Time) : ActionRecord :=
  { user_id := user.id, username := user.username, action, reason, operate_time := now }

namespace NodeExecution

def candidate_ids (node_exec : NodeExecution) : List Int :=
  node_exec.candidate_approvers.map (·.user_id)

def add_record (node_exec : NodeExecution) (record : ActionRecord) : NodeExecution :=
  { node_exec with approval_records := node_exec.approval_records ++ [record] }

/-- Where a delegation is recorded. -/
def add_delegation (node_exec : NodeExecution) (record : ActionRecord) : Engine → NodeExecution
  | .workflow => node_exec.add_record record
  | .script => { node_exec with delegate_records := node_exec.delegate_records ++ [record] }

/-- Where added signers are recorded. -/
def add_signature (node_exec : NodeExecution) (record : ActionRecord) : Engine → NodeExecution
  | .workflow => node_exec.add_record record
  | .script => { node_exec with add_sign_records := node_exec.add_sign_records ++ [record] }

/-- Those of the users who are not candidates yet are appended. -/
def add_candidates (node_exec : NodeExecution) (users : List User) : NodeExecution :=
  let new := users.filter fun u => u.id ∉ node_exec.candidate_ids
  { node_exec with candidate_approvers := node_exec.candidate_approvers ++ new.map User.candidate }

def finish (node_exec : NodeExecution) (status : NodeStatus) (now : Time) : NodeExecution :=
  { node_exec with status, finish_time := some now }

end NodeExecution

def Instance.finish (row : Instance) (status : InstanceStatus) (now : Time) : Instance :=
  { row with status, finish_time := some now }

def Instance.move_to (row : Instance) (next_index : Nat) : Instance :=
  { row with current_node_index := next_index }

def _is_user_approver (node_exec : NodeExecution) (user : User) : Bool :=
  node_exec.candidate_ids.contains user.id

def _is_node_approved (node_exec : NodeExecution) : Bool :=
  let approve_cnt := node_exec.approval_records.countP (·.action = .approve)
  let candidate_cnt := node_exec.candidate_approvers.length
  match node_exec.approval_mode with
  | .first | .any => 1 ≤ approve_cnt
  | .all => candidate_cnt ≤ approve_cnt ∧ 0 < candidate_cnt

/-- The user has approved or rejected the node before. -/
def has_decided (node_exec : NodeExecution) (user : User) : Bool :=
  node_exec.approval_records.any fun rec => rec.user_id = user.id ∧ rec.action.decides

def get_pending (i : Nat) : Session Instance := do
  match ← get_instance i with
  | none => raise .DoesNotExist
  | some row =>
    if row.status ≠ .pending then value_error "This approval already processed" else pure row

/-- The current node, when the user may approve or reject it. -/
def node_to_decide (row : Instance) (nodes : List NodeExecution) (approver : User) :
    Except Error NodeExecution :=
  match nodes[row.current_node_index]? with
  | none => .error (.ValueError "Approval workflow completed")
  | some node_exec =>
    if !_is_user_approver node_exec approver then .error (.ValueError "Not approver for this node")
    else if has_decided node_exec approver then .error (.ValueError "Already processed this node")
    else .ok node_exec

/-- The current node, when the user may change its candidates. -/
def node_to_extend (row : Instance) (nodes : List NodeExecution) (approver : User) :
    Except Error NodeExecution :=
  match nodes[row.current_node_index]? with
  | none => .error .IndexError
  | some node_exec =>
    if !_is_user_approver node_exec approver then .error (.ValueError "Not approver for this node")
    else .ok node_exec

def set_subject_status (status : SubjectStatus) : Session Unit := do
  let subject ← get_subject
  save_subject { subject with status }

def approve (i : Nat) (approver : User) (reason : String) (now : Time) : Session Instance := do
  let row ← get_pending i
  let nodes ← node_executions i
  let node_exec ← fromExcept (node_to_decide row nodes approver)
  let node_exec := node_exec.add_record (approver.record .approve reason now)
  if _is_node_approved node_exec then
    save_node i (node_exec.finish .approved now)
    let next_index := row.current_node_index + 1
    if nodes.length ≤ next_index then
      let row := row.finish .approved now
      save_instance i row
      set_subject_status .enabled
      pure row
    else
      let row := row.move_to next_index
      save_instance i row
      pure row
  else
    save_node i node_exec
    pure row

def reject (i : Nat) (approver : User) (reason : String) (now : Time) : Session Instance := do
  let row ← get_pending i
  let nodes ← node_executions i
  let node_exec ← fromExcept (node_to_decide row nodes approver)
  let node_exec := node_exec.add_record (approver.record .reject reason now)
  save_node i (node_exec.finish .rejected now)
  let row := row.finish .rejected now
  save_instance i row
  pure row

/-- Who may withdraw a submission. -/
def may_withdraw (row : Instance) (operator : User) : Engine → Bool
  | .workflow => row.submitter_id = some operator.id || operator.is_superuser
  | .script => row.submitter_id = some operator.id

def cancel (e : Engine) (i : Nat) (operator : User) (now : Time) : Session Instance := do
  let row ← get_pending i
  if !may_withdraw row operator e then value_error "Only submitter can withdraw"
  else
    let row := row.finish .cancelled now
    save_instance i row
    set_subject_status .disabled
    pure row

def delegate (e : Engine) (dir : Directory) (i : Nat) (approver : User) (to_user_id : Int)
    (reason : String) (now : Time) : Session Instance := do
  let row ← get_pending i
  let nodes ← node_executions i
  let node_exec ← fromExcept (node_to_extend row nodes approver)
  match dir.users.find? (·.id = to_user_id) with
  | none => value_error "Target user not found"
  | some to_user =>
    let record := approver.record (.delegate to_user.id to_user.username) reason now
    save_node i ((node_exec.add_delegation record e).add_candidates [to_user])
    pure row

def add_sign (e : Engine) (dir : Directory) (i : Nat) (approver : User) (user_ids : List Int)
    (reason : String) (now : Time) : Session Instance := do
  let row ← get_pending i
  let nodes ← node_executions i
  let node_exec ← fromExcept (node_to_extend row nodes approver)
  let users := dir.users.filter (·.id ∈ user_ids)
  let recorded := match e with
    | .workflow => users.map (·.id)
    | .script => user_ids
  save_node i ((node_exec.add_signature
    (approver.record (.add_sign recorded) reason now) e).add_candidates users)
  pure row

end taurus.approval
