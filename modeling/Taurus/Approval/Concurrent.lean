import Taurus.Approval.Effects
import Taurus.Lib.Thread

namespace taurus.approval

open taurus.lib taurus.lib.Thread taurus.lib.Protocol taurus.engine

/-- What calls on one instance read into memory and save as a whole. -/
inductive Object where
  | row (i : Nat)
  | node (i k : Nat)
  deriving DecidableEq

def accesses : Accesses Statement Object where
  reads
    | .get_instance i, o => o = .row i
    | .node_executions i, .node j _ => i = j
    | _, _ => false
  saves
    | .save_instance i _, o => o = .row i
    | .save_node i n, o => o = .node i n.id
    | _, _ => false

/-- The stored state with the executed statements, the latest one first. -/
structure Database where
  world : World
  log : List (Nat × Statement) := []

def Database.exec (t : Nat) (c : Statement) (d : Database) : Option (c.Answer × Database) :=
  some ((World.exec c d.world).1, { world := (World.exec c d.world).2, log := (t, c) :: d.log })

/-- The lists of records that a node has. -/
inductive RecordField where
  | approval_records
  | delegate_records
  | add_sign_records
  deriving DecidableEq

def NodeExecution.records (n : NodeExecution) : RecordField → List ActionRecord
  | .approval_records => n.approval_records
  | .delegate_records => n.delegate_records
  | .add_sign_records => n.add_sign_records

/-- No record is lost from `n` to `n'`. -/
def NodeExecution.Keeps (n n' : NodeExecution) : Prop :=
  n'.id = n.id ∧ ∀ f r, r ∈ n.records f → r ∈ n'.records f

/-- What a call has in memory: the row and the nodes it has read and not saved, whether it has
saved the row as approved, and the nodes it has saved. -/
structure Held where
  row : Option Instance := none
  nodes : Option (List NodeExecution) := none
  granted : Bool := false
  saved : List NodeExecution := []

/-- How the calls on instance `i` use the database. -/
def discipline (i : Nat) : Protocol Statement Statement.Answer Held where
  allowed h
    | .get_instance j | .node_executions j => j = i
    | .get_subject => True
    | .save_instance j _ => j = i ∧ ∃ row, h.row = some row ∧ row.status = .pending
    | .save_node j n => j = i ∧ ∃ nodes, h.nodes = some nodes ∧ ∃ n₀ ∈ nodes, n₀.Keeps n
    | .save_subject subject => subject.status = .enabled → h.granted = true
    | .create_instance _ | .create_node _ _ => False
  answers _ _ _ := True
  next h c answer h' :=
    match c, answer with
    | .get_instance _, row => h' = { h with row := row }
    | .node_executions _, nodes => h' = { h with nodes := some nodes }
    | .save_instance _ row, _ => h' = { h with row := none, granted := row.status = .approved }
    | .save_node _ n, _ => h' = { h with nodes := none, saved := n :: h.saved }
    | .get_subject, _ | .save_subject _, _ | .create_instance _, _ | .create_node _ _, _ => h' = h

section

variable {α β : Type} {i : Nat} {P : Held → Prop} {R : α → Held → Prop} {Q : β → Held → Prop}

/-- From a memory with `P` the session keeps to the discipline until it returns with
`Q` or raises. -/
def Obedient (i : Nat) (P : Held → Prop) (t : Session α) (R : α → Held → Prop) : Prop :=
  (discipline i).Keeps P t R fun _ => True

/-- A request that keeps to the protocol and goes on with one that does. -/
theorem obedient_bind {t : Session α} {f : α → Session β} (ht : Obedient i P t R)
    (hf : ∀ x, Obedient i (R x) (f x) Q) : Obedient i P (t >>= f) Q := keeps_bind ht hf

theorem obedient_pure {x : β} (h : ∀ s, P s → Q x s) :
    Obedient i P (pure x : Session β) Q := keeps_pure h

theorem obedient_raise {err : Error} : Obedient i P (Thread.raise err : Session β) Q :=
  keeps_raise fun _ _ => trivial

/-- A checked result is free: the request raises, or goes on with what was checked. -/
theorem obedient_fromExcept {result : Except Error β} (h : ∀ x, result = .ok x → ∀ s, P s → Q x s) :
    Obedient i P (fromExcept result : Session β) Q := keeps_fromExcept h fun _ _ => trivial

/-- A fact about no database state may be assumed outright. -/
theorem obedient_of_fact {p : Prop} {t : Session α} (h : p → Obedient i P t R) :
    Obedient i (fun s => P s ∧ p) t R :=
  fun s hs => h hs.2 s hs.1

/-- Less may be known before, and less asked for after. -/
theorem Obedient.conseq {P' : Held → Prop} {R' : α → Held → Prop} {t : Session α}
    (h : Obedient i P t R) (hP : ∀ s, P' s → P s) (hR : ∀ x s, R x s → R' x s) :
    Obedient i P' t R' :=
  Keeps.conseq h hP hR fun _ _ => trivial

/-- The row as it was read, pending. -/
def Loaded (row : Instance) (h : Held) : Prop := h.row = some row ∧ row.status = .pending

/-- The row and the nodes as they were read. -/
def Listed (row : Instance) (nodes : List NodeExecution) (h : Held) : Prop :=
  Loaded row h ∧ h.nodes = some nodes

/-- One of the nodes has the record. -/
def Contain (f : RecordField) (record : ActionRecord) (nodes : List NodeExecution) : Prop :=
  ∃ n ∈ nodes, record ∈ n.records f

/-- A node with the record was saved. -/
def Recorded (f : RecordField) (record : ActionRecord) (h : Held) : Prop := Contain f record h.saved

/-- The row is loaded by the first statement. -/
theorem obedient_get_pending :
    Obedient i (fun _ => True) (get_pending i) fun row => Loaded row := by
  refine obedient_bind (R := fun answer h => h.row = answer) (fun h _ =>
    ⟨rfl, fun answer _ => ⟨_, rfl, rfl⟩⟩) ?_
  intro answer
  cases answer with
  | none => exact obedient_raise
  | some row =>
    dsimp only
    split
    · exact obedient_raise
    · exact obedient_pure fun h hrow => ⟨hrow, not_not.mp ‹_›⟩

/-- The nodes are read with the row. -/
theorem obedient_node_executions {row : Instance} :
    Obedient i (Loaded row) (node_executions i) fun nodes => Listed row nodes :=
  fun h hloaded => ⟨rfl, fun nodes _ => ⟨{ h with nodes := some nodes }, rfl, hloaded, rfl⟩⟩

/-- A node is saved only with more in it than was loaded, so the record is stored. -/
theorem obedient_save_node {row : Instance} {nodes : List NodeExecution} {n₀ n : NodeExecution}
    {f : RecordField} {record : ActionRecord} (hn₀ : n₀ ∈ nodes) (hkeeps : n₀.Keeps n)
    (hrecord : record ∈ n.records f) :
    Obedient i (Listed row nodes) (save_node i n) fun _ h => Loaded row h ∧
      Recorded f record h := by
  intro h hlisted
  refine ⟨⟨rfl, nodes, hlisted.2, n₀, hn₀, hkeeps⟩,
    fun _ _ => ⟨{ h with nodes := none, saved := n :: h.saved }, rfl, ?_⟩⟩
  exact ⟨hlisted.1, n, List.mem_cons_self, hrecord⟩

/-- The row is saved as approved only by a request whose nodes grant it. -/
theorem obedient_save_instance {row : Instance} {S : List NodeExecution → Prop} (row' : Instance) :
    Obedient i (fun h => Loaded row h ∧ S h.saved) (save_instance i row') fun _ h =>
      (row'.status = .approved → h.granted = true) ∧ S h.saved := by
  intro h hloaded
  refine ⟨⟨rfl, row, hloaded.1.1, hloaded.1.2⟩, fun _ _ => ⟨_, rfl, fun happroved => ?_, hloaded.2⟩⟩
  exact decide_eq_true happroved

/-- Only a granted request enables the subject. -/
theorem obedient_set_subject_status {S : List NodeExecution → Prop} (status : SubjectStatus) :
    Obedient i (fun h => (status = .enabled → h.granted = true) ∧ S h.saved)
      (set_subject_status status)
      fun _ h => S h.saved := by
  refine obedient_bind (R := fun _ h => (status = .enabled → h.granted = true) ∧ S h.saved)
    (fun h hP => ⟨trivial, fun _ _ => ⟨h, rfl, hP⟩⟩) ?_
  intro subject h hP
  exact ⟨hP.1, fun _ _ => ⟨h, rfl, hP.2⟩⟩

end

namespace NodeExecution

variable {n n' n'' : NodeExecution} {record : ActionRecord} {e : Engine}

/-- What a node keeps it keeps along several changes. -/
theorem Keeps.trans (h : n.Keeps n') (h' : n'.Keeps n'') : n.Keeps n'' :=
  ⟨h'.1.trans h.1, fun f r hr => h'.2 f r (h.2 f r hr)⟩

theorem keeps_finish (status : NodeStatus) (now : Time) : n.Keeps (n.finish status now) :=
  ⟨rfl, fun f r hr => by cases f <;> exact hr⟩

theorem keeps_add_candidates (users : List User) : n.Keeps (n.add_candidates users) :=
  ⟨rfl, fun f r hr => by cases f <;> exact hr⟩

theorem keeps_add_record : n.Keeps (n.add_record record) := by
  refine ⟨rfl, fun f r hr => ?_⟩
  cases f with
  | approval_records => exact List.mem_append_left _ hr
  | delegate_records => exact hr
  | add_sign_records => exact hr

theorem keeps_add_delegation : n.Keeps (n.add_delegation record e) := by
  cases e with
  | workflow => exact keeps_add_record
  | script =>
    refine ⟨rfl, fun f r hr => ?_⟩
    cases f with
    | approval_records => exact hr
    | delegate_records => exact List.mem_append_left _ hr
    | add_sign_records => exact hr

theorem keeps_add_signature : n.Keeps (n.add_signature record e) := by
  cases e with
  | workflow => exact keeps_add_record
  | script =>
    refine ⟨rfl, fun f r hr => ?_⟩
    cases f with
    | approval_records => exact hr
    | delegate_records => exact hr
    | add_sign_records => exact List.mem_append_left _ hr

end NodeExecution

/-- Where an engine records a delegation. -/
def Engine.delegation_field : Engine → RecordField
  | .workflow => .approval_records
  | .script => .delegate_records

/-- Where an engine records added signers. -/
def Engine.signature_field : Engine → RecordField
  | .workflow => .approval_records
  | .script => .add_sign_records

namespace Call

/-- The call is about instance `i`. -/
def On (i : Nat) : Call → Prop
  | .start_approval _ _ => False
  | .approve j _ _ _ | .reject j _ _ _ | .cancel j _ _ | .delegate _ j _ _ _ _ | .add_sign _ j _ _ _ _ => j = i

/-- The record that a call leaves when it returns, and the list it belongs to. -/
def record (e : Engine) : Call → Option (RecordField × ActionRecord)
  | .approve _ approver reason now => some (.approval_records, approver.record .approve reason now)
  | .reject _ approver reason now => some (.approval_records, approver.record .reject reason now)
  | .delegate dir _ approver to_user_id reason now =>
    (dir.users.find? (·.id = to_user_id)).map fun to_user =>
      (e.delegation_field, approver.record (.delegate to_user.id to_user.username) reason now)
  | .add_sign dir _ approver user_ids reason now =>
    let recorded := match e with
      | .workflow => (dir.users.filter (·.id ∈ user_ids)).map (·.id)
      | .script => user_ids
    some (e.signature_field, approver.record (.add_sign recorded) reason now)
  | .start_approval _ _ | .cancel _ _ _ => none

/-- The call as a session. -/
def session (e : Engine) : Call → Session Unit
  | .start_approval dir sub => do let _ ← e.start_approval dir sub; pure ()
  | .approve i approver reason now =>
    do let _ ← taurus.approval.approve i approver reason now; pure ()
  | .reject i approver reason now =>
    do let _ ← taurus.approval.reject i approver reason now; pure ()
  | .cancel i operator now => do let _ ← taurus.approval.cancel e i operator now; pure ()
  | .delegate dir i approver to_user_id reason now => do
    let _ ← taurus.approval.delegate e dir i approver to_user_id reason now; pure ()
  | .add_sign dir i approver user_ids reason now => do
    let _ ← taurus.approval.add_sign e dir i approver user_ids reason now; pure ()

end Call

section

variable {e : Engine} {i : Nat}

/-- What the calls on a node have in common: the row, the nodes and the node that
passes the check. -/
theorem obedient_checked {α : Type}
    {check : Instance → List NodeExecution → Except Error NodeExecution}
    {body : Instance → List NodeExecution → NodeExecution → Session α} {R : α → Held → Prop}
    (hcheck : ∀ row nodes n, check row nodes = .ok n → n ∈ nodes)
    (hbody : ∀ row nodes n, n ∈ nodes → Obedient i (Listed row nodes) (body row nodes n) R) :
    Obedient i (fun _ => True) (do
      let row ← get_pending i
      let nodes ← node_executions i
      let node_exec ← fromExcept (check row nodes)
      body row nodes node_exec) R := by
  refine obedient_bind obedient_get_pending fun row => ?_
  refine obedient_bind obedient_node_executions fun nodes => ?_
  refine obedient_bind (R := fun n h => Listed row nodes h ∧ n ∈ nodes) ?_ fun n =>
    obedient_of_fact (hbody row nodes n)
  exact obedient_fromExcept fun n hn h hlisted => ⟨hlisted, hcheck row nodes n hn⟩

/-- The node decided on is one that was loaded. -/
theorem node_to_decide_mem (approver : User) (row : Instance) (nodes : List NodeExecution)
    (n : NodeExecution) (h : node_to_decide row nodes approver = .ok n) : n ∈ nodes :=
  List.mem_of_getElem? (node_to_decide_eq_ok.mp h).1

/-- The node extended is one that was loaded. -/
theorem node_to_extend_mem (approver : User) (row : Instance) (nodes : List NodeExecution)
    (n : NodeExecution) (h : node_to_extend row nodes approver = .ok n) : n ∈ nodes :=
  List.mem_of_getElem? (node_to_extend_eq_ok.mp h).1

/-- An approval stores its record and keeps to the protocol. -/
theorem obedient_approve {approver : User} {reason : String} {now : Time} :
    Obedient i (fun _ => True)
    (approve i approver reason now) fun _ =>
      Recorded .approval_records (approver.record .approve reason now) := by
  apply obedient_checked (fun row nodes n => node_to_decide_mem approver row nodes n)
  intro row nodes n hn
  let S := Contain .approval_records (approver.record .approve reason now)
  have hrecord : approver.record .approve reason now ∈
      (n.add_record (approver.record .approve reason now)).records .approval_records :=
    List.mem_append_right _ List.mem_cons_self
  dsimp only
  split
  · have hkeeps : n.Keeps ((n.add_record (approver.record .approve reason now)).finish .approved now) :=
      NodeExecution.keeps_add_record.trans (NodeExecution.keeps_finish .approved now)
    have hrecord' := (NodeExecution.keeps_finish .approved now).2 .approval_records _ hrecord
    refine obedient_bind (obedient_save_node hn hkeeps hrecord') fun _ => ?_
    split
    · refine obedient_bind (obedient_save_instance (S := S) (row.finish .approved now)) fun _ => ?_
      refine obedient_bind ((obedient_set_subject_status (S := S) .enabled).conseq
        (fun h hP => ⟨fun _ => hP.1 rfl, hP.2⟩) fun _ _ hS => hS) fun _ => ?_
      exact obedient_pure fun h hS => hS
    · refine obedient_bind (obedient_save_instance (S := S) (row.move_to _)) fun _ => ?_
      exact obedient_pure fun h hP => hP.2
  · refine obedient_bind (obedient_save_node hn NodeExecution.keeps_add_record hrecord) fun _ => ?_
    exact obedient_pure fun h hrow => hrow.2

/-- A rejection stores its record, too. -/
theorem obedient_reject {approver : User} {reason : String} {now : Time} :
    Obedient i (fun _ => True)
    (reject i approver reason now) fun _ =>
      Recorded .approval_records (approver.record .reject reason now) := by
  apply obedient_checked (fun row nodes n => node_to_decide_mem approver row nodes n)
  intro row nodes n hn
  have hkeeps : n.Keeps ((n.add_record (approver.record .reject reason now)).finish .rejected now) :=
    NodeExecution.keeps_add_record.trans (NodeExecution.keeps_finish .rejected now)
  have hrecord : approver.record .reject reason now ∈
      ((n.add_record (approver.record .reject reason now)).finish .rejected now).records .approval_records :=
    List.mem_append_right _ List.mem_cons_self
  refine obedient_bind (obedient_save_node hn hkeeps hrecord) fun _ => ?_
  refine obedient_bind (obedient_save_instance
    (S := Contain .approval_records (approver.record .reject reason now))
    (row.finish .rejected now)) fun _ => ?_
  exact obedient_pure fun h hP => hP.2

/-- A withdrawal leaves the records alone. -/
theorem obedient_cancel {operator : User} {now : Time} :
    Obedient i (fun _ => True) (cancel e i operator now) fun _ _ => True := by
  refine obedient_bind obedient_get_pending fun row => ?_
  split
  · exact obedient_raise
  · refine obedient_bind ((obedient_save_instance (S :=
      fun _ => True) (row.finish .cancelled now)).conseq
      (fun h hloaded => ⟨hloaded, trivial⟩) fun _ _ hR => hR) fun _ => ?_
    refine obedient_bind ((obedient_set_subject_status (S := fun _ => True) .disabled).conseq
      (fun h _ => ⟨fun hc => (by cases hc), trivial⟩) fun _ _ hS => hS) fun _ => ?_
    exact obedient_pure fun _ _ => trivial

/-- The node is saved with the record and with more candidates. -/
theorem obedient_extend {row : Instance} {nodes : List NodeExecution} {n n' : NodeExecution}
    {f : RecordField} {record : ActionRecord} (users : List User) (hn : n ∈ nodes)
    (hkeeps : n.Keeps n') (hrecord : record ∈ n'.records f) :
    Obedient i (Listed row nodes) (do save_node i (n'.add_candidates users); pure row) fun _ =>
      Recorded f record := by
  have hkeeps' := hkeeps.trans (NodeExecution.keeps_add_candidates users)
  have hrecord' := (NodeExecution.keeps_add_candidates users).2 f record hrecord
  refine obedient_bind (obedient_save_node hn hkeeps' hrecord') fun _ => ?_
  exact obedient_pure fun h hP => hP.2

/-- A delegation stores its record where the engine writes one. -/
theorem obedient_delegate {dir : Directory} {approver : User} {to_user_id : Int} {reason : String}
    {now : Time} :
    Obedient i (fun _ => True) (delegate e dir i approver to_user_id reason now) fun _ h =>
      ∀ f r, (Call.delegate dir i approver to_user_id reason now).record e = some (f, r) →
        Recorded f r h := by
  apply obedient_checked (fun row nodes n => node_to_extend_mem approver row nodes n)
  intro row nodes n hn
  cases huser : dir.users.find? (·.id = to_user_id) with
  | none => exact obedient_raise
  | some to_user =>
    let record := approver.record (.delegate to_user.id to_user.username) reason now
    have hrecord : record ∈ (n.add_delegation record e).records e.delegation_field := by
      cases e <;> exact List.mem_append_right _ List.mem_cons_self
    refine (obedient_extend [to_user] hn NodeExecution.keeps_add_delegation hrecord).conseq
      (fun _ hP => hP) ?_
    intro _ h hrecorded f r hr
    simp only [Call.record, huser, Option.map_some, Option.some.injEq, Prod.mk.injEq] at hr
    obtain ⟨rfl, rfl⟩ := hr
    exact hrecorded

theorem obedient_add_sign {dir : Directory} {approver : User} {user_ids : List Int}
    {reason : String} {now : Time} :
    Obedient i (fun _ => True) (add_sign e dir i approver user_ids reason now) fun _ h =>
      ∀ f r, (Call.add_sign dir i approver user_ids reason now).record e = some (f, r) →
        Recorded f r h := by
  apply obedient_checked (fun row nodes n => node_to_extend_mem approver row nodes n)
  intro row nodes n hn
  have hextend : ∀ record : ActionRecord, Obedient i (Listed row nodes) (do
      save_node i ((n.add_signature record e).add_candidates (dir.users.filter (·.id ∈ user_ids)))
      pure row) fun _ => Recorded e.signature_field record := by
    intro record
    have hrecord : record ∈ (n.add_signature record e).records e.signature_field := by
      cases e <;> exact List.mem_append_right _ List.mem_cons_self
    exact obedient_extend _ hn NodeExecution.keeps_add_signature hrecord
  refine (hextend _).conseq (fun _ hP => hP) ?_
  intro _ h hsaved f r hr
  obtain ⟨rfl, rfl⟩ := Prod.mk.inj (Option.some.inj hr)
  exact hsaved

/-- Every call on the instance keeps to the discipline, and has saved its record when it returns. -/
theorem obedient_session {c : Call} (hc : c.On i) :
    Obedient i (fun _ => True) (c.session e) fun _ h => ∀ f r, c.record e = some (f, r) →
      Recorded f r h := by
  cases c with
  | start_approval dir sub => exact absurd hc id
  | approve j approver reason now =>
    obtain rfl := hc
    refine obedient_bind obedient_approve fun _ => obedient_pure fun h hrecorded f r hr => ?_
    obtain ⟨rfl, rfl⟩ := Prod.mk.inj (Option.some.inj hr)
    exact hrecorded
  | reject j approver reason now =>
    obtain rfl := hc
    refine obedient_bind obedient_reject fun _ => obedient_pure fun h hrecorded f r hr => ?_
    obtain ⟨rfl, rfl⟩ := Prod.mk.inj (Option.some.inj hr)
    exact hrecorded
  | cancel j operator now =>
    obtain rfl := hc
    exact obedient_bind obedient_cancel fun _ => obedient_pure fun h _ f r hr => by cases hr
  | delegate dir j approver to_user_id reason now =>
    obtain rfl := hc
    exact obedient_bind obedient_delegate fun _ => obedient_pure fun h hrecorded => hrecorded
  | add_sign dir j approver user_ids reason now =>
    obtain rfl := hc
    exact obedient_bind obedient_add_sign fun _ => obedient_pure fun h hrecorded => hrecorded

end

end taurus.approval
