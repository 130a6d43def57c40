import Taurus.OpsApproval.Events
import Taurus.Ops.WriteBack
import Taurus.Units.Loop

namespace taurus.units

open taurus.lib taurus.python taurus.engine taurus.engine.runner taurus.ops

/-- What a dispatch of an approval node finds besides the two tables: the site, the first of the
approved hosts, the clock, the texts of values, and the database's text for a key of no row. -/
structure Office where
  site : ops_approval.Site
  first_host : Option Nat
  env : Env
  repr : Json → String
  foreign_key_error : String

/-- The rendered configuration, with no host when there is no specific one. -/
structure ApprovalConfig where
  execution_id : Nat
  dispatch_id : String
  node_key : String
  node_name : String
  host_id : Option Nat := none
  user_id : Int
  params : Dict String Json

/-- The stored text of a status. -/
def approval_status : ops_approval.ApprovalStatus → String
  | .pending => "pending"
  | .approved => "approved"
  | .rejected => "rejected"
  | .cancelled => "cancelled"
  | .executing => "executing"
  | .done => "done"
  | .failed => "failed"

namespace ApprovalAdapter

def failed (message : String) : UnitOutput :=
  { status := .FAILED, error_message := some message, exit_code := some 1 }

/-- `v in (None, "", 0)` -/
def unnamed : Json → Bool
  | .null | .str "" | .int 0 | .bool false => true
  | .float q => q = 0
  | _ => false

/-- `filter(pk=..).first()` of a user; a value that is no number is an exception. -/
def find_user (office : Office) (v : Json) : Except Exn (Option approval.User) :=
  match int_of? v with
  | some n => .ok (office.site.users.find? (·.id = n))
  | none => .error (.ValueError s!"Field 'id' expected a number but got {office.repr v}.")

/-- The approver of a submission, who has to exist; an information needs none. -/
def check_approver (office : Office) (action : String) (approver_id : Json) :
    Except UnitOutput Unit :=
  if action ≠ "submit" then .ok ()
  else if unnamed approver_id then
    .error (failed "E0501: Approver not specified (approver_user_id), cannot create approval")
  else
    match find_user office approver_id with
    | .error exc => .error (failed s!"E0502: Approver validation failed: {exc.text}")
    | .ok none =>
      .error (failed s!"E0502: Approver user id={str office.repr approver_id} not found")
    | .ok (some _) => .ok ()

/-- The user, if the value names one who is there. -/
def known_user (office : Office) (v : Json) : Option approval.User :=
  if unnamed v then none else (find_user office v).toOption.join

/-- The approver's key as the database takes it. -/
def approver_key (office : Office) (v : Json) : Except String (Option Int) :=
  if unnamed v then .ok none
  else
    match find_user office v with
    | .error exc => .error exc.text
    | .ok none => .error office.foreign_key_error
    | .ok (some u) => .ok (some u.id)

def submit_desc (office : Office) (cfg : ApprovalConfig) (description : Json) : String :=
  let node :=
    s!"Workflow node: {cfg.node_name} (key={cfg.node_key}, execution_id={cfg.execution_id})"
  if description.truthy then s!"{str office.repr description}\n\n{node}" else node

/-- The approval of the node. Its script is a placeholder, and its host any. -/
def approval (office : Office) (cfg : ApprovalConfig) (host_id : Nat) (timeout_seconds : Int)
    (approver_id : Option Int) : ops_approval.Approval :=
  let approver := known_user office (getJson cfg.params "approver_user_id")
  let raw_mode := (Dict.get? cfg.params "mode").getD (.str "or")
  { params :=
      { script_type := some "sh"
        script_content := some "# Approval node placeholder\n"
        timeout_seconds := min timeout_seconds (7 * 24 * 3600) }
    batch_id := some cfg.dispatch_id
    host_id
    submitter_id := (known_user office (.int cfg.user_id)).map (·.id)
    submit_desc := submit_desc office cfg (getJson cfg.params "description")
    approver_id
    approval_mode := if raw_mode.str? = some "and" ∨ raw_mode.str? = some "all" then .all else .any
    candidate_approvers := approver.toList.map fun u => { user_id := some u.id } }

/-- The name of a user in the output. -/
def shown_name : Option taurus.approval.User → Json
  | none => .null
  | some u => .str (if u.username = "" then u.name else u.username)

/-- The latest approval with the batch id. -/
def existing (w : ops_approval.World) (batch_id : String) : Option Nat :=
  ((w.approvals.zipIdx.filter (·.1.batch_id = some batch_id)).getLast?).map (·.2)

/-- Create the approval, unless the dispatch has one. -/
def dispatch (office : Office) (cfg : ApprovalConfig) (w : ops_approval.World) :
    Except Exn (UnitOutput × ops_approval.World) := do
  let action ← stripped (getJson cfg.params "action")
  let action := if action = "" then "submit" else action
  let title ← stripped (orElse
    (getJson cfg.params "title") (.str s!"Workflow approval {cfg.node_key}"))
  let approver_id := getJson cfg.params "approver_user_id"
  match check_approver office action approver_id with
  | .error uo => pure (uo, w)
  | .ok _ =>
    match cfg.host_id.or office.first_host with
    | none => pure (failed "E0503: No available hosts, cannot create approval", w)
    | some host_id =>
      match existing w cfg.dispatch_id with
      | some pk =>
        pure ({ status := .RUNNING, adapter_state := some [("approval_id", .int pk)] }, w)
      | none =>
        match int_of (orElse (getJson cfg.params "timeout_seconds") (.int (3 * 24 * 3600))) with
        | .error exc => pure (failed s!"E0503: Create approval instance failed: {exc.text}", w)
        | .ok timeout_seconds =>
          match approver_key office approver_id with
          | .error text => pure (failed s!"E0503: Create approval instance failed: {text}", w)
          | .ok key =>
            let pk := w.approvals.length
            let output : Dict String Json :=
              [("approval_id", .int pk), ("status", .str "pending"), ("title", .str title),
                ("submitter", shown_name (known_user office (.int cfg.user_id))),
                ("approver", shown_name (known_user office approver_id)),
                ("created_at", .str (office.env.isoformat office.env.now))]
            pure ({ status := .RUNNING, adapter_state := some [("approval_id", .int pk)], output },
              w.add_approval (approval office cfg host_id timeout_seconds key))

/-- The approval an adapter state names; rows are numbered from 0. -/
def located (w : ops_approval.World) (v : Json) : Option (Nat × ops_approval.Approval) :=
  match v with
  | .int n => if n < 0 then none else w.approvals[n.toNat]?.map fun a => (n.toNat, a)
  | _ => none

def base_output (env : Env) (pk : Nat) (a : ops_approval.Approval) : Dict String Json :=
  [("approval_id", .int pk), ("status", .str (approval_status a.status)),
    ("approve_reason", (a.approve_reason.map Json.str).getD .null),
    ("approve_time", (a.approve_time.map fun t => Json.str (env.isoformat t)).getD .null)]

/-- The answer for the state the approval is in. -/
def answer (env : Env) (pk : Nat) (a : ops_approval.Approval) : UnitOutput :=
  let output := base_output env pk a
  match a.status with
  | .approved =>
    { status := .SUCCESS, output := Dict.set output "approved" (.bool true), exit_code := some 0 }
  | .rejected =>
    let reason := ops_approval.textOr (a.approve_reason.getD "") "Approval rejected"
    { status := .FAILED, output := Dict.set output "rejected" (.bool true), exit_code := some 1
      error_message := some s!"E5001: Approval rejected: {reason}" }
  | .cancelled => { status := .CANCELLED, output := Dict.set output "cancelled" (.bool true) }
  | .failed =>
    let reason := a.approve_reason.getD ""
    { status := .FAILED, output, exit_code := some 1
      error_message := some s!"E5001: 审批后执行阶段失败：{reason}" }
  | .executing | .done =>
    { status := .SUCCESS, output := Dict.set output "passed_through_execution" (.bool true), exit_code := some 0 }
  | .pending => { status := .RUNNING, output := Dict.set output "waiting" (.bool true) }

def poll (office : Office) (w : ops_approval.World)
    (adapter_state : Dict String Json) : UnitOutput :=
  if adapter_state = [] then failed "E0504: adapter_state missing, cannot locate approval"
  else
    match getJson adapter_state "approval_id" with
    | .null => failed "E0504: adapter_state missing approval_id"
    | approval_id =>
      match located w approval_id with
      | none => failed s!"E0504: Approval id={str office.repr approval_id} deleted"
      | some (pk, a) => answer office.env pk a

/-- The row of a withdrawn approval. -/
def withdrawn (now : Time) (a : ops_approval.Approval) : ops_approval.Approval :=
  { a with
    status := .cancelled, finish_time := some now
    approve_reason :=
      if a.approve_reason.getD "" = "" then some "ABORTED: workflow cancelled, withdraw approval" else a.approve_reason }

def kept (reason : String) : Dict String Json :=
  [("cancelled", .bool false), ("reason", .str reason)]

/-- Withdraw the approval, if it is not decided. -/
def cancel (office : Office) (adapter_state : Dict String Json) (w : ops_approval.World) :
    UnitOutput × ops_approval.World :=
  if adapter_state = [] then
    ({ status := .SUCCESS, output := kept "No adapter_state, no approval to withdraw" }, w)
  else
    match getJson adapter_state "approval_id" with
    | .null => ({ status := .SUCCESS, output := kept "Missing approval_id, cannot withdraw" }, w)
    | approval_id =>
      match located w approval_id with
      | none =>
        ({ status := .SUCCESS, output := kept s!"Approval id={str office.repr approval_id} not found" }, w)
      | some (pk, a) =>
        let reason :=
          s!"Approval is terminal status={approval_status a.status}, no need to withdraw"
        match a.status with
        | .approved | .done => ({ status := .SUCCESS, output := kept reason }, w)
        | .rejected => ({ status := .FAILED, output := kept reason }, w)
        | .cancelled => ({ status := .CANCELLED, output := kept reason }, w)
        | .pending | .executing | .failed =>
          ({ status := .CANCELLED
             output := [("cancelled", .bool true), ("approval_id", .int pk),
               ("reason", .str "Approval withdrawn (triggered by workflow cancellation)")] },
            w.put pk (withdrawn office.env.now a))

end ApprovalAdapter

end taurus.units
