import Taurus.OpsApproval.Concurrent

namespace taurus.ops_approval

open taurus.lib taurus.lib.Thread taurus.lib.Protocol taurus.python taurus.engine taurus.ops
open taurus.approval (User)

/-- An access to the database by a request, or by one of the processes that create executions, run
them or bring the approvals in line with them. -/
inductive Access where
  | request (c : Statement)
  | get_execution (k : Nat)
  | find_batch (batch_id : String)
  | executing_exists (k : Nat)
  | update_executing (k : Nat) (status : ApprovalStatus)
  | stale_approvals
  | update_status (i : Nat) (status : ApprovalStatus)

def Access.Answer : Access → Type
  | .request c => c.Answer
  | .get_execution _ | .find_batch _ => Option Execution
  | .executing_exists _ => Bool
  | .stale_approvals => List (Nat × OpsStatus)
  | .update_executing _ _ | .update_status _ _ => Unit

/-- What a process does, access by access. -/
abbrev Job (α : Type) : Type := Thread Access Access.Answer Error α

def Job.ofSession {α : Type} : Session α → Job α
  | .done result => .done result
  | .ask c k => .ask (.request c) fun answer => ofSession (k answer)

namespace World

/-- Approval `i` is executing, and its execution has this status. -/
def stale (w : World) (entry : Approval × Nat) : Option (Nat × OpsStatus) :=
  if entry.1.status = .executing then
    (entry.1.ops_execution.bind (w.executions[·]?)).map fun x => (entry.2, x.status)
  else none

/-- The database executes one access. -/
def perform : (c : Access) → World → c.Answer × World
  | .request c, w => exec c w
  | .get_execution k, w => (w.executions[k]?, w)
  | .find_batch batch_id, w => (w.executions.find? (·.batch_id = some batch_id), w)
  | .executing_exists k, w =>
    (w.approvals.any fun a => a.ops_execution = some k ∧ a.status = .executing, w)
  | .update_executing k status, w =>
    ((), { w with approvals := w.approvals.map fun a =>
      if a.ops_execution = some k ∧ a.status = .executing then { a with status } else a })
  | .stale_approvals, w => (w.approvals.zipIdx.filterMap w.stale, w)
  | .update_status i status, w => ((), w.modify_approval i ({ · with status }))

end World

def get_execution (k : Nat) : Job (Option Execution) := Thread.statement (.get_execution k : Access)

def find_batch (batch_id : String) : Job (Option Execution) :=
  Thread.statement (.find_batch batch_id : Access)

def executing_exists (k : Nat) : Job Bool := Thread.statement (.executing_exists k : Access)

def update_executing (k : Nat) (status : ApprovalStatus) : Job Unit :=
  Thread.statement (.update_executing k status : Access)

def stale_approvals : Job (List (Nat × OpsStatus)) := Thread.statement (.stale_approvals : Access)

def update_status (i : Nat) (status : ApprovalStatus) : Job Unit :=
  Thread.statement (.update_status i status : Access)

/-- The approval's outcome for that of its execution. -/
def outcome (status : OpsStatus) : ApprovalStatus := if status = .SUCCESS then .done else .failed

/-- `_sync_approval_status` -/
def _sync_approval_status (k : Nat) (exec_obj : Execution) (status : OpsStatus) : Job Unit := do
  if exec_obj.execution_type ≠ "script" then pure ()
  else if ← executing_exists k then update_executing k (outcome status)
  else pure ()

/-- `exec_obj.save()` with its receiver `_sync_approval_on_execution_finish`. -/
def save_execution (k : Nat) (exec_obj : Execution) (status : OpsStatus) : Job Unit := do
  Job.ofSession (set_execution_status k status)
  if status = .SUCCESS ∨ status = .FAILED then _sync_approval_status k exec_obj status
  else pure ()

def update_execution_success (k : Nat) (exec_obj : Execution) (success : Bool) : Job Unit := do
  let status := if success then OpsStatus.SUCCESS else .FAILED
  save_execution k exec_obj status
  _sync_approval_status k exec_obj status

/-- The coroutine that runs execution `k`. Of the clock it learns whether a running execution is
overdue, and of the executor whether the command succeeds. -/
def _execute_ops_async (k : Nat) (overdue success : Bool) : Job Unit := do
  match ← get_execution k with
  | none => pure ()
  | some execution =>
    if execution.status = .SUCCESS then pure ()
    else if execution.status = .RUNNING ∧ !overdue then pure ()
    else if execution.status = .PENDING ∨ execution.status = .RUNNING then
      save_execution k execution .RUNNING
      update_execution_success k execution success
    else update_execution_success k execution success

def _handle_orphan_execution (k : Nat) : Job Unit := do
  match ← get_execution k with
  | none => pure ()
  | some execution =>
    if execution.status ≠ .RUNNING then pure ()
    else save_execution k execution .ABORTED

def _auto_sync_stale_approvals : Job Unit := do
  let stale ← stale_approvals
  let _ ← forEach (fun entry : Nat × OpsStatus =>
    if entry.2 = .SUCCESS ∨ entry.2 = .FAILED then update_status entry.1 (outcome entry.2)
      else pure ()) stale
  pure ()

/-- What the scheduler worker has loaded of a script task. -/
structure ScriptTask where
  batch_id : String
  creator_id : Int
  script_type : String
  content : String
  args : List String := []
  timeout : Int := 300
  envs : Dict String Json := []

def ScriptTask.execution (task : ScriptTask) (host : Host) : Execution where
  params :=
    { script_type := some task.script_type
      script_content := some task.content
      args := task.args
      timeout_seconds := task.timeout
      environment := task.envs }
  execution_type := "script"
  batch_id := some task.batch_id
  host_id := host.pk
  user_id := task.creator_id
  status := .PENDING

/-- The part of `_process_script_task_payload_sync` that creates the executions, for the hosts that
were found: the quota is checked once. -/
def create_executions (site : Site) (task : ScriptTask) (hosts : List Host) : Job (List Nat) := do
  let running ← Job.ofSession count_live
  fromExcept (check_quota site running)
  forEach (fun host => Job.ofSession (create_execution (task.execution host))) hosts

/-- What an adapter has rendered for a node on one host, with the columns that its kind of unit
fills. `host_id` is none when there is no specific host. -/
structure NodeConfig where
  dispatch_id : String
  host_id : Option Nat
  user_id : Int
  execution_type : String
  script_type : Option String := none
  script_content : Option String := none
  command : Option String := none
  use_shell : Bool := true
  args : List String := []
  environment : Dict String Json := []
  working_directory : Option String := none
  timeout_seconds : Option Int := none
  global_timeout_sec : Int := 300
  merge_streams : Bool := false
  load_profile : String := "false"
  privileged : Bool := false
  su_user : Option String := none
  su_password : Option String := none
  exec_mode : String := "parallel"
  concurrent : Option Int := none
  ops_fail_strategy : String := "stop"
  pilot_count : Option Int := none
  pilot_success_rate : Option Int := none

/-- `max(low, min(n, high))` -/
def clamp (low high n : Int) : Int := max low (min n high)

def NodeConfig.environment_dict (cfg : NodeConfig) (fernet : Fernet) (iv : Nat) :
    Dict String Json :=
  if cfg.privileged then
    let env_dict := Dict.set cfg.environment "PRIVILEGED_EXECUTION" (.str "true")
    let env_dict := match cfg.su_user with
      | some su_user =>
        if su_user ≠ "" then Dict.set env_dict "SU_USER" (.str su_user) else env_dict
      | none => env_dict
    match cfg.su_password with
    | some su_pwd =>
      if su_pwd ≠ "" then
        Dict.set env_dict "SU_PASSWORD" (.str (encrypt_value fernet iv su_pwd))
      else env_dict
    | none => env_dict
  else cfg.environment

def NodeConfig.execution (cfg : NodeConfig) (fernet : Fernet) (iv : Nat) (host : Host) :
    Execution where
  params :=
    { command := cfg.command
      script_type := cfg.script_type
      script_content := cfg.script_content
      args := cfg.args
      working_directory := cfg.working_directory.filter (· ≠ "")
      timeout_seconds := clamp 10 86400 (cfg.timeout_seconds.getD
        (intOr cfg.global_timeout_sec 300))
      environment := cfg.environment_dict fernet iv
      use_shell := cfg.use_shell
      merge_streams := cfg.merge_streams
      load_profile := textOr cfg.load_profile "false"
      privileged := cfg.privileged
      su_user := cfg.su_user.filter (· ≠ "")
      exec_mode := textOr cfg.exec_mode "parallel"
      concurrent := clamp 1 50 (cfg.concurrent.getD 10)
      fail_strategy := textOr cfg.ops_fail_strategy "stop"
      pilot_count := clamp 1 10 (cfg.pilot_count.getD 2)
      pilot_success_rate := clamp 1 100 (cfg.pilot_success_rate.getD 100) }
  execution_type := cfg.execution_type
  batch_id := some cfg.dispatch_id
  host_id := host.pk
  user_id := cfg.user_id
  status := .PENDING

/-- `_OpsExecutionMixin.dispatch`; the answer is the created execution, an earlier one of the same
dispatch, or the error of the unit. -/
def dispatch (site : Site) (fernet : Fernet) (iv : Nat) (cfg : NodeConfig) :
    Job (Except String (Nat ⊕ Execution)) := do
  match cfg.host_id with
  | none =>
    pure (.error "E0301: script/command requires_host=True, but current node did not resolve to a specific host_id")
  | some host_id =>
    match site.host host_id with
    | none => pure (.error s!"E0303: host_id={host_id} does not exist in Host table")
    | some host =>
      match ← find_batch cfg.dispatch_id with
      | some existing => pure (.ok (.inr existing))
      | none =>
        let running ← Job.ofSession count_live
        match check_quota site running with
        | .error exc =>
          pure (.error s!"E0310: Failed to create OpsExecution PermissionDenied: {exc.str}")
        | .ok _ =>
          let k ← Job.ofSession (create_execution (cfg.execution fernet iv host))
          pure (.ok (.inl k))

/-- The state after a job that runs with nothing in between. -/
def World.afterJob {α : Type} (w : World) (job : Job α) : World := (job.complete World.perform w).2

section

variable {α β : Type} {η : Type} {p : Protocol Access Access.Answer η} {P : η → Prop} {E : η → Prop}

/-- The protocol as a request sees it. -/
def requests (p : Protocol Access Access.Answer η) : Protocol Statement Statement.Answer η where
  allowed h c := p.allowed h (.request c)
  answers h c answer := p.answers h (.request c) answer
  next h c answer := p.next h (.request c) answer

/-- A session obeys as a job what it obeys as a session. -/
theorem obeys_ofSession {Q : Except Error α → η → Prop} {t : Session α} {h : η}
    (ht : (requests p).Obeys Q h t) :
    p.Obeys Q h (Job.ofSession t) := by
  induction t generalizing h with
  | done result => exact ht
  | ask c k ih =>
    obtain ⟨hallowed, hk⟩ := ht
    refine ⟨hallowed, fun answer hanswer => ?_⟩
    obtain ⟨h', hnext, hrest⟩ := hk answer hanswer
    exact ⟨h', hnext, ih answer hrest⟩

/-- A request keeps to the protocol among all processes when it does so among requests. -/
theorem keeps_ofSession {Q : α → η → Prop} {t : Session α} (ht : (requests p).Keeps P t Q E) :
    p.Keeps P (Job.ofSession t) Q E := fun h hP => obeys_ofSession (ht h hP)

end

end taurus.ops_approval
