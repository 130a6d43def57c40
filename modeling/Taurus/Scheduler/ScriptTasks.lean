import Taurus.Engine.Risk
import Taurus.Ops.Models

namespace taurus.scheduler

open taurus.lib taurus.python taurus.engine taurus.engine.runner

inductive ScriptStatus where
  | enabled
  | disabled
  | pending_approval
  | archived
  deriving DecidableEq

structure Script where
  id : Int
  name : String
  script_type : String := "Shell"
  content : String
  timeout : Int := 300
  script_params : List Json := []
  script_envs : Dict String Json := []
  status : ScriptStatus := .enabled

structure ScriptTask where
  id : Int
  name : String
  script : Script
  hosts : Json
  timeout : Int := 300
  envs : Dict String Json := []
  args : List Json := []
  creator_id : Option Int := none
  enabled : Bool := true
  schedule_type : String := "cron"
  exec_count : Int := 0
  last_exec_result : Option String := none
  last_exec_time : Option Time := none

inductive HostStatus where
  | pending
  | approved
  | rejected
  | disabled
  deriving DecidableEq

structure Host where
  pk : Int
  host_uuid : String
  host_ip : Option String := none
  host_name : Option String := none
  status : HostStatus

inductive TaskStatus where
  | pending
  | running
  | success
  | failed
  deriving DecidableEq

structure ScriptTaskExecution where
  id : Int
  task_id : Int
  status : TaskStatus
  start_time : Option Time := none
  end_time : Option Time := none
  duration : Option Int := none
  trigger_type : String := "schedule"
  result : Json := .obj []
  error_message : Option String := none
  executed_hosts : List Json := []
  creator_id : Option Int := none

structure OpsExecution where
  execution_id : String
  batch_id : String
  host : Int
  user_id : Option Int
  script_type : String
  script_content : String
  args : List Json
  timeout_seconds : Int
  environment : Dict String Json
  status : ops.OpsStatus := .PENDING

/-- The tables that the worker reads and writes. -/
structure Tables where
  tasks : List ScriptTask := []
  hosts : List Host := []
  executions : List ScriptTaskExecution := []
  ops : List OpsExecution := []

/-- A uuid as a database without a type for uuids keeps it. -/
def hyphenless (uuid : String) : String := String.ofList (uuid.toList.filter (· ≠ '-'))

/-- What one call of the worker meets: the clock, the uuids it draws, the quota of concurrent
executions, the hosts for which no execution can be created, the comparisons of the database,
and what else it calls. -/
structure Environment where
  now : Time
  uuid : Nat → String
  max_concurrent_executions : Option Nat := none
  refuses : Host → Option String := fun _ => none
  loads : String → Option Json := fun _ => none
  traceback : String := ""
  py : Reprs
  lower : String → String
  uuid_iexact : String → String → Bool :=
    fun host_uuid ref => lower (hyphenless host_uuid) = lower (hyphenless ref)
  same_text : String → String → Bool := fun value ref => value = ref
  process_other : String → Dict String Json → Tables → Tables := fun _ _ tables => tables

namespace Tables

def update_execution (tables : Tables) (id : Int)
    (change : ScriptTaskExecution → ScriptTaskExecution) : Tables :=
  { tables with executions := tables.executions.map fun rec => if rec.id = id then change rec else rec }

def update_task (tables : Tables) (id : Int) (change : ScriptTask → ScriptTask) : Tables :=
  { tables with tasks := tables.tasks.map fun task => if task.id = id then change task else task }

end Tables

/-- How a call of `_mark_execution` ends the record. -/
structure Mark where
  status : TaskStatus
  result : Option Json := none
  error : Option String := none
  executed_hosts : Option (List Json) := none

def ScriptTaskExecution.finish (rec : ScriptTaskExecution) (mark : Mark) (now : Time) :
    ScriptTaskExecution :=
  { rec with
    end_time := some now
    duration := match rec.start_time with
      | some start_time => some ((now - start_time).tdiv (Time.seconds 1))
      | none => rec.duration
    status := mark.status
    result := mark.result.getD rec.result
    error_message := mark.error.or rec.error_message
    executed_hosts := mark.executed_hosts.getD rec.executed_hosts }

def failed (error : String) (executed_hosts : Option (List Json)) : Mark :=
  { status := .failed, error := some error, executed_hosts }

def map_script_type (lower : String → String) (display_type : String) : String :=
  if display_type = "" then "sh"
  else
    let t := lower display_type
    let isIn (sub : String) : Bool := isInfix sub.toList t.toList
    if isIn "shell" || isIn "bash" || t = "sh" then "sh"
    else if isIn "python" then "python"
    else if isIn "powershell" then "powershell"
    else if t = "bat" then "bat"
    else if t = "" then "sh" else t

section

variable (env : Environment)

def _mark_execution (execution_id : Int) (mark : Mark) (tables : Tables) : Tables :=
  if execution_id = 0 then tables else tables.update_execution execution_id (·.finish mark env.now)

/-- The references to hosts that a task or a message has. -/
def host_references (hosts : Json) : Except Exn (List String) := do
  let host_uuids := match hosts with
    | .str s => if s = "" then .arr [] else (env.loads s).getD (.arr [])
    | v => v
  let refs ← views.elements host_uuids
  pure ((refs.filter (·.truthy)).map env.py.str)

/-- The query for hosts finds this one for the reference. -/
def found_by (h : Host) (ref : String) : Bool :=
  env.uuid_iexact h.host_uuid ref || h.host_ip.any (env.same_text · ref) || h.host_name.any
    (env.same_text · ref) ||
    short_int? ref.toList = some h.pk

/-- The host is the one that the reference means. -/
def refers_to (ref : String) (h : Host) : Bool :=
  env.lower h.host_uuid = env.lower ref || h.host_ip = some ref || h.host_name =
    some ref || toString h.pk = ref

/-- Each host once, in the order of the references. -/
def ordered_hosts (tables : Tables) (host_refs : List String) : List Host :=
  let hosts := tables.hosts.filter fun h => h.status = .approved ∧ host_refs.any (found_by env h)
  let targets := host_refs.filterMap fun ref => hosts.find? (refers_to env ref)
  targets.foldl (fun ordered h => if ordered.any (·.pk = h.pk) then ordered else ordered ++ [h]) []

def check_quota (tables : Tables) : Except Exn Unit :=
  let current :=
    tables.ops.countP fun op => op.status = .PENDING ∨ op.status = .RUNNING ∨ op.status = .APPROVING
  match env.max_concurrent_executions with
  | none => .ok ()
  | some limit =>
    if current ≥ limit then
      .error (.other "PermissionDenied" "quota of concurrent executions is full")
    else .ok ()

/-- The row for a host, and its entry in `hosts_detail`. -/
def dispatch_host (task : ScriptTask) (batch_id : String) (i : Nat) (host : Host) :
    Option OpsExecution × Json :=
  let name (v : Option String) : Json := (v.map Json.str).getD .null
  match env.refuses host with
  | none =>
    let args := if task.args ≠ [] then task.args else task.script.script_params
    let timeout :=
      if task.timeout ≠ 0 then task.timeout else if task.script.timeout ≠ 0 then
        task.script.timeout
      else 300
    (some {
      execution_id := env.uuid i
      batch_id
      host := host.pk
      user_id := task.creator_id
      script_type := map_script_type env.lower task.script.script_type
      script_content := task.script.content
      args
      timeout_seconds := timeout
      environment := Dict.update task.script.script_envs task.envs },
    .obj [("host_uuid", .str host.host_uuid), ("host_ip", name host.host_ip),
      ("host_name", name host.host_name), ("ops_execution_id", .str (env.uuid i)),
      ("status", .str "submitted")])
  | some error =>
    (none, .obj [("host_uuid", .str host.host_uuid), ("host_ip", name host.host_ip), ("status",
      .str "fail"), ("error", .str error)])

def batch_id (task : ScriptTask) (execution_id : Int) : String :=
  "st-" ++ toString task.id ++ "-" ++ toString execution_id ++ "-" ++ toString
    (env.now / Time.seconds 1)

/-- The loop over the hosts. -/
def dispatch_hosts (task : ScriptTask) (execution_id : Int) (hosts : List Host) :
    List (Option OpsExecution × Json) :=
  hosts.zipIdx.map fun (host, i) => dispatch_host env task (batch_id env task execution_id) i host

/-- The dispatch to the hosts that were found, up to the final marking. -/
def dispatch (task : ScriptTask) (execution_id : Int) (trigger_type : Json)
    (host_refs : List String) (hosts : List Host) (tables : Tables) : Tables :=
  let outcomes := dispatch_hosts env task execution_id hosts
  let ops := outcomes.filterMap (·.1)
  let overall : TaskStatus := if ops ≠ [] then .success else .failed
  let result : Json :=
    .obj [("batch_id", .str (batch_id env task execution_id)), ("script_id", .int task.script.id),
      ("script_name", .str task.script.name),
    ("dispatched_hosts", .int ops.length), ("failed_hosts", .int (outcomes.length - ops.length)),
    ("hosts_detail", .arr (outcomes.map (·.2))), ("trigger_source", trigger_type)]
  let mark : Mark :=
    { status := overall, result := some result, executed_hosts := some (host_refs.map .str) }
  (_mark_execution env execution_id mark
    { tables with ops := tables.ops ++ ops }).update_task task.id fun task =>
    { task with last_exec_result := some (if ops ≠ [] then "success"
      else "fail"), last_exec_time := some env.now }

/-- What the `try` block does; an exception comes before any write. -/
def run_script_task (task_id execution_id : Int) (task_info : Dict String Json)
    (trigger_type : Json) (tables : Tables) :
    Except Exn Tables :=
  match tables.tasks.find? (·.id = task_id) with
  | none => .ok (_mark_execution env execution_id (failed "ScriptTask not found" none) tables)
  | some task =>
    match task.script.status with
    | .pending_approval =>
      .ok (_mark_execution env execution_id (failed "Script pending approval" none) tables)
    | .disabled | .archived =>
      .ok (_mark_execution env execution_id (failed "Script disabled or archived" none) tables)
    | .enabled => do
      let note_fail (tables : Tables) :=
        tables.update_task task.id fun task => { task with last_exec_result := some "fail" }
      let host_refs ← host_references env (orElse task.hosts (getJson task_info "hosts"))
      if host_refs = [] then
        pure (note_fail (_mark_execution env execution_id
          (failed "Task has no target hosts configured" (some [])) tables))
      else
        let hosts := ordered_hosts env tables host_refs
        if hosts = [] then
          let error :=
            "All target hosts not found or not approved (no Host with status=1 matched by host_uuid/host_ip/host_name/pk)"
          pure (note_fail (_mark_execution env execution_id
            (failed error (some (host_refs.map .str))) tables))
        else do
          check_quota env tables
          pure (dispatch env task execution_id trigger_type host_refs hosts tables)

/-- `(v or '')[:40]` does not raise. -/
def sliceable (v : Json) : Bool :=
  match v with
  | .str _ | .arr _ => true
  | v => !v.truthy

/-- The message is dropped where it is not a dict with a `task` whose id is a number
other than 0. -/
def _process_script_task_payload_sync (payload : Dict String Json) (tables : Tables) : Tables :=
  match views.dict_of "get" (getJson payload "task"),
    views.dict_of "get" (getJson payload "execution") with
  | .ok task_info, .ok exec_info =>
    match int_of? (orElse (getJson task_info "id") (.int 0)),
      int_of? (orElse (getJson exec_info "id") (.int 0)) with
    | some task_id, some execution_id =>
      if task_id = 0 || !sliceable (getJson task_info "name") then tables
      else
        let trigger_type := orElse (getJson exec_info "trigger_type")
          (orElse (getJson payload "trigger_type") (.str "schedule"))
        match run_script_task env task_id execution_id task_info trigger_type tables with
        | .ok tables => tables
        | .error err =>
          let error := "Worker internal error: " ++ err.text ++ "\n" ++ env.traceback
          _mark_execution env execution_id (failed error none) tables
    | _, _ => tables
  | _, _ => tables

/-- A message of the queue; none is a text that is no JSON. -/
def _process_single_payload_sync (raw : Option Json) (tables : Tables) : Tables :=
  match raw with
  | some (.obj payload) =>
    let target_type := orElse (getJson payload "target_type") (.str "script_task")
    if isText target_type "workflow" then env.process_other "workflow" payload tables
    else if isText target_type "schedule" then env.process_other "schedule" payload tables
    else if isText target_type "maintenance" then env.process_other "maintenance" payload tables
    else _process_script_task_payload_sync env payload tables
  | _ => tables

end

/-- The fields of `ScriptTaskExecution`, by the names that its constructor takes. -/
def execution_fields : List String :=
  ["pk", "id", "description", "creator", "creator_id", "modifier", "dept_belong_id",
    "update_datetime", "create_datetime", "task", "task_id", "status", "start_time", "end_time",
    "duration", "trigger_type", "result", "error_message", "executed_hosts"]

/-- `ScriptTaskExecution.objects.create(**kwargs)`, which gives the row its key. The constructor
takes no keyword that is not a field. -/
def create_execution (kwargs : List String) (values : ScriptTaskExecution) (tables : Tables) :
    Except Exn (ScriptTaskExecution × Tables) :=
  match kwargs.filter (· ∉ execution_fields) with
  | [] =>
    let row := { values with id := (tables.executions.map (·.id)).foldl max 0 + 1 }
    .ok (row, { tables with executions := tables.executions ++ [row] })
  | unexpected => .error (.other "TypeError"
      ("ScriptTaskExecution() got unexpected keyword arguments: '" ++
      String.intercalate "', '" unexpected ++ "'"))

/-- What a trigger has done: its answer, the tables after it, and the message that it has pushed
with the record it is for. -/
structure Triggered where
  ok : Bool
  msg : String
  tables : Tables
  pushed : Option (ScriptTaskExecution × Json) := none

section

variable (strftime : Time → String) (task : ScriptTask) (operator_id : Option Int) (now : Time)
  (redis : Option String) (tables : Tables)

/-- The message of the unified trigger. -/
def unified_payload (host_ids : List Json) (exec_obj : ScriptTaskExecution) : Json :=
  .obj [("source", .str "taurus-backend-unified-trigger-ee"), ("execution_id", .int exec_obj.id),
    ("script_task_id", .int task.id), ("script_id", .int task.script.id),
    ("host_ids", .arr host_ids), ("operator_id", (operator_id.map Json.int).getD .null),
      ("triggered_at", .str (strftime now))]

/-- `SchedulerUnifiedService._run_st_now`; `redis` is the error that the push raises. -/
def _run_st_now : Except Exn Triggered := do
  let host_ids ← views.elements task.hosts
  if host_ids = [] then
    return { ok := false, msg := "Task has no target hosts configured, cannot execute", tables }
  let values : ScriptTaskExecution := {
    id := 0
    task_id := task.id
    trigger_type := "manual_unified_ee"
    status := .pending
    start_time := some now
    creator_id := operator_id }
  match create_execution ["task", "trigger_type", "status", "start_time", "creator",
    "target_host_ids"] values tables with
  | .error exc =>
    return { ok := false, msg := "Failed to create execution record: " ++ exc.text, tables }
  | .ok (exec_obj, tables) =>
    match redis with
    | none => return {
        ok := true
        msg := "ScriptTask[id=" ++ toString task.id ++ "] 投递成功, execution_id=" ++ toString exec_obj.id
        tables
        pushed := some (exec_obj, unified_payload strftime task operator_id now host_ids exec_obj) }
    | some exc => return {
        ok := true
        msg := "Execution[id=" ++ toString exec_obj.id ++ "] created, Redis 不可达,走 HTTP 兜底: " ++ exc
        tables }

/-- The message of `execute_now`. -/
def execute_now_payload (host_ids : List Json) (execution : ScriptTaskExecution) : Json :=
  .obj [("source", .str "taurus-backend-execute_now"), ("v", .int 1),
    ("task", .obj [("id", .int task.id), ("name", .str task.name), ("script_id",
    .int task.script.id), ("hosts", .arr host_ids),
      ("timeout", .int task.timeout), ("envs", .obj task.envs), ("args", .arr task.args)]),
    ("execution", .obj [("id", .int execution.id), ("trigger_type",
      .str "manual"), ("scheduled_fire_time", .str (strftime now))])]

/-- `ScriptTaskViewSet.execute_now`, the other trigger of a task. -/
def execute_now : Except Exn Triggered := do
  if !task.enabled then
    return { ok := false, msg := "Task is disabled, please enable before executing", tables }
  if task.script.status = .pending_approval then
    return { ok := false, msg := "Script is pending approval, cannot execute now", tables }
  if task.script.status = .disabled ∨ task.script.status = .archived then
    return { ok := false, msg := "Script disabled or archived, cannot execute", tables }
  if task.schedule_type = "once" ∧ task.exec_count > 0 then
    return { ok := false, msg := "One-time task already executed, cannot re-execute manually", tables }
  let running := tables.executions.countP fun e => e.task_id = task.id ∧
    (e.status = .pending ∨ e.status = .running)
  if running > 0 then
    let msg :=
      "There are " ++ toString running ++
        " execution instances running, please wait for completion and retry"
    return { ok := false, msg, tables }
  let hosts ← views.elements task.hosts
  if hosts = [] then
    return { ok := false, msg := "Task has no target hosts configured, cannot execute", tables }
  let values : ScriptTaskExecution := {
    id := 0
    task_id := task.id
    status := .running
    start_time := some now
    trigger_type := "manual"
    executed_hosts := hosts
    creator_id := operator_id }
  match create_execution ["task", "status", "start_time", "trigger_type", "executed_hosts",
    "creator", "modifier"] values tables with
  | .error exc =>
    return { ok := false, msg := "Failed to create execution record: " ++ exc.text, tables }
  | .ok (execution, tables) =>
    match redis with
    | none => return {
        ok := true
        msg := "Task committed to dispatch queue"
        tables
        pushed := some (execution, execute_now_payload strftime task now hosts execution) }
    | some exc =>
      let error_message := "Failed to enqueue message: " ++ exc
      return {
        ok := false
        msg := "Failed to queue execution task: " ++ exc
        tables := tables.update_execution execution.id fun row =>
          { row with status := .failed, error_message := some error_message, end_time := some now } }

end

end taurus.scheduler
