import Taurus.Engine.DagValidator
import Taurus.Scheduler.ScriptTasks

namespace taurus.scheduler

open taurus.lib taurus.python taurus.engine taurus.engine.runner taurus.engine.dag_validator

variable {env : Environment} {tables : Tables} {task : ScriptTask}

def TaskStatus.terminal : TaskStatus → Bool
  | .success | .failed => true
  | .pending | .running => false

/-- The record is there, and it is over. -/
def Ended (tables : Tables) (id : Int) : Prop :=
  (∃ row ∈ tables.executions, row.id = id) ∧ ∀ row ∈ tables.executions, row.id = id →
  row.status.terminal = true

/-- The hosts that the worker resolves for the task. -/
def targets (env : Environment) (tables : Tables) (task : ScriptTask) : List Host :=
  match host_references env task.hosts with
  | .ok host_refs => ordered_hosts env tables host_refs
  | .error _ => []

/-- The worker may run the script, and no execution is refused. -/
structure Executable (env : Environment) (tables : Tables) (task : ScriptTask) : Prop where
  enabled : task.script.status = .enabled
  quota : check_quota env tables = .ok ()
  accepted : ∀ h, env.refuses h = none

/-- What a trigger promises: there is a message, after which the record has ended and every host
that is resolved has its execution. -/
structure Understood (env : Environment) (task : ScriptTask) (triggered : Triggered) : Prop where
  pushed : ∃ exec_obj message, triggered.pushed = some (exec_obj, message) ∧
    let after := _process_single_payload_sync env (some message) triggered.tables
    Ended after exec_obj.id ∧
      (Executable env triggered.tables task → targets env triggered.tables task ≠ [] →
        ∃ ops, after.ops = triggered.tables.ops ++ ops ∧
        ops.map (·.host) = (targets env triggered.tables task).map (·.pk))

section

variable {strftime : Time → String} {operator_id : Option Int} {now : Time} {redis : Option String}
  {triggered : Triggered}

/-- The keyword that no field has. -/
theorem create_execution_unexpected (values : ScriptTaskExecution) : create_execution
      ["task", "trigger_type", "status", "start_time", "creator", "target_host_ids"] values tables =
    .error (.other "TypeError" "ScriptTaskExecution() got unexpected keyword arguments: 'target_host_ids'") := by
  have hfilter : ["task", "trigger_type", "status", "start_time", "creator",
    "target_host_ids"].filter (· ∉ execution_fields) =
      ["target_host_ids"] := by decide +kernel
  unfold create_execution
  rw [hfilter]
  rfl

/-- The unified trigger fails where the task has hosts. -/
theorem run_st_now_eq {host_ids : List Json} (hhosts : views.elements task.hosts = .ok host_ids)
    (hne : host_ids ≠ []) :
    _run_st_now strftime task operator_id now redis tables = .ok {
      ok := false
      msg := "Failed to create execution record: " ++ "ScriptTaskExecution() got unexpected keyword arguments: 'target_host_ids'"
      tables } := by
  unfold _run_st_now
  rw [hhosts]
  change (if host_ids = [] then _ else _) = _
  rw [if_neg hne, create_execution_unexpected]
  rfl

/-- Its message has no `task`. -/
theorem unified_payload_discarded (host_ids : List Json) (exec_obj : ScriptTaskExecution) :
    _process_single_payload_sync env
      (some (unified_payload strftime task operator_id now host_ids exec_obj)) tables = tables := by
  rfl

/-- The unified trigger is never understood: where the task has hosts it pushes nothing, and what it
would push is dropped. -/
theorem unified_trigger_not_understood (env : Environment) (strftime : Time → String)
    (operator_id : Option Int) (now : Time) (redis : Option String) (tables : Tables)
    {host_ids : List Json} (hhosts : views.elements task.hosts = .ok host_ids)
    (hne : host_ids ≠ []) :
    (∃ triggered, _run_st_now strftime task operator_id now redis tables = .ok triggered ∧
      triggered.tables = tables ∧
      ¬Understood env task triggered) ∧
    ∀ (exec_obj : ScriptTaskExecution) (tables : Tables),
      _process_single_payload_sync env
        (some (unified_payload strftime task operator_id now host_ids exec_obj)) tables =
        tables := by
  refine ⟨⟨_, run_st_now_eq hhosts hne, rfl, ?_⟩,
    fun exec_obj _ => unified_payload_discarded host_ids exec_obj⟩
  rintro ⟨exec_obj, message, hpushed, -⟩
  cases hpushed

/-! A task for one approved host. -/

def nightly : ScriptTask where
  id := 3
  name := "nightly"
  script := { id := 1, name := "dump", content := "pg_dump" }
  hosts := .arr [.str "10.0.0.7"]

def office : Tables where
  tasks := [nightly]
  hosts := [{ pk := 7, host_uuid := "a1", host_ip := some "10.0.0.7", status := .approved }]

def worker : Environment where
  now := 0
  uuid := toString
  py := .short
  lower := String.toLower

theorem nightly_never_understood :
    (∃ triggered, _run_st_now toString nightly (some 1) 0 none office = .ok triggered ∧
      triggered.tables = office ∧
      ¬Understood worker nightly triggered) ∧
    ∀ (exec_obj : ScriptTaskExecution) (tables : Tables),
      _process_single_payload_sync worker
        (some (unified_payload toString nightly (some 1) 0 [.str "10.0.0.7"] exec_obj)) tables =
        tables :=
  unified_trigger_not_understood worker toString (some 1) 0 none office rfl (List.cons_ne_nil _ _)

def waiting : ScriptTaskExecution where
  id := 1
  task_id := 3
  status := .pending

/-- The trigger answers an error, and the message for a record that is there leaves it pending. -/
theorem nightly_record_stays_pending :
    (∃ triggered, _run_st_now toString nightly (some 1) 0 none office = .ok triggered ∧
      triggered.ok = false ∧
      triggered.tables.executions = [] ∧ ¬Understood worker nightly triggered) ∧
    (_process_single_payload_sync worker
      (some (unified_payload toString nightly (some 1) 0 [.str "10.0.0.7"] waiting))
      { office with executions := [waiting] }).executions.map (·.status) = [.pending] := by
  refine ⟨⟨_, run_st_now_eq rfl (List.cons_ne_nil _ _), rfl, rfl, ?_⟩, ?_⟩
  · rintro ⟨exec_obj, message, hpushed, -⟩
    cases hpushed
  · rw [unified_payload_discarded]
    rfl

end

/-! The other trigger of a task, `execute_now`, whose messages the worker understands. -/

section

/-- Marking an execution leaves the operations. -/
theorem mark_execution_ops (env : Environment) (id : Int) (mark : Mark) (tables : Tables) :
    (_mark_execution env id mark tables).ops = tables.ops := by
  unfold _mark_execution
  split <;> rfl

/-- A marked record is over. -/
theorem ended_of_mark {id : Int} (mark : Mark) {after : Tables} (hid : id ≠ 0)
    (hexists : ∃ row ∈ tables.executions, row.id = id) (hterminal : mark.status.terminal = true)
    (hafter : after.executions = (_mark_execution env id mark tables).executions) :
    Ended after id := by
  have hexecutions : after.executions = tables.executions.map fun row => if row.id =
      id then row.finish mark env.now else row := by
    rw [hafter]
    unfold _mark_execution
    rw [if_neg hid]
    rfl
  unfold Ended
  rw [hexecutions]
  constructor
  · obtain ⟨row, hrow, hsame⟩ := hexists
    exact ⟨_, List.mem_map_of_mem hrow, by rw [if_pos hsame]; exact hsame⟩
  · intro row hrow hsame
    obtain ⟨old, -, rfl⟩ := List.mem_map.mp hrow
    by_cases hold : old.id = id
    · rw [if_pos hold]
      exact hterminal
    · rw [if_neg hold] at hsame
      exact absurd hsame hold

/-- Every branch of the worker ends with a mark. -/
theorem run_script_task_marks {task_id id : Int} {task_info : Dict String Json}
    {trigger_type : Json} {after : Tables}
    (h : run_script_task env task_id id task_info trigger_type tables = .ok after) :
    ∃ mark before, mark.status.terminal = true ∧ before.executions = tables.executions ∧
      after.executions = (_mark_execution env id mark before).executions := by
  unfold run_script_task at h
  split at h
  · obtain rfl := Except.ok.inj h
    exact ⟨_, tables, rfl, rfl, rfl⟩
  · split at h
    · obtain rfl := Except.ok.inj h
      exact ⟨_, tables, rfl, rfl, rfl⟩
    · obtain rfl := Except.ok.inj h
      exact ⟨_, tables, rfl, rfl, rfl⟩
    · obtain rfl := Except.ok.inj h
      exact ⟨_, tables, rfl, rfl, rfl⟩
    · obtain ⟨host_refs, -, h⟩ := bind_eq_ok.mp h
      split at h
      · obtain rfl := Except.ok.inj h
        exact ⟨_, tables, rfl, rfl, rfl⟩
      · dsimp only at h
        split at h
        · obtain rfl := Except.ok.inj h
          exact ⟨_, tables, rfl, rfl, rfl⟩
        · obtain ⟨-, -, h⟩ := bind_eq_ok.mp h
          obtain rfl := Except.ok.inj h
          refine ⟨_, { tables with ops := tables.ops ++ (dispatch_hosts env _ id
            (ordered_hosts env tables host_refs)).filterMap (·.1) }, ?_, rfl, rfl⟩
          dsimp only
          split <;> rfl

/-- One row for every host, where none is refused. -/
theorem dispatch_hosts_ops (haccepted : ∀ h, env.refuses h = none) (task : ScriptTask)
    (execution_id : Int) (hosts : List Host) :
    ((dispatch_hosts env task execution_id hosts).filterMap (·.1)).map (·.host) =
      hosts.map (·.pk) := by
  have hrow : ∀ (i : Nat) (h : Host), ∃ op,
    (dispatch_host env task (batch_id env task execution_id) i h).1 = some op ∧ op.host = h.pk := by
    intro i h
    unfold dispatch_host
    rw [haccepted h]
    exact ⟨_, rfl, rfl⟩
  unfold dispatch_hosts
  have hfrom : ∀ start, (((hosts.zipIdx start).map fun p =>
      dispatch_host env task (batch_id env task execution_id) p.2 p.1).filterMap (·.1)).map
        (·.host) = hosts.map (·.pk) := by
    induction hosts with
    | nil => exact fun _ => rfl
    | cons h rest ih =>
      intro start
      obtain ⟨op, hop, hhost⟩ := hrow start h
      rw [List.zipIdx_cons, List.map_cons, List.filterMap_cons_some hop, List.map_cons,
        List.map_cons, hhost, ih]
  exact hfrom 0

/-- Every host that is resolved has its execution, where the script may run. -/
theorem run_script_task_ops (id : Int) (task_info : Dict String Json) (trigger_type : Json)
    (htask : tables.tasks.find? (·.id = task.id) = some task) (hhosts : task.hosts.truthy = true)
    (hexecutable : Executable env tables task) (htargets : targets env tables task ≠ []) :
    ∃ after, run_script_task env task.id id task_info trigger_type tables = .ok after ∧
      ∃ ops, after.ops = tables.ops ++ ops ∧
        ops.map (·.host) = (targets env tables task).map (·.pk) := by
  unfold targets at htargets ⊢
  cases hrefs : host_references env task.hosts with
  | error err =>
    rw [hrefs] at htargets
    exact absurd rfl htargets
  | ok host_refs =>
    rw [hrefs] at htargets
    have hne : host_refs ≠ [] := by
      rintro rfl
      exact htargets rfl
    unfold run_script_task
    rw [htask]
    dsimp only
    rw [hexecutable.enabled]
    dsimp only
    refine ⟨dispatch env task id trigger_type host_refs (ordered_hosts env tables host_refs) tables,
      bind_eq_ok.mpr ⟨host_refs, by rw [orElse, if_pos hhosts]; exact hrefs, ?_⟩, ?_⟩
    · rw [if_neg hne, if_neg htargets, hexecutable.quota]
      rfl
    · refine ⟨_, ?_, dispatch_hosts_ops hexecutable.accepted task id _⟩
      exact mark_execution_ops _ _ _ _

section

variable {strftime : Time → String} {operator_id : Option Int} {now : Time} {redis : Option String}
  {triggered : Triggered}

theorem int_of_int (n : Int) : int_of? (orElse (.int n) (.int 0)) = some n := by
  unfold orElse
  by_cases hn : n = 0
  · subst hn
    rfl
  · have htruthy : (Json.int n).truthy = true := bne_iff_ne.mpr hn
    rw [if_pos htruthy]
    rfl

theorem dict_of_obj (method : String) (d : Dict String Json) :
    views.dict_of method (.obj d) = .ok d := by
  cases d with
  | nil => rfl
  | cons _ _ => rfl

/-- What becomes of a message whose task and execution can be read. -/
theorem process_read {payload task_info exec_info : Dict String Json} {task_id execution_id : Int}
    (htask : views.dict_of "get" (getJson payload "task") = .ok task_info)
    (hexec : views.dict_of "get" (getJson payload "execution") = .ok exec_info)
    (htask_id : int_of? (orElse (getJson task_info "id") (.int 0)) = some task_id)
    (hexecution_id : int_of? (orElse (getJson exec_info "id") (.int 0)) = some execution_id)
    (hgo : ¬ (task_id = 0 || !sliceable (getJson task_info "name")) = true) {trigger_type : Json}
    (htrigger : orElse (getJson exec_info "trigger_type")
      (orElse (getJson payload "trigger_type") (.str "schedule")) =
      trigger_type) :
    (∀ after, run_script_task env task_id execution_id task_info trigger_type tables = .ok after →
      _process_script_task_payload_sync env payload tables = after) ∧
    ∀ err, run_script_task env task_id execution_id task_info trigger_type tables = .error err →
      _process_script_task_payload_sync env payload tables =
        _mark_execution env execution_id
          (failed ("Worker internal error: " ++ err.text ++ "\n" ++ env.traceback) none)
          tables := by
  unfold _process_script_task_payload_sync
  rw [htask, hexec]
  simp only
  rw [htask_id, hexecution_id]
  simp only
  rw [if_neg hgo, htrigger]
  constructor
  · intro after hrun
    rw [hrun]
  · intro err hrun
    rw [hrun]

/-- What the worker reads of a message of `execute_now`. -/
theorem process_execute_now (env : Environment) (tables : Tables) (strftime : Time → String)
    (now : Time) (hid : task.id ≠ 0) (host_ids : List Json) (execution : ScriptTaskExecution) :
    ∃ task_info, getJson task_info "hosts" = .arr host_ids ∧
      (∀ after, run_script_task env task.id execution.id task_info
        (.str "manual") tables = .ok after →
        _process_single_payload_sync env
          (some (execute_now_payload strftime task now host_ids execution)) tables = after) ∧
      ∀ err, run_script_task env task.id execution.id task_info
        (.str "manual") tables = .error err →
        _process_single_payload_sync env
          (some (execute_now_payload strftime task now host_ids execution)) tables =
          _mark_execution env execution.id
            (failed ("Worker internal error: " ++ err.text ++ "\n" ++ env.traceback) none)
            tables := by
  have hpayload : ∃ payload task_info exec_info,
    execute_now_payload strftime task now host_ids execution = .obj payload ∧
      getJson payload "target_type" = .null ∧ getJson payload "task" = .obj task_info ∧
      getJson payload "execution" = .obj exec_info ∧ getJson task_info "hosts" = .arr host_ids ∧
      getJson task_info "id" = .int task.id ∧ getJson task_info "name" = .str task.name ∧
      getJson exec_info "id" = .int execution.id ∧
          getJson exec_info "trigger_type" = .str "manual" :=
    ⟨_, _, _, rfl, rfl, rfl, rfl, rfl, rfl, rfl, rfl, rfl⟩
  obtain ⟨payload, task_info, exec_info, hobject, htarget, htask, hexec, hhosts, htask_id, hname,
    hexecution_id, htrigger⟩ :=
    hpayload
  refine ⟨task_info, hhosts, ?_⟩
  have hsingle : _process_single_payload_sync env (some (.obj payload)) tables =
      _process_script_task_payload_sync env payload tables := by
    unfold _process_single_payload_sync
    simp only
    rw [htarget]
    rfl
  rw [hobject, hsingle]
  have htask_info : views.dict_of "get" (getJson payload "task") = .ok task_info := by
    rw [htask]
    exact dict_of_obj _ _
  have hexec_info : views.dict_of "get" (getJson payload "execution") = .ok exec_info := by
    rw [hexec]
    exact dict_of_obj _ _
  refine process_read htask_info hexec_info ?_ ?_ ?_ ?_
  · rw [htask_id]
    exact int_of_int _
  · rw [hexecution_id]
    exact int_of_int _
  · rw [hname]
    simp [hid, sliceable]
  · rw [htrigger]
    rfl

/-- A created execution has a number and is stored. -/
theorem created_execution {kwargs : List String} {values execution : ScriptTaskExecution}
    {tables' : Tables} (h : create_execution kwargs values tables = .ok (execution, tables')) :
    0 < execution.id ∧ tables' =
      { tables with executions := tables.executions ++ [execution] } := by
  have hmax : ∀ (ids : List Int) (start : Int), start ≤ ids.foldl max start := by
    intro ids
    induction ids with
    | nil => exact fun _ => le_refl _
    | cons id rest ih => exact fun start => le_trans (le_max_left start id) (ih _)
  unfold create_execution at h
  split at h
  · obtain ⟨rfl, rfl⟩ := Prod.mk.inj (Except.ok.inj h)
    exact ⟨Int.lt_add_one_of_le (hmax _ 0), rfl⟩
  · cases h

/-- What `execute_now` has done where it answers success. -/
theorem execute_now_ok (h : execute_now strftime task operator_id now redis tables = .ok triggered)
    (hok : triggered.ok = true) :
    ∃ host_ids execution, views.elements task.hosts = .ok host_ids ∧ host_ids ≠ [] ∧
      0 < execution.id ∧
      triggered.tables = { tables with executions := tables.executions ++ [execution] } ∧
      triggered.pushed = some (execution,
        execute_now_payload strftime task now host_ids execution) := by
  unfold execute_now at h
  dsimp only at h
  split at h
  · obtain rfl := Except.ok.inj h
    cases hok
  split at h
  · obtain rfl := Except.ok.inj h
    cases hok
  split at h
  · obtain rfl := Except.ok.inj h
    cases hok
  split at h
  · obtain rfl := Except.ok.inj h
    cases hok
  split at h
  · obtain rfl := Except.ok.inj h
    cases hok
  obtain ⟨host_ids, hhosts, h⟩ := bind_eq_ok.mp h
  split at h
  · obtain rfl := Except.ok.inj h
    cases hok
  next hne =>
    split at h
    · obtain rfl := Except.ok.inj h
      cases hok
    next execution tables' hcreate =>
      obtain ⟨hpositive, rfl⟩ := created_execution hcreate
      split at h
      · obtain rfl := Except.ok.inj h
        exact ⟨host_ids, execution, hhosts, hne, hpositive, rfl, rfl⟩
      · obtain rfl := Except.ok.inj h
        cases hok

/-- A message of `execute_now` is understood. -/
theorem execute_now_understood (htask : tables.tasks.find? (·.id = task.id) = some task)
    (hid : task.id ≠ 0) (h : execute_now strftime task operator_id now redis tables = .ok triggered)
    (hok : triggered.ok = true) :
    Understood env task triggered := by
  obtain ⟨host_ids, execution, hhosts, hne, hpositive, htables, hpushed⟩ := execute_now_ok h hok
  have htruthy : task.hosts.truthy = true := by
    by_contra hfalse
    unfold views.elements at hhosts
    rw [Bool.eq_false_of_not_eq_true hfalse, if_pos (by decide)] at hhosts
    exact hne (Except.ok.inj hhosts).symm
  obtain ⟨task_info, -, hreturned, hraised⟩ :=
    process_execute_now env triggered.tables strftime now hid host_ids execution
  have htask' : triggered.tables.tasks.find? (·.id = task.id) = some task := by
    rw [htables]
    exact htask
  have hexists : ∃ row ∈ triggered.tables.executions, row.id = execution.id := by
    rw [htables]
    exact ⟨execution, List.mem_append_right _ List.mem_cons_self, rfl⟩
  have hnonzero : execution.id ≠ 0 := by omega
  refine ⟨execution, _, hpushed, ?_⟩
  constructor
  · cases hrun : run_script_task env task.id execution.id task_info
      (.str "manual") triggered.tables with
    | ok after =>
      rw [hreturned after hrun]
      obtain ⟨mark, before, hterminal, hbefore, hafter⟩ := run_script_task_marks hrun
      exact ended_of_mark mark hnonzero (by rw [hbefore]; exact hexists) hterminal hafter
    | error err =>
      rw [hraised err hrun]
      exact ended_of_mark (failed _ none) hnonzero hexists rfl rfl
  · intro hexecutable htargets
    obtain ⟨after, hrun, hops⟩ :=
      run_script_task_ops execution.id task_info (.str "manual") htask' htruthy hexecutable htargets
    rw [hreturned after hrun]
    exact hops

end

end

end taurus.scheduler
