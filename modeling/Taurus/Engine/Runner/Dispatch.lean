import Taurus.Engine.Runner.Poll

namespace taurus.engine.runner

open taurus.lib taurus.lib.Prog taurus.python taurus.engine.executor

/-- `row.adapter_state and row.adapter_state.get("__loop_child__")` -/
def is_loop_child (row : NodeExec) : Bool := (getJson row.adapter_state "__loop_child__").truthy

/-- The elements Python iterates over; None is the TypeError of other values. -/
def iterate : Json → Option (List Json)
  | .arr xs => some xs
  | .obj kvs => some (kvs.map fun kv => .str kv.1)
  | .str s => some (s.toList.map fun c => .str (String.ofList [c]))
  | _ => none

/-- The key of the `i`-th child row of a loop node. -/
def childKey (parent_key : String) (i : Nat) : String := s!"{parent_key}__loop_{i}"

/-- The child row of one loop item. -/
def loop_child (env : Env) (execution : Execution) (parent_row : NodeExec) (user_id : Option Int)
    (body_node_type : String) (body_params : Json) (total i : Nat) (item : Json) : NodeExec :=
  let child_key := childKey parent_row.node_key i
  { node_key := child_key
    node_type := body_node_type
    node_name := s!"{parent_row.node_name} iteration {i + 1}/{total}"
    host_id := parent_row.host_id
    dispatch_id := _make_dispatch_id execution.pk child_key parent_row.host_id
    status := .PENDING
    attempt_no := 1
    fail_strategy := parent_row.fail_strategy
    timeout_sec :=
      if parent_row.timeout_sec = 0 ∧ _TIMEOUT_ELIGIBLE_NODE_TYPES.contains body_node_type then
        execution.global_timeout_sec
      else parent_row.timeout_sec
    queued_at := some env.now
    update_datetime := some env.now
    user_id
    adapter_state := [("__loop_child__", .bool true), ("loop_index", .int i), ("loop_item", item),
      ("loop_parent_node_key", .str parent_row.node_key), ("loop_total", .int total),
      ("body_params", body_params)] }

/-- The text a value leaves in a character column. -/
def columnText : Json → String
  | .str s => s
  | .int n => s!"{n}"
  | .bool b => if b then "True" else "False"
  | _ => ""

/-- Create a PENDING child row for every item of a loop node's output. -/
def _expand_loop_children (env : Env) (execution : Execution) (parent_row : NodeExec)
    (uo : UnitOutput) (user_id : Option Int) : RunnerM Unit :=
  let loop_items := getJson uo.output "loop_items"
  let body := getJson uo.output "body_node_type"
  let raw_params := getJson uo.output "body_params"
  let body_params := if raw_params.truthy then raw_params else .obj []
  if !loop_items.truthy || !body.truthy then pure ()
  else match iterate loop_items with
  | none => raise (.other "TypeError" "object is not iterable")
  | some items => do
    let child_rows := items.mapIdx fun i item =>
      loop_child env execution parent_row user_id (columnText body) body_params items.length i item
    record (.expand parent_row child_rows)
    let _ ← bulk_create child_rows
    pure ()

/-- The node a row is dispatched with: a loop child brings its own params. -/
def dispatch_node (dag : Dag) (row : NodeExec) : Option Node :=
  if is_loop_child row then
    let item := getJson row.adapter_state "loop_item"
    let body_params := ((getJson row.adapter_state "body_params").obj?).getD []
    let params := match item with
      | .null => body_params
      | item => Dict.set body_params "loop_item" item
    some { node_key := row.node_key, node_type := row.node_type, params }
  else dag.node? row.node_key

/-- The text of a failed `validate_config`: its first error, when it gives one. -/
def validation_message (vr : ValidationResult) : String :=
  match vr.errors with
  | [] => "validate_config failed"
  | (ptr, msgs) :: _ =>
    let texts := String.intercalate ", " (msgs.map fun m => s!"'{m}'")
    s!"validate_config failed {ptr}: [{texts}]"

/-- A row checked and rendered for its adapter, or the text it fails with. -/
def prepare_dispatch (env : Env) (dag : Dag) (ctx : EdgeCtx) (row : NodeExec) :
    RunnerM (String ⊕ (Adapter × Dict String Json)) :=
  match dispatch_node dag row with
  | none => pure (.inl s!"E3120: node_key={row.node_key} not found in DAG")
  | some node =>
    match env.get_class row.node_type with
    | .error e =>
      pure (.inl s!"E3121: adapter load failed node_type='{row.node_type}' err={e.text}")
    | .ok adapter => do
      fromExcept adapter.construct
      match render_node_config env adapter node (_build_workflow_context ctx) row.host_id
          row.attempt_no row.fail_strategy with
      | .error (.ValueError m) => pure (.inl s!"E3122: render failed {m}")
      | .error e => raise e
      | .ok rendered =>
        match adapter.validate_config rendered.params with
        | .error e => pure (.inl s!"E3124: validate_config exception {e.name}: {e.text}")
        | .ok vr =>
          if vr.ok then pure (.inr (adapter, rendered.params))
          else pure (.inl s!"E3123: {validation_message vr}")

/-- Save the answer of `adapter.dispatch` and expand a loop node. -/
def dispatch_answer (env : Env) (execution : Execution) (row : NodeExec) (uo : UnitOutput)
    (user_id : Option Int) : RunnerM Unit := do
  let running := { row with status := .RUNNING }
  let (new, fields) := _apply_unit_output env running uo true
  save env new (fields ++ [.status, .rendered_params, .started_at] ++
    (if user_id.isSome then [.user_id] else []))
  if uo.status.terminal && (getJson uo.output "loop_items").truthy then
    _expand_loop_children env execution new uo user_id
  else pure ()

/-- Render, check and dispatch one PENDING row; whether it was dispatched. -/
def dispatch_row (env : Env) (execution : Execution) (dag : Dag) (ctx : EdgeCtx)
    (user_id : Option Int) (row : NodeExec) : RunnerM Bool :=
  if row.status ≠ .PENDING then pure false
  else do
    match ← prepare_dispatch env dag ctx row with
    | .inl message => do
      let _ ← fail_row env row message
      pure false
    | .inr (adapter, rendered) => do
      let row := { row with
        rendered_params := rendered, user_id := user_id.or row.user_id, started_at := some env.now }
      record (.dispatch row)
      match adapter.dispatch (_build_rendered_cfg env execution row rendered) with
      | .error e =>
        let row := { row with
          status := .FAILED, finished_at := some env.now,
          error_message := some s!"E3125: dispatch exception {e.name}: {e.text}" }
        -- without a user the list of columns holds None, which Django refuses
        if user_id.isSome then do
          save env row [.status, .started_at, .finished_at, .error_message, .rendered_params,
            .user_id, .update_datetime]
          pure false
        else raise (.ValueError "The following fields do not exist in this model")
      | .ok uo => do
        dispatch_answer env execution row uo user_id
        pure true

/-- Dispatch the PENDING rows among the candidates one by one; how many were
accepted by their adapter. -/
def _dispatch_pending (env : Env) (execution : Execution) (dag : Dag)
    (candidate_rows : List NodeExec) (ctx : EdgeCtx) (user_id : Option Int) : RunnerM Nat := do
  let accepted ← Prog.forEach (dispatch_row env execution dag ctx user_id) candidate_rows
  pure (accepted.count true)

section

variable {env : Env} {row : NodeExec} {uo : UnitOutput} {initial : Bool}

/-- An assignment changes the row if it is wanted. -/
theorem assign_fst (wanted : Bool) (f : Field) (change : NodeExec → NodeExec)
    (x : NodeExec × List Field) :
    (assign wanted f change x).1 = if wanted then change x.1 else x.1 := by
  unfold assign
  split_ifs <;> rfl

theorem mem_assign_snd {wanted : Bool} {f g : Field} {change : NodeExec → NodeExec}
    {x : NodeExec × List Field} :
    g ∈ (assign wanted f change x).2 ↔ g ∈ x.2 ∨ (wanted = true ∧ g = f) := by
  unfold assign
  split_ifs with h <;> simp [h]

/-- The stored row after an adapter's answer was applied to it and saved. -/
def applied (env : Env) (row : NodeExec) (uo : UnitOutput) (initial : Bool) : NodeExec :=
  row.write (_apply_unit_output env row uo initial).1 env.now
    (_apply_unit_output env row uo initial).2

/-- A terminal status takes no answer. -/
theorem nextStatus_terminal {s : Status} (h : s.terminal = true) (t : Status) :
    nextStatus s t = s := by
  cases s <;> cases t <;> simp at h <;> rfl

/-- Each column after an output: the status moves by the table of transitions. -/
theorem applied_status : (applied env row uo initial).status = nextStatus row.status uo.status := by
  simp only [applied, NodeExec.write, _apply_unit_output, assign_fst, mem_assign_snd,
    apply_ite NodeExec.status, List.mem_append]
  by_cases h : nextStatus row.status uo.status = row.status <;> simp [h]

theorem applied_exit_code :
    (applied env row uo initial).exit_code = uo.exit_code.or row.exit_code := by
  simp only [applied, NodeExec.write, _apply_unit_output, assign_fst, mem_assign_snd,
    apply_ite NodeExec.exit_code, List.mem_append]
  cases h : uo.exit_code <;> simp

theorem applied_error_message :
    (applied env row uo initial).error_message = uo.error_message.or row.error_message := by
  simp only [applied, NodeExec.write, _apply_unit_output, assign_fst, mem_assign_snd,
    apply_ite NodeExec.error_message, List.mem_append]
  cases h : uo.error_message <;> simp

/-- An empty output keeps the one before. -/
theorem applied_output :
    (applied env row uo initial).output = if uo.output.isEmpty then row.output else uo.output := by
  simp only [applied, NodeExec.write, _apply_unit_output, assign_fst, mem_assign_snd,
    apply_ite NodeExec.output, List.mem_append]
  cases h : uo.output <;> simp

theorem applied_adapter_state :
    (applied env row uo initial).adapter_state = uo.adapter_state.getD row.adapter_state := by
  simp only [applied, NodeExec.write, _apply_unit_output, assign_fst, mem_assign_snd,
    apply_ite NodeExec.adapter_state, List.mem_append]
  cases h : uo.adapter_state <;> simp

theorem applied_poll_count :
    (applied env row uo initial).poll_count =
      if initial then row.poll_count else row.poll_count + 1 := by
  simp only [applied, NodeExec.write, _apply_unit_output, assign_fst, mem_assign_snd,
    apply_ite NodeExec.poll_count, List.mem_append]
  cases initial <;> simp

/-- The columns saved with the answer of a dispatch. -/
def dispatchFields (user_id : Option Int) : List Field :=
  [.status, .rendered_params, .started_at] ++ (if user_id.isSome then [.user_id] else [])

/-- A pending row as it is handed to its adapter. -/
def handed_row (env : Env) (row : NodeExec) (rendered : Dict String Json)
    (user_id : Option Int) : NodeExec :=
  { row with rendered_params := rendered, user_id := user_id.or row.user_id, started_at := some env.now }

/-- A row with the answer to its dispatch, and the columns saved. -/
def accepted (env : Env) (row : NodeExec) (uo : UnitOutput) (user_id : Option Int) :
    NodeExec × List Field :=
  let (new, fields) := _apply_unit_output env { row with status := .RUNNING } uo true
  (new, fields ++ dispatchFields user_id)

/-- The stored row after its adapter has answered to the dispatch. -/
def dispatched_row (env : Env) (row : NodeExec) (rendered : Dict String Json) (user_id : Option Int)
    (uo : UnitOutput) : NodeExec :=
  let (new, fields) := accepted env (handed_row env row rendered user_id) uo user_id
  row.write new env.now fields

/-- A dispatched row is RUNNING before the answer is applied. -/
theorem dispatched_row_status (env : Env) (row : NodeExec) (rendered : Dict String Json)
    (user_id : Option Int) (uo : UnitOutput) :
    (dispatched_row env row rendered user_id uo).status = nextStatus .RUNNING uo.status := by
  simp only [dispatched_row, accepted, NodeExec.write, _apply_unit_output, assign_fst,
    dispatchFields, apply_ite NodeExec.status, List.mem_append]
  by_cases h : nextStatus .RUNNING uo.status = .RUNNING <;> simp [h]

/-- The adapter's state is stored. -/
theorem dispatched_row_adapter_state {rendered : Dict String Json} {user_id : Option Int}
    {state : Dict String Json} (hstate : uo.adapter_state = some state) :
    (dispatched_row env row rendered user_id uo).adapter_state = state := by
  simp only [dispatched_row, accepted, NodeExec.write, _apply_unit_output, assign_fst,
    mem_assign_snd, apply_ite NodeExec.adapter_state, List.mem_append, hstate]
  simp

end

end taurus.engine.runner
