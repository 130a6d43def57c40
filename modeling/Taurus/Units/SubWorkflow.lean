import Taurus.Engine.Runner.Runs
import Taurus.Units.Loop

namespace taurus.units

open taurus.lib taurus.python taurus.engine taurus.engine.runner

def MAX_NESTING_DEPTH : Int := 3

/-- A workflow as the adapter reads it. -/
structure SubWorkflow where
  dag_published_version : Option DagVersion

/-- What `dispatch` finds in the database. `workflow` is `Workflow.objects.get(pk=sub_id)`, none for
a workflow that does not exist; a new execution gets the primary key `new_execution`. -/
structure Site where
  workflow : Json → Except Exn (Option SubWorkflow)
  execution_params : Nat → Option (Dict String Json)
  existing_sub_execution : String → Option Nat
  new_execution : RenderedNodeConfig → Nat

/-- The call of `trigger_workflow` that `dispatch` makes. -/
structure ChildCall where
  ver : DagVersion
  trigger_params : Dict String Json
  user_id : Int
  fail_strategy : Option String

namespace SubWorkflowAdapter

/-- `v in (None, "", 0)` -/
def is_absent (v : Json) : Bool :=
  v.eqLiteral .null || v.eqLiteral (.str "") || v.eqLiteral (.int 0)

def validate_config (params : Dict String Json) : Except Exn ValidationResult :=
  let r : ValidationResult :=
    if is_absent (getJson params "sub_workflow_id") then
      add_error {} "/params/sub_workflow_id" "E0601: sub_workflow_id is required"
    else {}
  let r := match getJson params "trigger_params" with
    | .null | .obj _ => r
    | _ => add_error r "/params/trigger_params" "E0201: trigger_params must be dict"
  let refused :=
    add_error r "/params/fail_strategy" "E0201: fail_strategy must be in {fail_fast, continue}"
  match getJson params "fail_strategy" with
  | .null => .ok r
  | .str s => .ok (if s = "fail_fast" ∨ s = "continue" then r else refused)
  | .arr _ => .error (.other "TypeError" "unhashable type: 'list'")
  | .obj _ => .error (.other "TypeError" "unhashable type: 'dict'")
  | .bool _ | .int _ | .float _ => .ok refused

def failed (message : String) : UnitOutput :=
  { status := .FAILED, error_message := some message, exit_code := some 1 }

/-- The depth of a sub-workflow of the execution. Where the parent's depth is no number, it
counts as a top-level one. -/
def _compute_nesting_depth (site : Site) (parent_execution_id : Nat) : Int :=
  match site.execution_params parent_execution_id with
  | none => 1
  | some trigger_params =>
    match int_of? ((Dict.get? trigger_params "__nesting_depth__").getD (.int 0)) with
    | some parent_depth => parent_depth + 1
    | none => 1

/-- The child's trigger params. -/
def child_params (cfg : RenderedNodeConfig) (trigger_params : Dict String Json)
    (current_depth : Int) : Dict String Json :=
  let trigger_params :=
    Dict.setdefault trigger_params "__parent_execution_id__" (.int cfg.execution_id)
  let trigger_params := Dict.setdefault trigger_params "__parent_node_key__" (.str cfg.node_key)
  let trigger_params :=
    Dict.setdefault trigger_params "__parent_dispatch_id__" (.str cfg.dispatch_id)
  Dict.set trigger_params "__nesting_depth__" (.int current_depth)

/-- `dispatch` up to its call of `trigger_workflow`: the answer without it, or the call. -/
def plan (site : Site) (py : Reprs) (cfg : RenderedNodeConfig) :
    Except Exn (UnitOutput ⊕ ChildCall) := do
  let sub_id := getJson cfg.params "sub_workflow_id"
  if is_absent sub_id then pure (.inl (failed "E0601: sub_workflow_id not specified"))
  else match ← site.workflow sub_id with
  | none => pure (.inl (failed s!"E0602: Sub-workflow id={py.str sub_id} not found"))
  | some sub_wf =>
    match sub_wf.dag_published_version with
    | none => pure (.inl (failed s!"E0602: Sub-workflow id={py.str sub_id} not published"))
    | some ver =>
      match site.existing_sub_execution cfg.dispatch_id with
      | some existing_sub_exec_id =>
        pure (.inl {
          status := .RUNNING
          adapter_state := some [("sub_execution_id", .int existing_sub_exec_id)]
          output := [("sub_workflow_id", sub_id), ("sub_execution_id",
            .int existing_sub_exec_id)] })
      | none =>
        let current_depth := _compute_nesting_depth site cfg.execution_id
        if current_depth > MAX_NESTING_DEPTH then
          pure (.inl (failed (s!"E0410: Sub-workflow nesting depth limit exceeded(max {MAX_NESTING_DEPTH}, " ++
            s!"current {current_depth})")))
        else match orElse (getJson cfg.params "trigger_params") (.obj []) with
        | .obj trigger_params =>
          pure (.inr {
            ver
            trigger_params := child_params cfg trigger_params current_depth
            user_id := cfg.user_id
            fail_strategy := match getJson cfg.params "fail_strategy" with
              | .str s => if s = "" then none else some s
              | _ => none })
        | v => pure (.inl (failed
            s!"E0603: Trigger sub-workflow failed: '{type_name v}' object has no attribute 'setdefault'"))

/-- `dispatch`, with `trigger_workflow` as it is called from here. -/
def dispatch (site : Site) (py : Reprs) (env : Env)
    (trigger_workflow : RenderedNodeConfig → ChildCall → Except Exn TriggerResult)
    (cfg : RenderedNodeConfig) :
    Except Exn UnitOutput := do
  match ← plan site py cfg with
  | .inl uo => pure uo
  | .inr call =>
    match trigger_workflow cfg call with
    | .error e => pure (failed s!"E0603: Trigger sub-workflow failed: {e.text}")
    | .ok result =>
      pure {
        status := .RUNNING
        adapter_state := some [("sub_execution_id", .int result.execution_id)]
        output := [("sub_workflow_id", getJson cfg.params "sub_workflow_id"),
          ("sub_execution_id", .int result.execution_id),
          ("initial_runnables", .arr (result.initial_runnables.map .str)),
          ("triggered_at", .str (env.isoformat env.now))] }

end SubWorkflowAdapter

/-- The adapter of sub-workflow nodes, as a call of the runner finds it. Its polls and cancels
depend on the child's execution, and answer as those of `others`. -/
def SubWorkflowAdapter (py : Reprs) (env : Env) (others : Adapter)
    (dispatch : RenderedNodeConfig → Except Exn UnitOutput) :
    Adapter where
  node_type := "sub_workflow"
  requires_host := false
  construct := .ok ()
  validate_and_render := fun params context => do
    let vr ← SubWorkflowAdapter.validate_config params
    if vr.ok then
      let rendered ← env.render_structure context params
      pure { params := some rendered }
    else
      let errors := vr.errors.map fun (ptr, msgs) => (ptr, Json.arr (msgs.map .str))
      .error (.ValueError s!"sub_workflow validation failed: {py.repr (.obj errors)}")
  validate_config := SubWorkflowAdapter.validate_config
  dispatch := dispatch
  poll := others.poll
  cancel := others.cancel

/-- The database as an execution with the primary key `pk` finds it: its own row is there. -/
def Site.within (site : Site) (pk : Nat) (trigger_params : Dict String Json) : Site :=
  { site with execution_params := fun id => if id = pk then some trigger_params else site.execution_params id }

/-- The adapters with that of sub-workflow nodes. The runner calls it with the primary key
of its own execution. -/
def with_sub_workflows (site : Site) (py : Reprs) (env : Env) (pk : Nat)
    (trigger_params : Dict String Json)
    (trigger_workflow : RenderedNodeConfig → ChildCall → Except Exn TriggerResult) : Env :=
  { env with
    get_class := fun node_type =>
      if node_type = "sub_workflow" then
        (env.get_class node_type).map fun others => SubWorkflowAdapter py env others fun cfg =>
          SubWorkflowAdapter.dispatch (site.within pk trigger_params) py env trigger_workflow { cfg with execution_id := pk }
      else env.get_class node_type }

/-- What lies outside the runner during a call on the execution `pk`: a sub-workflow node triggers
a child execution, whose own sub-workflow nodes trigger theirs, `levels` deep; a trigger beyond
them answers `beyond`. -/
def nested (site : Site) (py : Reprs) (beyond : Except Exn TriggerResult) :
    Nat → Env → Nat → Dict String Json → Env
  | 0, env, pk, trigger_params => with_sub_workflows site py env pk trigger_params fun _ _ => beyond
  | levels + 1, env, pk, trigger_params =>
    with_sub_workflows site py env pk trigger_params fun cfg call =>
      let sub_exec_id := site.new_execution cfg
      (trigger_workflow (nested site py beyond levels env sub_exec_id call.trigger_params) call.ver sub_exec_id
        call.trigger_params "sub_workflow" (some call.user_id) call.fail_strategy .initial).1

end taurus.units
