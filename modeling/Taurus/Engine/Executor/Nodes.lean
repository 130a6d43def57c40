import Mathlib.Data.List.Nodup
import Taurus.Engine.Executor.Condition

namespace taurus.engine.executor

open taurus.lib taurus.python

/-- A node of a DAG definition after `_ensure_node_engine_fields`. `requires_host`
is none for a value that is neither True nor False; `host_ids` are the texts of
the host ids found on the node. -/
structure Node where
  node_key : String
  node_type : String
  node_name : String := ""
  requires_host : Option Bool := some false
  host_ids : List String := []
  fail_strategy : Option String := none
  max_retries : Int := 0
  retry_delay_ms : Int := 0
  timeout_sec : Nat := 0
  condition : String := ""
  params : Dict String Json := []
  deriving Inhabited

/-- An edge after `normalize_edges`. -/
structure Edge where
  from_key : String
  to_key : String
  condition : String := ""
  deriving DecidableEq, Repr, Inhabited

/-- A DAG definition: its node keys are distinct and its edges lead from node to
node, as publishing demands. -/
structure Dag where
  nodes : List Node
  edges : List Edge
  keys_nodup : (nodes.map (·.node_key)).Nodup
  edges_closed : ∀ e ∈ edges,
    e.from_key ∈ nodes.map (·.node_key) ∧ e.to_key ∈ nodes.map (·.node_key)

def Dag.keys (dag : Dag) : List String := dag.nodes.map (·.node_key)

/-- `key_to_node.get(key)` -/
def Dag.node? (dag : Dag) (key : String) : Option Node :=
  dag.nodes.find? (·.node_key = key)

/-- The keys of a DAG are different, so a node is found under its key. -/
theorem Dag.node?_eq_some_iff (dag : Dag) {key : String} {n : Node} :
    dag.node? key = some n ↔ n ∈ dag.nodes ∧ n.node_key = key := by
  unfold Dag.node?
  constructor
  · intro h
    exact ⟨List.mem_of_find?_eq_some h, by simpa using List.find?_some h⟩
  · rintro ⟨hn, rfl⟩
    cases hf : dag.nodes.find? (fun m => decide (m.node_key = n.node_key)) with
    | none => exact absurd (List.find?_eq_none.mp hf n hn) (by simp)
    | some m =>
      have hm := List.mem_of_find?_eq_some hf
      have hk : m.node_key = n.node_key := by simpa using List.find?_some hf
      rw [List.inj_on_of_nodup_map dag.keys_nodup hm hn hk]

/-- The hosts a node runs on. -/
def expand_hosts (node : Node) (workflow_hosts : List String := []) : List String :=
  if node.requires_host = some false then [NO_HOST_SENTINEL]
  else
    let cleaned := node.host_ids.filter fun h => !(strip h.toList).isEmpty
    if cleaned ≠ [] then cleaned
    else
      let cleaned := workflow_hosts.filter fun h => !(strip h.toList).isEmpty
      if cleaned ≠ [] then cleaned
      else if node.requires_host = some true then []
      else [NO_HOST_SENTINEL]

/-- Structural keys that must not reach an adapter inside its params. -/
def dirty_keys : List String :=
  ["nodeType", "node_type", "node_key", "node_name", "host_ids", "target_hosts", "timeout_sec",
    "timeout", "timeout_seconds", "fail_strategy", "max_retries", "retry_delay_ms", "condition",
    "node_label", "label", "id", "position", "data"]

/-- Rendered params with the metadata `render_node_config` attaches to them. -/
structure RenderedNodeParams where
  params : Dict String Json
  secrets_mask : List String
  timeout_sec : Nat
  max_retries : Int
  retry_delay_ms : Int
  fail_strategy : String
  condition : String
  node_key : String
  node_type : String
  node_name : String
  host_id : String
  attempt_no : Nat

/-- A node strategy of `fail_fast` counts as not set when the fallback differs. -/
def resolve_node_fail_strategy (node_fs : Option String) (fallback : String) : String :=
  let node_fs :=
    if node_fs = some "fail_fast" ∧ fallback ≠ "" ∧ fallback ≠ "fail_fast" then none else node_fs
  match node_fs with
  | some fs => if fs ≠ "" then fs else if fallback ≠ "" then fallback else "fail_fast"
  | none => if fallback ≠ "" then fallback else "fail_fast"

/-- Interpolate the params of a node once, then let the adapter check and render them. -/
def render_node_config (env : Env) (adapter : Adapter) (node : Node) (ctx : WorkflowContext)
    (host_id : String) (attempt_no : Nat) (fallback_fail_strategy : String) :
    Except Exn RenderedNodeParams := do
  let raw_params := node.params.filter fun kv => !dirty_keys.contains kv.1
  let rendered_params ← env.render_structure ctx raw_params
  let final_params ← adapter.validate_and_render rendered_params ctx
  if final_params.is_none then
    .error (.ValueError "E1000: adapter.validate_and_render returned None")
  else match final_params.params with
  | none =>
    .error (.ValueError ("E1002: adapter.validate_and_render must return dict, actual returned "
      ++ final_params.type_name))
  | some params =>
    let secrets_mask := final_params.masked_paths.foldl (fun mask p =>
      match p with
      | .str s => if s.startsWith "/" && !mask.contains s then mask ++ [s] else mask
      | _ => mask) ([] : List String)
    .ok { params, secrets_mask,
          timeout_sec := node.timeout_sec,
          max_retries := node.max_retries,
          retry_delay_ms := node.retry_delay_ms,
          fail_strategy := resolve_node_fail_strategy node.fail_strategy fallback_fail_strategy,
          condition := node.condition,
          node_key := node.node_key,
          node_type := node.node_type,
          node_name := if node.node_name ≠ "" then node.node_name else node.node_key,
          host_id, attempt_no }

/-- The statuses a row may move to. -/
def VALID_TRANSITIONS : Status → List Status
  | .PENDING => [.RUNNING, .SKIPPED, .CANCELLED]
  | .RUNNING => [.SUCCESS, .FAILED, .CANCELLED, .RUNNING]
  | .SUCCESS | .FAILED | .SKIPPED | .CANCELLED => []

/-- Check a move and return its target. -/
def transition_status (current target : Status) : Except String Status :=
  if target ∈ VALID_TRANSITIONS current then .ok target
  else .error "E1202: invalid status transition"

end taurus.engine.executor
