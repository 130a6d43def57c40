import Mathlib.Data.Rat.Floor
import Taurus.Engine.Executor.Hosts
import Taurus.Engine.Registry
import Taurus.Engine.Runner.World
import Taurus.Python.Float

namespace taurus.engine.runner

open taurus.lib taurus.python taurus.engine.executor taurus.engine.registry

/-- `int(v)`; none is a ValueError or a TypeError. -/
def int_of? : Json → Option Int
  | .bool b => some (if b then 1 else 0)
  | .int n => some n
  | .float q => some (if 0 ≤ q then q.floor else q.ceil)
  | .str s => int? s.toList
  | _ => none

/-- `v or other` -/
def orElse (v other : Json) : Json := if v.truthy then v else other

/-- `v` if it is a text that is not empty. -/
def named? (d : Dict String Json) (k : String) : Option Json :=
  match getJson d k with
  | .str s => if s = "" then none else some (.str s)
  | _ => none

section

variable (py : Reprs) (registry : UnitAdapterRegistry) (id : String)

/-- Field 1: the `id` of a drawn node, else the identity of the dict, stands in for a
missing key. -/
def ensure_node_key (node : Dict String Json) : Dict String Json :=
  if (getJson node "node_key").truthy then node
  else Dict.set node "node_key" (.str (py.str (orElse (getJson node "id") (.str ("node_" ++ id)))))

/-- Field 2: the type may stand at other places, and is `noop` without any. -/
def ensure_node_type (node : Dict String Json) : Dict String Json :=
  if (getJson node "node_type").truthy then node
  else
    let nt := orElse (getJson node "type") (orElse (getJson (config node) "nodeType")
      (orElse (getJson (sub_dict node "data") "nodeType") (.str "noop")))
    Dict.set node "node_type" (.str (py.str nt))

/-- Field 3: whether a host is required is asked of the adapter class, unless the node says it. -/
def ensure_requires_host (node : Dict String Json) : Dict String Json :=
  if Dict.contains node "requires_host" then node
  else
    match get_class py registry._adapters (py.str (getJson node "node_type")) with
    | .ok cls => Dict.set node "requires_host" (.bool cls.requires_host)
    | .error _ => Dict.set node "requires_host" (.bool true)

/-- Field 4.1: the name, else the key. -/
def ensure_node_name (node : Dict String Json) : Dict String Json :=
  if (getJson node "node_name").truthy then node
  else
    let raw_name := (["node_name", "title", "name", "label"].findSome? (named? node)).or
      ((named? (config node) "node_name").or (named? (sub_dict node "data") "label"))
    Dict.set node "node_name" (.str (py.str (raw_name.getD (getJson node "node_key"))))

end

/-- A list that is not empty. -/
def some_list? : Json → Option (List Json)
  | .arr (x :: xs) => some (x :: xs)
  | _ => none

/-- The first non-empty host list of a dict, and its single hosts. -/
def merged_from (d : Dict String Json) : List Json :=
  ((["target_hosts", "hosts", "host_ids"].findSome? fun k => some_list? (getJson d k)).getD []) ++
    ["host_id", "host"].filterMap (present? d)

/-- The hosts of all places, not normalized yet. -/
def merged_hosts (node : Dict String Json) : List Json :=
  merged_from node ++ (nested node).flatMap merged_from

/-- The host ids a node gets: its own if there are any, else those of all places. -/
def new_host_ids (node : Dict String Json) : Json :=
  if list_hosts (getJson node "host_ids") ≠ [] then .arr (list_hosts (getJson node "host_ids"))
  else if merged_hosts node ≠ [] then .arr (_coerce_host_list (merged_hosts node))
  else getJson node "host_ids"

/-- Field 4.2: the host ids; a node that has some requires a host. -/
def ensure_host_ids (node : Dict String Json) : Dict String Json :=
  let node :=
    if list_hosts (getJson node "host_ids") ≠ [] ∨ merged_hosts node ≠ [] then
      Dict.set node "host_ids" (new_host_ids node)
    else node
  if (some_list? (getJson node "host_ids")).isSome then
    Dict.set node "requires_host" (.bool true)
  else node

/-- `node.get(k)` gives way to a nested one: it is missing, or a text that is no number. -/
def gives_way (coerce : Bool) (v : Json) : Bool :=
  missing v || (coerce && match v with
    | .str s => !s.toList.all isdigit
    | _ => false)

/-- Field 4.3: lift a control field from `data.config`, `data` or `params`. -/
def promote (k : String) (coerce : Bool) (node : Dict String Json) : Dict String Json :=
  if !gives_way coerce (getJson node k) then node
  else
    match (nested node).findSome? fun d => present? d k with
    | none => node
    | some found =>
      if coerce then
        match int_of? found with
        | some n => Dict.set node k (.int n)
        | none => node
      else Dict.set node k found

/-- Normalize a drawn node to the fields of the engine. -/
def _ensure_node_engine_fields (py : Reprs) (registry : UnitAdapterRegistry) (id : String)
    (node : Dict String Json) :
    Dict String Json :=
  let node := ensure_node_key py id node
  let node := ensure_node_type py node
  let node := ensure_requires_host py registry node
  let node := ensure_node_name py node
  let node := ensure_host_ids node
  let node := promote "fail_strategy" false node
  let node := promote "max_retries" true node
  promote "retry_delay_ms" true node

section

variable {py : Reprs} {registry : UnitAdapterRegistry} {id k : String}
  {node node' : Dict String Json}

/-- What a step does to a field it is not about. -/
def Leaves (k : String) (node node' : Dict String Json) : Prop :=
  Dict.get? node' k = Dict.get? node k

/-- Setting a field leaves the others. -/
theorem leaves_set {k₂ : String} {v : Json} (hne : k₂ ≠ k) :
    Leaves k node (Dict.set node k₂ v) := by
  rw [Leaves, Dict.get?_set_ne _ _ hne]

theorem Leaves.next {node'' : Dict String Json} (h : Leaves k node node')
    (h' : Leaves k node' node'') : Leaves k node node'' :=
  Eq.trans h' h

theorem Leaves.getJson (h : Leaves k node node') : getJson node' k = getJson node k := by
  rw [python.getJson, h]
  rfl

/-- Each of the steps leaves the fields that it does not set. -/
theorem leaves_ensure_node_key (hk : "node_key" ≠ k) :
    Leaves k node (ensure_node_key py id node) := by
  unfold ensure_node_key
  split
  · rfl
  · exact leaves_set hk

theorem leaves_ensure_node_type (hk : "node_type" ≠ k) :
    Leaves k node (ensure_node_type py node) := by
  unfold ensure_node_type
  split
  · rfl
  · exact leaves_set hk

theorem leaves_ensure_requires_host (hk : "requires_host" ≠ k) :
    Leaves k node (ensure_requires_host py registry node) := by
  unfold ensure_requires_host
  split
  · rfl
  · split
    · exact leaves_set hk
    · exact leaves_set hk

theorem leaves_ensure_node_name (hk : "node_name" ≠ k) :
    Leaves k node (ensure_node_name py node) := by
  unfold ensure_node_name
  split
  · rfl
  · exact leaves_set hk

theorem leaves_ensure_host_ids (hids : "host_ids" ≠ k) (hrequires : "requires_host" ≠ k) :
    Leaves k node (ensure_host_ids node) := by
  have hrequire : ∀ n : Dict String Json,
      Leaves k n (if (some_list?
      (python.getJson n "host_ids")).isSome then Dict.set n "requires_host"
      (.bool true) else n) := by
    intro n
    split
    · exact leaves_set hrequires
    · rfl
  unfold ensure_host_ids
  dsimp only
  split
  · exact (hrequire _).trans (leaves_set hids)
  · exact hrequire node

/-- A promotion sets its field or nothing. -/
theorem promote_cases (k : String) (coerce : Bool) (node : Dict String Json) :
    promote k coerce node = node ∨ ∃ v, promote k coerce node = Dict.set node k v := by
  unfold promote
  split
  · exact .inl rfl
  · split
    · exact .inl rfl
    · split
      · split
        · exact .inr ⟨_, rfl⟩
        · exact .inl rfl
      · exact .inr ⟨_, rfl⟩

theorem leaves_promote (node : Dict String Json) (k₂ : String) (coerce : Bool) (hne : k₂ ≠ k) :
    Leaves k node (promote k₂ coerce node) := by
  obtain heq | ⟨v, heq⟩ := promote_cases k₂ coerce node
  · rw [heq]
    rfl
  · rw [heq]
    exact leaves_set hne

/-- The type stays as the second step has made it. -/
theorem leaves_ensure_engine_fields (py : Reprs) (registry : UnitAdapterRegistry) (id : String)
    (node : Dict String Json) :
    Leaves "node_type" (ensure_node_type py (ensure_node_key py id node))
      (_ensure_node_engine_fields py registry id node) := by
  have hname : Leaves "node_type" (ensure_node_type py (ensure_node_key py id node))
      (ensure_node_name py (ensure_requires_host py registry
      (ensure_node_type py (ensure_node_key py id node)))) :=
    (leaves_ensure_requires_host (by decide)).next (leaves_ensure_node_name (by decide))
  have hids := hname.next (leaves_ensure_host_ids (by decide) (by decide))
  have hstrategy := hids.next (leaves_promote _ "fail_strategy" false (by decide))
  have hretries := hstrategy.next (leaves_promote _ "max_retries" true (by decide))
  exact hretries.next (leaves_promote _ "retry_delay_ms" true (by decide))

end

/-- The first timeout that is a number, none below zero. -/
def extract_node_timeout_sec (node : Dict String Json) : Nat :=
  let candidates := [node, config node, sub_dict node "data"].flatMap fun d =>
    ["timeout_sec", "timeout_seconds", "timeout"].filterMap (present? d)
  ((candidates.findSome? int_of?).getD 0).toNat

/-- A value that is True or False. -/
def flag? : Json → Option Bool
  | .bool b => some b
  | _ => none

theorem flag?_eq_some_iff {v : Json} {b : Bool} : flag? v = some b ↔ v = .bool b := by
  cases v <;> simp [flag?]

/-- A normalized node as the preparation of rows reads it. -/
def read_node (py : Reprs) (node : Dict String Json) : Node where
  node_key := py.str (getJson node "node_key")
  node_type := py.str (orElse (getJson node "node_type") (.str "noop"))
  node_name := py.str (orElse (getJson node "node_name") (getJson node "node_key"))
  requires_host := flag? (getJson node "requires_host")
  host_ids := (_extract_host_ids_from_node node).map py.str
  fail_strategy := if (getJson node "fail_strategy").truthy then some
    (py.str (getJson node "fail_strategy")) else none
  timeout_sec := extract_node_timeout_sec node

/-- The rows of a drawn node, which is normalized when it is loaded and again here. -/
def drawn_rows (py : Reprs) (registry : UnitAdapterRegistry) (id : String) (env : Env)
    (execution : Execution) (node : Dict String Json) (user_id : Option Int) (attempt_no : Nat) :
    List NodeExec :=
  let node := _ensure_node_engine_fields py registry id node
  _prep_node_rows env execution
    (read_node py (_ensure_node_engine_fields py registry id node)) user_id attempt_no

end taurus.engine.runner
