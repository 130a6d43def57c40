import Taurus.Engine.Executor.Hosts
import Taurus.Engine.Registry
import Taurus.Lib.Digraph
import Taurus.Lib.Program

namespace taurus.engine.dag_validator

open taurus.lib taurus.lib.digraph taurus.python taurus.engine.executor taurus.engine.registry

structure WorkflowDAG where
  nodes : List (Dict String Json)
  edges : List (Dict String Json)

structure DAGValidationResult where
  ok : Bool := true
  errors : Dict String (List String) := []
  warnings : Dict String (List String) := []
  topological_order : List String := []
  deriving DecidableEq

namespace DAGValidationResult

/-- `d.setdefault(ptr, []).append(message)` -/
def append (d : Dict String (List String)) (ptr message : String) : Dict String (List String) :=
  Dict.set d ptr ((Dict.get? d ptr).getD [] ++ [message])

def add_error (r : DAGValidationResult) (ptr message : String) : DAGValidationResult :=
  { r with ok := false, errors := append r.errors ptr message }

def add_warning (r : DAGValidationResult) (ptr message : String) : DAGValidationResult :=
  { r with warnings := append r.warnings ptr message }

end DAGValidationResult

def _UNSAFE_TOKENS : List String :=
  ["__import__", "eval(", "exec(", "compile(", "open(", "subprocess", "os.system",
    "os.popen", "globals()", "locals()", "getattr(", "setattr(", "delattr(", "importlib",
    "__builtins__", "lambda:", "pickle", "marshal"]

/-- `n.get("node_type") == t` -/
def is_type (n : Dict String Json) (t : String) : Bool := isText (getJson n "node_type") t

/-- The elements with their places that satisfy `p`. -/
def places {α : Type} (p : α → Bool) (xs : List α) : List Nat :=
  (xs.zipIdx.filter fun x => p x.1).map (·.2)

/-- `nodes[i]["node_key"]` of the only place, else None. -/
def terminal_key (nodes : List (Dict String Json)) : List Nat → Except Exn Json
  | [i] =>
    match Dict.get? (nodes.getD i []) "node_key" with
    | some k => .ok k
    | none => .error (.other "KeyError" "'node_key'")
  | _ => .ok .null

/-- V-01: there is one start node. -/
def check_starts (py : Reprs) (starts : List Nat) (r : DAGValidationResult) : DAGValidationResult :=
  if starts.length = 0 then r.add_error "/nodes" "V-01: Missing start node (node_type='start')"
  else if starts.length > 1 then
    r.add_error "/nodes" ("V-01: Only one start node allowed, currently " ++
      toString starts.length ++
      " (indices=" ++ py.repr (.arr (starts.map fun i : Nat => Json.int i)) ++ ")")
  else r

/-- V-01: there is an end node. -/
def check_ends (ends : List Nat) (r : DAGValidationResult) : DAGValidationResult :=
  if ends.length = 0 then r.add_error "/nodes" "V-01: Missing end node (node_type='end')" else r

/-- V-02 for one node, and its place among the keys. -/
def check_key (s : DAGValidationResult × Dict String Nat) (n : Dict String Json × Nat) :
    DAGValidationResult × Dict String Nat :=
  let ptr := "/nodes/" ++ toString n.2 ++ "/node_key"
  match getJson n.1 "node_key" with
  | .str k =>
    if k = "" then (s.1.add_error ptr "V-02: node_key must be a non-empty string", s.2)
    else
      match Dict.get? s.2 k with
      | some first =>
        (s.1.add_error ptr ("V-02: node_key='" ++ k ++ "' is duplicated (conflicts with /nodes/" ++
          toString first ++ ")"), s.2)
      | none => (s.1, Dict.set s.2 k n.2)
  | _ => (s.1.add_error ptr "V-02: node_key must be a non-empty string", s.2)

def _repr_key (py : Reprs) : Json → String
  | .null => "<null>"
  | .str s => if s = "" then "<empty string>" else py.repr (.str s)
  | k => py.repr k

/-- `d.get(k)` on a dict with text keys; a value without a hash is a TypeError. -/
def lookup {β : Type} (d : Dict String β) (k : Json) : Except Exn (Option β) :=
  match unhashable k with
  | some message => .error (.other "TypeError" message)
  | none =>
    match k with
    | .str s => .ok (Dict.get? d s)
    | _ => .ok none

/-- V-03 for one edge, and V-04 for a link from a node to itself. -/
def check_edge (py : Reprs) (key_to_idx : Dict String Nat) (r : DAGValidationResult)
    (e : Dict String Json × Nat) :
    Except Exn DAGValidationResult := do
  let fk := getJson e.1 "from_key"
  let tk := getJson e.1 "to_key"
  let ptr := "/edges/" ++ toString e.2
  let source ← lookup key_to_idx fk
  let r :=
    if source.isNone then
      r.add_error (ptr ++ "/from_key")
        ("V-03: Source node " ++ _repr_key py fk ++ " does not exist in /nodes list")
    else r
  let target ← lookup key_to_idx tk
  let r :=
    if target.isNone then
      r.add_error (ptr ++ "/to_key")
        ("V-03: Target node " ++ _repr_key py tk ++ " does not exist in /nodes list")
    else r
  if source.isSome ∧ (fk.str?).any (isText tk) then
    pure (r.add_error ptr ("V-04: Node " ++ _repr_key py fk ++
      " has a self-loop, DAGs cannot have cycles"))
  else pure r

/-- The edges between nodes, one link for each. -/
def links (key_to_idx : Dict String Nat) (edges : List (Dict String Json)) :
    List (String × String) :=
  edges.filterMap fun e =>
    match getJson e "from_key", getJson e "to_key" with
    | .str fk, .str tk =>
      if Dict.contains key_to_idx fk ∧ Dict.contains key_to_idx tk then some (fk, tk) else none
    | _, _ => none

def out_degree (links : List (String × String)) (a : String) : Nat := links.countP (·.1 = a)

/-- `deg.get(k, 0)`, where None is not looked up. -/
def degree (deg : String → Nat) (k : Json) : Except Exn Nat :=
  match unhashable k with
  | some message => .error (.other "TypeError" message)
  | none =>
    match k with
    | .str s => .ok (deg s)
    | _ => .ok 0

/-- What the checks of the graph go by: the places of the node keys, the links between them
and the keys of the only start and the only end, else None. -/
structure View where
  key_to_idx : Dict String Nat
  links : List (String × String)
  start_key : Json
  end_key : Json

def View.keys (v : View) : List String := v.key_to_idx.map (·.1)

/-- The pointer to the node of a key. -/
def View.pointer (v : View) (k : Json) : String :=
  "/nodes/" ++ toString ((Dict.get? v.key_to_idx ((k.str?).getD "")).getD 0)

/-- V-06: nothing leads to the start node, and nothing leads on from the end node. -/
def check_terminal_edges (v : View) (r : DAGValidationResult) : Except Exn DAGValidationResult := do
  let into ← degree (in_degree v.links) v.start_key
  let r :=
    if into > 0 then
      r.add_error (v.pointer v.start_key)
        ("V-06: start node '" ++ (v.start_key.str?).getD "" ++ "' has " ++
        toString into ++ " incoming edges, not allowed")
    else r
  let out ← degree (out_degree v.links) v.end_key
  let r :=
    if out > 0 then
      r.add_error (v.pointer v.end_key)
        ("V-06: end node '" ++ (v.end_key.str?).getD "" ++ "' has " ++
        toString out ++ " outgoing edges, not allowed")
    else r
  pure r

/-- V-04: the topological order, or a node on the far side of a cycle. -/
def check_acyclic (v : View) (r : DAGValidationResult) : Except Exn DAGValidationResult :=
  if r.errors ≠ [] then .ok r
  else
    let s := kahn v.links v.keys
    if s.order.length ≠ v.keys.length then
      match v.keys.find? fun k => 0 < s.remaining k with
      | none => .error (.other "StopIteration" "")
      | some cycle_seed =>
        .ok (r.add_error "/edges"
          ("V-04: DAG detected directed cycle (example entry node '" ++ cycle_seed ++
          "'). Processed " ++ toString s.order.length ++ "/" ++ toString v.keys.length ++ " nodes"))
    else .ok { r with topological_order := s.order }

/-- A node without edges that is neither the start nor the end. -/
def truly_isolated (v : View) (k : String) : Bool :=
  in_degree v.links k = 0 ∧ out_degree v.links k = 0 ∧ !isText v.start_key k ∧ !isText v.end_key k

/-- V-05: an error for every node outside `closure` that is not spared. -/
def check_closure (key_to_idx : Dict String Nat) (spared : String → Bool) (closure : List String)
    (message : String → String) (r : DAGValidationResult) : DAGValidationResult :=
  key_to_idx.foldl (fun r kv =>
    if !spared kv.1 ∧ kv.1 ∉ closure then r.add_error ("/nodes/" ++ toString kv.2) (message kv.1)
      else r) r

def unreachable (k : String) : String :=
  "V-05: Node '" ++ k ++ "' is unreachable from start node (dead code)"

def dead_end (k : String) : String :=
  "V-05: Node '" ++ k ++ "' has no path reaching end (dead end, will cause execution hang)"

/-- What a depth-first search from `k` along the links visits. -/
def closure (links : List (String × String)) (k : String) : List String :=
  traverse (succ links) (links.length + 1) [k] []

/-- V-05: without errors so far the key of the start is a text or None. -/
def check_reachable (v : View) (r : DAGValidationResult) : DAGValidationResult :=
  match v.start_key with
  | .str start =>
    if r.errors = [] then
      check_closure v.key_to_idx (truly_isolated v) (closure v.links start) unreachable r
    else r
  | _ => r

/-- V-05 backwards from the end, when there is one end. -/
def check_coreachable (v : View) (r : DAGValidationResult) : DAGValidationResult :=
  match v.start_key, v.end_key with
  | .str _, .str last =>
    if r.errors = [] then
      check_closure v.key_to_idx
        (fun k => truly_isolated v k || k == last) (closure (v.links.map Prod.swap) last)
        dead_end r
    else r
  | _, _ => r

/-- The message of V-07 for a node, if its type is not registered. -/
def type_message (py : Reprs) (registered : List String) (n : Dict String Json) :
    Except Exn (Option String) :=
  let nt := getJson n "node_type"
  match unhashable nt with
  | some message => .error (.other "TypeError" message)
  | none =>
    if (nt.str?).any fun s => s ∈ ["start", "end"] ∨ s ∈ registered then .ok none
    else
      let available := (("start" :: "end" :: registered).dedup).insertionSort (· ≤ ·)
      .ok (some ("V-07: node_type='" ++ py.str nt ++
        "' is not registered in the adapter registry. Available types: " ++
        printed py available))

/-- V-07 for one node. -/
def check_type (py : Reprs) (registered : List String) (r : DAGValidationResult)
    (n : Dict String Json × Nat) :
    Except Exn DAGValidationResult := do
  match ← type_message py registered n.1 with
  | some message => pure (r.add_error ("/nodes/" ++ toString n.2 ++ "/node_type") message)
  | none => pure r

/-- The depth of the parentheses at the end, or where it first goes below zero. -/
def paren_depth : Int → List Char → Int
  | depth, [] => depth
  | depth, ch :: rest =>
    if ch = '(' then paren_depth (depth + 1) rest
    else if ch = ')' then (if depth - 1 < 0 then depth - 1 else paren_depth (depth - 1) rest)
    else paren_depth depth rest

/-- The first dangerous keyword of a condition without its spaces. -/
def unsafe_token? (cond : String) : Option String :=
  let lowered := cond.toList.filter (· ≠ ' ')
  _UNSAFE_TOKENS.find? fun token => isInfix (token.toList.filter (· ≠ ' ')) lowered

/-- What iterating or stripping a condition that is no text raises. -/
def not_text : Json → Exn
  | .arr _ => .other "AttributeError" "'list' object has no attribute 'replace'"
  | .obj _ => .other "AttributeError" "'dict' object has no attribute 'replace'"
  | .bool _ => .other "TypeError" "'bool' object is not iterable"
  | .int _ => .other "TypeError" "'int' object is not iterable"
  | _ => .other "TypeError" "'float' object is not iterable"

/-- V-08 for one edge: balanced parentheses and no dangerous keyword. -/
def check_condition (r : DAGValidationResult) (e : Dict String Json × Nat) :
    Except Exn DAGValidationResult :=
  let ptr := "/edges/" ++ toString e.2 ++ "/condition"
  match getJson e.1 "condition" with
  | .null => pure r
  | .str cond =>
    if cond = "" then pure r
    else
      let r :=
        if paren_depth 0 cond.toList ≠ 0 then
          r.add_error ptr "V-08: Condition expression has unbalanced parentheses (missing matching '(' or ')')"
        else r
      match unsafe_token? cond with
      | some token =>
        pure (r.add_error ptr ("V-08: Condition expression contains forbidden dangerous keyword '" ++ token ++ "'"))
      | none => pure r
  | v => .error (not_text v)

/-- Whether a node requires a host; None if that cannot be told. -/
def _resolve_requires_host_for_validator (py : Reprs) (registry : UnitAdapterRegistry)
    (node : Dict String Json) (strict : Bool) : Option Bool :=
  match getJson node "requires_host" with
  | .bool explicit => some explicit
  | _ =>
    if _extract_host_ids_from_node node ≠ [] then some true
    else if !strict then none
    else
      match getJson node "node_type" with
      | .str nt =>
        if nt = "start" ∨ nt = "end" then none
        else
          match get_class py registry._adapters nt with
          | .ok cls => some cls.requires_host
          | .error _ => none
      | _ => none

/-- A text or an integer that is not blank; a bool is an integer. -/
def is_host_id : Json → Bool
  | .str s => !(strip s.toList).isEmpty
  | .int _ | .bool _ => true
  | _ => false

/-- `nt or n.get("node_key") or f"#{i}"` -/
def display (py : Reprs) (node : Dict String Json) (i : Nat) : String :=
  let nt := getJson node "node_type"
  let node_key := getJson node "node_key"
  if nt.truthy then py.str nt else if node_key.truthy then py.str node_key else "#" ++ toString i

/-- The message of V-09 for the `i`-th node, if it requires a host and has none. -/
def host_message (py : Reprs) (registry : UnitAdapterRegistry) (node : Dict String Json) (i : Nat) :
    Option String :=
  let nt := getJson node "node_type"
  if isText nt "start" || isText nt "end" then none
  else if _resolve_requires_host_for_validator py registry node true ≠ some true then none
  else if ((_extract_host_ids_from_node node).filter is_host_id) ≠ [] then none
  else
    some ("V-09: Node '" ++ display py node i ++ "' (node_type=" ++ py.repr nt ++
      ", requires_host=True) " ++
      "has no target hosts configured. Please specify at least one valid host ID in " ++
      "data.config.target_hosts / host_ids / data.host_ids / params.host_ids.")

/-- V-09 for one node. -/
def check_hosts (py : Reprs) (registry : UnitAdapterRegistry) (r : DAGValidationResult)
    (n : Dict String Json × Nat) :
    DAGValidationResult :=
  match host_message py registry n.1 n.2 with
  | some message => r.add_error ("/nodes/" ++ toString n.2) message
  | none => r

/-- V-10 for one node: a warning if it lacks edges on a side. -/
def warn_isolated (v : View) (r : DAGValidationResult) (kv : String × Nat) : DAGValidationResult :=
  let k := kv.1
  if k = "start" ∨ k = "end" ∨ isText v.start_key k ∨ isText v.end_key k then r
  else if in_degree v.links k = 0 ∨ out_degree v.links k = 0 then
    let reason := (if in_degree v.links k = 0 then ["no incoming edge"] else []) ++
      (if out_degree v.links k = 0 then ["no outgoing edge"] else [])
    r.add_warning ("/nodes/" ++ toString kv.2)
      ("V-10: Node '" ++ k ++ "' is isolated (" ++ String.intercalate "/" reason ++
      "), may be leftover draft node")
  else r

/-- Checks 1 to 4: the terminals, the keys and the edges. -/
def check_structure (py : Reprs) (dag : WorkflowDAG) : Except Exn (View × DAGValidationResult) := do
  let starts := places (is_type · "start") dag.nodes
  let ends := places (is_type · "end") dag.nodes
  let r := check_ends ends (check_starts py starts {})
  let start_key ← terminal_key dag.nodes starts
  let end_key ← terminal_key dag.nodes ends
  let (r, key_to_idx) := dag.nodes.zipIdx.foldl check_key (r, [])
  let r ← dag.edges.zipIdx.foldlM (check_edge py key_to_idx) r
  let v := { key_to_idx, links := links key_to_idx dag.edges, start_key, end_key }
  let r ← check_terminal_edges v r
  pure (v, r)

/-- V-07 for all nodes. -/
def check_types (py : Reprs) (registry : UnitAdapterRegistry) (dag : WorkflowDAG) (strict : Bool)
    (r : DAGValidationResult) : Except Exn DAGValidationResult :=
  if strict then
    dag.nodes.zipIdx.foldlM (check_type py (list_all_adapter_types registry._adapters)) r
  else .ok r

/-- Checks 7 to 9: the node types, the conditions and the hosts. -/
def check_contents (py : Reprs) (registry : UnitAdapterRegistry) (dag : WorkflowDAG) (strict : Bool)
    (r : DAGValidationResult) : Except Exn DAGValidationResult := do
  let r ← check_types py registry dag strict r
  let r ← dag.edges.zipIdx.foldlM check_condition r
  pure (if strict then dag.nodes.zipIdx.foldl (check_hosts py registry) r else r)

/-- Validate a DAG; `strict` looks at the node types and hosts too. -/
def validate_dag (py : Reprs) (registry : UnitAdapterRegistry) (dag : WorkflowDAG)
    (strict : Bool := true) :
    Except Exn DAGValidationResult := do
  let (v, r) ← check_structure py dag
  let r ← check_acyclic v r
  let r := check_coreachable v (check_reachable v r)
  let r ← check_contents py registry dag strict r
  pure (v.key_to_idx.foldl (warn_isolated v) r)

variable {r r' r'' : DAGValidationResult} {ms ms' : List String}

/-- All error messages. -/
def messages (r : DAGValidationResult) : List String := r.errors.flatMap (·.2)

/-- A message with this code was reported. -/
def Reports (r : DAGValidationResult) (code : String) : Prop :=
  ∃ m ∈ messages r, code.toList <+: m.toList

/-- `ok` tells whether there are errors, and no pointer is without a message. -/
structure Kept (r : DAGValidationResult) : Prop where
  ok_iff : r.ok = true ↔ r.errors = []
  filled : ∀ kv ∈ r.errors, kv.2 ≠ []

/-- A result has no errors when it has no messages. -/
theorem Kept.errors_eq_nil_iff (h : Kept r) : r.errors = [] ↔ messages r = [] := by
  rw [messages, List.flatMap_eq_nil_iff]
  constructor
  · intro hnil
    simp [hnil]
  · intro hall
    by_contra hne
    obtain ⟨kv, hkv⟩ := List.exists_mem_of_ne_nil _ hne
    exact h.filled kv hkv (hall kv hkv)

/-- It is ok exactly then. -/
theorem Kept.ok_iff_messages (h : Kept r) : r.ok = true ↔ messages r = [] := by
  rw [h.ok_iff, h.errors_eq_nil_iff]

/-- From `r` to `r'` exactly the messages `ms` were added, and no order was found. -/
structure Adds (r r' : DAGValidationResult) (ms : List String) : Prop where
  messages : ∀ m, m ∈ messages r' ↔ m ∈ messages r ∨ m ∈ ms
  order : r'.topological_order = r.topological_order
  kept : Kept r → Kept r'

theorem Adds.refl (r : DAGValidationResult) : Adds r r [] := ⟨by simp, rfl, id⟩

/-- What two checks add, together. -/
theorem Adds.trans (h : Adds r r' ms) (h' : Adds r' r'' ms') : Adds r r'' (ms ++ ms') := by
  refine ⟨fun m => ?_, h'.order.trans h.order, h'.kept ∘ h.kept⟩
  rw [h'.messages, h.messages, List.mem_append, or_assoc]

/-- The order of the messages does not matter. -/
theorem Adds.congr (h : Adds r r' ms) (hms : ∀ m, m ∈ ms ↔ m ∈ ms') : Adds r r' ms' :=
  ⟨fun m => by rw [h.messages, hms], h.order, h.kept⟩

theorem append_ne_nil (d : Dict String (List String)) (ptr message : String) :
    DAGValidationResult.append d ptr message ≠ [] := by
  intro hnil
  have hget := Dict.get?_set_self d ptr ((Dict.get? d ptr).getD [] ++ [message])
  unfold DAGValidationResult.append at hnil
  rw [hnil] at hget
  simp at hget

/-- Appending a message adds it and keeps the others. -/
theorem mem_messages_append (d : Dict String (List String)) (ptr message m : String) :
    m ∈ (DAGValidationResult.append d ptr message).flatMap (·.2) ↔
      m ∈ d.flatMap (·.2) ∨ m = message := by
  unfold DAGValidationResult.append
  induction d with
  | nil => simp [Dict.set]
  | cons p rest ih =>
    obtain ⟨k, v⟩ := p
    by_cases hk : k = ptr
    · simp only [Dict.set, Dict.get?_cons, hk, if_true, Option.getD_some, List.flatMap_cons,
        List.mem_append, List.mem_singleton]
      tauto
    · simp only [Dict.set, Dict.get?_cons, hk, if_false, List.flatMap_cons, List.mem_append, ih]
      tauto

/-- An error adds its message. -/
theorem adds_error (r : DAGValidationResult) (ptr message : String) :
    Adds r (r.add_error ptr message) [message] := by
  refine ⟨fun m => ?_, rfl, fun h => ⟨?_, fun kv hkv => ?_⟩⟩
  · rw [List.mem_singleton]
    exact mem_messages_append r.errors ptr message m
  · simp [DAGValidationResult.add_error, append_ne_nil]
  · obtain rfl | hkv := Dict.mem_of_mem_set hkv
    · simp
    · exact h.filled kv hkv

/-- A message under a condition. -/
theorem adds_if (p : Prop) [Decidable p] (r : DAGValidationResult) (ptr message : String) :
    Adds r (if p then r.add_error ptr message else r) (if p then [message] else []) := by
  split_ifs
  · exact adds_error r ptr message
  · exact Adds.refl r

/-- A loop adds what its turns add. -/
theorem adds_foldl {α : Type} {f : DAGValidationResult → α → DAGValidationResult}
    {added : α → List String} (h : ∀ r x, Adds r (f r x) (added x)) (xs : List α)
    (r : DAGValidationResult) :
    Adds r (xs.foldl f r) (xs.flatMap added) := by
  induction xs generalizing r with
  | nil => exact Adds.refl r
  | cons x rest ih =>
    rw [List.foldl_cons, List.flatMap_cons]
    exact (h r x).trans (ih (f r x))

end taurus.engine.dag_validator
