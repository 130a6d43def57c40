import Taurus.Engine.DagValidator
import Taurus.Engine.Runner.EngineFields

namespace taurus.engine.views

open taurus.lib taurus.python taurus.engine.registry taurus.engine.dag_validator taurus.engine.runner

/-- Iterating `v or []`. -/
def elements (v : Json) : Except Exn (List Json) :=
  if !v.truthy then .ok []
  else
    match v with
    | .arr xs => .ok xs
    | .obj kvs => .ok (kvs.map fun kv => .str kv.1)
    | .str s => .ok (s.toList.map fun c => .str (String.singleton c))
    | .bool _ => .error (.other "TypeError" "'bool' object is not iterable")
    | .int _ => .error (.other "TypeError" "'int' object is not iterable")
    | _ => .error (.other "TypeError" "'float' object is not iterable")

section

variable (py : Reprs)

/-- A node gets a key, and the type `noop` where it has none at the top level. -/
def normalize_node (n : Dict String Json) (i : Nat) : Dict String Json :=
  let nk := orElse (getJson n "node_key") (orElse (getJson n "id") (.str ("node_" ++ toString i)))
  let norm := Dict.set n "node_key" (.str (py.str nk))
  if !(getJson norm "node_type").truthy then Dict.set norm "node_type" (.str "noop") else norm

def normalize_nodes (raw_nodes : List Json) : List (Dict String Json) :=
  raw_nodes.zipIdx.filterMap fun (n, i) => n.obj?.map fun n => normalize_node py n i

/-- The value of the new field, else of the old one. -/
def endpoint (e : Dict String Json) (new old : String) : Json :=
  match getJson e new with
  | .null => getJson e old
  | v => v

/-- An edge without a source or a target is left out. -/
def normalize_edge (e : Dict String Json) : Option (Dict String Json) :=
  let fk := endpoint e "from_key" "from"
  let tk := endpoint e "to_key" "to"
  if !fk.truthy || !tk.truthy then none
  else
    let norm := Dict.set e "from_key" (.str (py.str fk))
    let norm := Dict.set norm "to_key" (.str (py.str tk))
    some (Dict.setdefault norm "condition" (.str ""))

def normalized_edges (raw_edges : List Json) : List (Dict String Json) :=
  raw_edges.filterMap fun e => e.obj?.bind (normalize_edge py)

end

/-- What publishing answers. -/
inductive Answer where
  | missing
  | invalid (errors : List String)
  | published (definition : Dict String Json)

/-- `iter_errors`, printed. -/
def errors_list (result : DAGValidationResult) : List String :=
  result.errors.flatMap fun (ptr, messages) =>
    if messages = [] then
      [ptr ++ ": Validation failed"]
    else messages.map fun msg => ptr ++ ": " ++ msg

/-- Check a definition; the version stores the normalized one. -/
def publish (py : Reprs) (registry : UnitAdapterRegistry) (definition : Json) : Except Exn Answer :=
  match definition with
  | .obj definition =>
    if definition = [] then .ok .missing
    else do
      let raw_nodes ← elements (getJson definition "nodes")
      let raw_edges ← elements (getJson definition "edges")
      let nodes := normalize_nodes py raw_nodes
      let edges := normalized_edges py raw_edges
      let definition := Dict.set definition "nodes" (.arr (nodes.map .obj))
      let definition := Dict.set definition "edges" (.arr (edges.map .obj))
      let result ← validate_dag py registry { nodes, edges }
      if !result.ok then pure (.invalid (errors_list result))
      else pure (.published definition)
  | _ => .ok .missing

/-- An edge as the engine or the validation reads it. -/
structure Triple where
  src : Json
  dst : Json
  condition : Json

/-- One edge in `normalize_edges` of the engine. -/
def read_edge (e : Dict String Json) : Triple where
  src := orElse (getJson e "from")
    (orElse (getJson e "from_key") (orElse (getJson e "src") (getJson e "source")))
  dst := orElse (getJson e "to")
    (orElse (getJson e "to_key") (orElse (getJson e "dst") (getJson e "target")))
  condition := orElse (getJson e "condition") (orElse (getJson e "cond") (.str ""))

def normalize_edges (edges : List Json) : List Triple :=
  edges.filterMap fun e => e.obj?.map read_edge

/-- What `validate_dag` reads of an edge. -/
def checked_edge (e : Dict String Json) : Triple where
  src := getJson e "from_key"
  dst := getJson e "to_key"
  condition := getJson e "condition"

/-- The dicts in a list field of a definition. -/
def drawn (definition : Dict String Json) (field : String) : List (Dict String Json) :=
  match getJson definition field with
  | .arr xs => xs.filterMap Json.obj?
  | _ => []

/-- The type of a node after `_ensure_node_engine_fields`. -/
def engine_type (py : Reprs) (registry : UnitAdapterRegistry) (id : String)
    (node : Dict String Json) : String :=
  py.str (getJson (_ensure_node_engine_fields py registry id node) "node_type")

/-- The edges of a stored version as the engine reads them. -/
def engine_edges (definition : Dict String Json) : List Triple :=
  match getJson definition "edges" with
  | .arr edges => normalize_edges edges
  | _ => []

def checked_edges (definition : Dict String Json) : List Triple :=
  (drawn definition "edges").map checked_edge

end taurus.engine.views
