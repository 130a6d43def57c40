import Taurus.Engine.Schemas
import Taurus.Python.Float

namespace taurus.engine.context

open taurus.lib taurus.python

/-- What Python itself brings to a path: the objects that are no JSON values, the attributes
of values without fields, the items of other objects and the texts of values. A failed item
gives the `repr` of its exception. -/
structure Builtins where
  Object : Type
  getattr : Json ⊕ Object → String → Option (Json ⊕ Object)
  getitem : Object → Int → Except String (Json ⊕ Object)
  str : Json ⊕ Object → String

structure InterpolationError where
  message : String
  error_code : String
  variable_name : String
  deriving DecidableEq, Repr

/-- One step of a path. -/
inductive Step where
  | name (s : String)
  | idx (i : Int)
  deriving DecidableEq, Repr

namespace Step

/-- `f"{s}"` -/
def text : Step → String
  | name s => s
  | idx i => s!"{i}"

end Step

/-- `${path}` -/
def braced (path : List Char) : String := "$\x7b" ++ String.ofList path ++ "\x7d"

def _MAX_PATH_STEPS : Nat := 32

/-- `_STEP_RE.match`: a name or an index in brackets, with its length. -/
def step? : List Char → Option (Step × Nat)
  | [] => none
  | c :: cs =>
    if c.isAlpha || c = '_' then
      let name := (c :: cs).takeWhile fun c => c.isAlphanum || c = '_'
      some (.name (String.ofList name), name.length)
    else if c = '[' then
      let (negative, cs) : Bool × List Char := match cs with
        | '-' :: cs => (true, cs)
        | cs => (false, cs)
      let digits := cs.takeWhile isdecimal
      let n : Int := (digitsNat? digits).getD 0
      match cs.drop digits.length with
      | ']' :: _ =>
        if digits = [] then none
        else some (.idx (if negative then -n else n), digits.length + (if negative then 3 else 2))
      | _ => none
    else none

/-- The steps of the rest of a path; `skip` counts the characters of the last step that are
still to be dropped. -/
def splitFrom (path : List Char) : Nat → List Char → Except InterpolationError (List Step)
  | _, [] => .ok []
  | skip + 1, _ :: cs => splitFrom path skip cs
  | 0, c :: cs =>
    if c = '.' then splitFrom path 0 cs
    else match step? (c :: cs) with
    | none => .error
      { message := s!"Path parse failed (position {path.length - (c :: cs).length}): '{braced path}'"
        error_code := "E0407", variable_name := String.ofList path }
    | some (step, length) => (splitFrom path (length - 1) cs).map (step :: ·)

def _split_path (path : List Char) : Except InterpolationError (List Step) := splitFrom path 0 path

/-- `xs[i]`; a negative index counts from the end. -/
def item? {α : Type} (xs : List α) (i : Int) : Option α :=
  if 0 ≤ i then xs[i.toNat]?
  else if 0 ≤ i + xs.length then xs[(i + xs.length).toNat]?
  else none

def not_subscriptable (type_name : String) : Except String Json :=
  .error ("TypeError(\"'" ++ type_name ++ "' object is not subscriptable\")")

/-- `current[i]` -/
def getitem : Json → Int → Except String Json
  | .arr xs, i => match item? xs i with
    | some v => .ok v
    | none => .error "IndexError('list index out of range')"
  | .str s, i => match item? s.toList i with
    | some c => .ok (.str (String.ofList [c]))
    | none => .error "IndexError('string index out of range')"
  | .obj _, i => .error s!"KeyError({i})"
  | .null, _ => not_subscriptable "NoneType"
  | .bool _, _ => not_subscriptable "bool"
  | .int _, _ => not_subscriptable "int"
  | .float _, _ => not_subscriptable "float"

variable (py : Builtins)

/-- A missing field. -/
def KeyError {α : Type} (name : String) : Except String α := .error s!"KeyError('{name}')"

/-- One step into a value; a failure gives the `repr` of its exception. -/
def walk_step (current : Json ⊕ py.Object) (step : Step) : Except String (Json ⊕ py.Object) :=
  match step, current with
  | .idx i, .inl v => (getitem v i).map .inl
  | .idx i, .inr o => py.getitem o i
  | .name s, .inl (.obj kvs) => match Dict.get? kvs s with
    | some v => .ok (.inl v)
    | none => KeyError s
  -- a name is never the text of an index
  | .name s, .inl (.arr _) => KeyError s
  | .name s, current => match py.getattr current s with
    | some v => .ok v
    | none => KeyError s

/-- The steps after the root of a path. -/
def walk (path : List Char) :
    Json ⊕ py.Object → List Step → Except InterpolationError (Json ⊕ py.Object)
  | current, [] => .ok current
  | current, step :: rest =>
    match walk_step py current step with
    | .ok v => walk path v rest
    | .error e => .error
      { message := s!"Field '{step.text}' does not exist in path '{braced path}': {e}"
        error_code := "E0406", variable_name := String.ofList path }

/-- The root of a path. -/
def root (ctx : WorkflowContext) (path : List Char) (root_name : String) :
    Except InterpolationError Json :=
  if root_name = "workflow" then
    .ok (.obj [("env", .obj ctx.workflow_env), ("secrets", .obj ctx.secrets)])
  else if root_name = "trigger" then .ok (.obj ctx.trigger_params)
  else if startswith root_name.toList "node_".toList then
    match Dict.get? ctx.node_outputs root_name with
    | some v => .ok v
    | none => .error
      { message := s!"Upstream node '{root_name}' has not yet provided output"
        error_code := "E0403", variable_name := String.ofList path }
  else if root_name = "nodes" then
    .ok (.obj (ctx.node_outputs.foldl (fun d kv =>
      match afterPrefix "node_".toList kv.1.toList with
      | some key => Dict.set d (String.ofList key) kv.2
      | none => d) []))
  else .error
    { message := s!"Unknown scope '{root_name}', valid: workflow/trigger/node_<id>"
      error_code := "E0404", variable_name := String.ofList path }

def _resolve_path (ctx : WorkflowContext) (path : List Char) :
    Except InterpolationError (Json ⊕ py.Object) :=
  match _split_path path with
  | .error e => .error e
  | .ok steps =>
    if _MAX_PATH_STEPS < steps.length then .error
      { message := s!"Path steps exceed {_MAX_PATH_STEPS}: '{braced path}'"
        error_code := "E0405", variable_name := String.ofList path }
    else match steps with
    | .name root_name :: rest =>
      match root ctx path root_name with
      | .error e => .error e
      | .ok current => walk py path (.inl current) rest
    | _ => .error
      { message := s!"Invalid expression '{braced path}'"
        error_code := "E0401", variable_name := String.ofList path }

/-- The number of digits of the first index that `int` refuses, when the path is split up to
it; `skip` counts as in `splitFrom`. -/
def long_index : Nat → List Char → Option Nat
  | _, [] => none
  | skip + 1, _ :: cs => long_index skip cs
  | 0, c :: cs =>
    if c = '.' then long_index 0 cs
    else match step? (c :: cs) with
    | none => none
    | some (.name _, length) => long_index (length - 1) cs
    | some (.idx _, length) =>
      let digits := ((c :: cs).take length).countP isdecimal
      if max_str_digits < digits then some digits else long_index (length - 1) cs

/-- What is raised for a path. -/
inductive PathError where
  | interpolation_error (e : InterpolationError)
  | value_error (message : String)
  deriving DecidableEq, Repr

/-- `_resolve_path` with the limit of `int` on the digits of an index. -/
def resolve_path (ctx : WorkflowContext) (path : List Char) : Except PathError (Json ⊕ py.Object) :=
  match long_index 0 path with
  | some digits => .error (.value_error
      s!"Exceeds the limit ({max_str_digits} digits) for integer string conversion: value has {digits} digits; use sys.set_int_max_str_digits() to increase the limit")
  | none => (_resolve_path py ctx path).mapError .interpolation_error

/-- A match of `_TOKEN_RE`: an escaped dollar or a braced expression. -/
inductive Token where
  | dollar
  | expr (e : List Char)
  deriving DecidableEq, Repr

namespace Token

/-- `m.group(0)` -/
def text : Token → List Char
  | dollar => ['$', '$']
  | expr e => '$' :: '\x7b' :: e ++ ['\x7d']

end Token

/-- `_TOKEN_RE` at the front of a text. -/
def token? : List Char → Option Token
  | '$' :: '$' :: _ => some .dollar
  | '$' :: '\x7b' :: cs =>
    let e := cs.takeWhile (· ≠ '\x7d')
    if e = [] ∨ cs.length = e.length then none else some (.expr e)
  | _ => none

/-- The text a value leaves in a template. -/
def value_text : Json ⊕ py.Object → String
  | .inl .null => ""
  | .inl (.str s) => s
  | .inl (.int n) => s!"{n}"
  | .inl (.bool b) => if b then "True" else "False"
  | v => py.str v

/-- What stands in for a token. -/
def replacement (ctx : WorkflowContext) : Token → Except InterpolationError (List Char)
  | .dollar => .ok ['$']
  | .expr e =>
    let expr := strip e
    match _resolve_path py ctx expr with
    | .ok v => .ok (value_text py v).toList
    | .error err => .error
      { message := s!"Interpolation failed: fragment '{String.ofList (Token.expr e).text}' — {err.message}"
        error_code := err.error_code, variable_name := String.ofList expr }

/-- Replace the tokens in the rest of a template; `skip` counts the characters of the last
token that are still to be dropped. -/
def renderFrom (ctx : WorkflowContext) : Nat → List Char → Except InterpolationError (List Char)
  | _, [] => .ok []
  | skip + 1, _ :: cs => renderFrom ctx skip cs
  | 0, c :: cs =>
    match token? (c :: cs) with
    | none => (renderFrom ctx 0 cs).map (c :: ·)
    | some t =>
      match replacement py ctx t with
      | .error e => .error e
      | .ok text => (renderFrom ctx (t.text.length - 1) cs).map (text ++ ·)

/-- Execute one interpolation of all tokens in a text. -/
def render (ctx : WorkflowContext) (template : String) : Except InterpolationError String :=
  if !isInfix ['$', '\x7b'] template.toList && !isInfix ['$', '$'] template.toList then .ok template
  else (renderFrom py ctx 0 template.toList).map String.ofList

mutual

/-- Interpolate all texts of a value; keys stay as they are. -/
def render_structure (ctx : WorkflowContext) : Json → Except InterpolationError Json
  | .str s => (render py ctx s).map .str
  | .obj kvs => (render_dict ctx kvs).map .obj
  | .arr xs => (render_list ctx xs).map .arr
  | .null => .ok .null
  | .bool b => .ok (.bool b)
  | .int n => .ok (.int n)
  | .float q => .ok (.float q)

def render_list (ctx : WorkflowContext) : List Json → Except InterpolationError (List Json)
  | [] => .ok []
  | v :: rest => do
    let v ← render_structure ctx v
    let rest ← render_list ctx rest
    pure (v :: rest)

def render_dict (ctx : WorkflowContext) :
    List (String × Json) → Except InterpolationError (List (String × Json))
  | [] => .ok []
  | (k, v) :: rest => do
    let v ← render_structure ctx v
    let rest ← render_dict ctx rest
    pure ((k, v) :: rest)

end

/-- Interpolated params; an `InterpolationError` is a `ValueError`. -/
def render_params (ctx : WorkflowContext) (params : Dict String Json) :
    Except Exn (Dict String Json) :=
  match render_dict py ctx params with
  | .ok params => .ok params
  | .error e => .error (.ValueError e.message)

/-- A context as its annotations have it: every node is a dict. -/
structure Annotated extends WorkflowContext where
  nodes_dicts : ∀ kv ∈ node_outputs, ∃ node, kv.2 = .obj node

/-- The words of keys whose values are masked. -/
def masked_words : List String := ["password", "token", "secret", "private_key", "apikey"]

/-- `any(s in key.lower() for s in (...))` -/
def is_masked (lower : String → String) (key : String) : Bool :=
  masked_words.any fun s => isInfix s.toList (lower key).toList

def masked_fields (lower : String → String) (output : Dict String Json) : Dict String Json :=
  output.map fun kv => if is_masked lower kv.1 then (kv.1, .str "***") else kv

/-- The masked node, and the node as the call leaves it: the output is the same dict in both. -/
def _mask_node (lower : String → String) : Json → Json × Json
  | .obj node =>
    match Dict.get? node "output" with
    | some (.obj output) =>
      let output := .obj (masked_fields lower output)
      (.obj (Dict.set node "output" output), .obj (Dict.set node "output" output))
    | _ => (.obj (Dict.set node "output" (.obj [])), .obj node)
  -- excluded by the annotations
  | node => (node, node)

structure MaskedView where
  env : Dict String Json
  secrets : Dict String Json
  trigger : Dict String Json
  node_outputs : Dict String Json

/-- The view, and the context as the call leaves it. -/
def view_masked (lower : String → String) (ctx : Annotated) : MaskedView × WorkflowContext :=
  let masked := ctx.node_outputs.map fun kv => (kv.1, _mask_node lower kv.2)
  ({ env := ctx.workflow_env
     secrets := ctx.secrets.map fun kv => (kv.1, .str "***")
     trigger := ctx.trigger_params
     node_outputs := masked.map fun kv => (kv.1, kv.2.1) },
   { ctx.toWorkflowContext with node_outputs := masked.map fun kv => (kv.1, kv.2.2) })

end taurus.engine.context
