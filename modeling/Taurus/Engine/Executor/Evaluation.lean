import Taurus.Engine.Executor.Condition
import Taurus.Lib.Loops

/-! The evaluation of conditions by index into the list of tokens, with all that Python can raise on
the way. The context is the JSON object that is passed in. -/

namespace taurus.engine.executor.raising

open taurus.lib taurus.lib.loops taurus.python

/-- What ends an evaluation without a value: an exception, or a loop that is `unfinished` after
the turns it was given. -/
inductive Raised where
  | ValueError (message : String)
  | TypeError
  | IndexError
  | AttributeError
  | RecursionError
  | unfinished
  deriving DecidableEq

abbrev Eval (α : Type) := Except Raised α

def value_error {α : Type} (message : String) : Eval α := .error (.ValueError message)

/-- An evaluation that raises ValueErrors only. -/
def ofText {α : Type} (x : executor.Eval α) : Eval α :=
  match x with
  | .ok a => .ok a
  | .error message => value_error message

/-- `xs[i]` -/
def index {α : Type} (xs : List α) (i : Nat) : Eval α :=
  match xs[i]? with
  | some x => .ok x
  | none => .error .IndexError

/-- `d.get(k)` -/
def get (d : Json) (k : String) : Eval Json :=
  match d with
  | .obj kvs => .ok (getJson kvs k)
  | _ => .error .AttributeError

/-- `v or {}` -/
def or_empty (v : Json) : Json := if v.truthy then v else .obj []

/-- A call that takes so many of the frames that are left. -/
def call {α : Type} (taken frames : Nat) (x : Eval α) : Eval α :=
  if taken ≤ frames then x else .error .RecursionError

/-- One turn of the loop of `_tokenize`, on the tokens so far and the position. -/
def tokenize_step (expr : List Char) (s : List String × Nat) :
    Eval ((List String × Nat) ⊕ List String) :=
  if s.2 < expr.length then do
    let c ← index expr s.2
    if isspace c then pure (.inl (s.1, s.2 + 1))
    else match tokenAt (expr.drop s.2) with
      | none => value_error "E1100: unrecognized character in condition expression"
      | some (tok, rest) =>
        pure (.inl (s.1 ++ [String.ofList tok], expr.length - (rest.dropWhile isspace).length))
  else pure (.inr s.1)

def _tokenize (expr : List Char) : Eval (List String) :=
  loop .unfinished (tokenize_step expr) (expr.length + 1) ([], 0)

/-- The value a path of a comparison names. -/
def _resolve_value_path (path : String) (ctx : Dict String Json) : Eval Json :=
  if path = "" then value_error "E1120: empty path"
  else match (splitOn '.' path.toList).map String.ofList with
  | [] => .error .IndexError
  | "workflow" :: steps => ofText (walkDict "E1121" (or_empty (getJson ctx "workflow")) steps)
  | "trigger" :: steps => ofText (walkDict "E1122" (or_empty (getJson ctx "trigger")) steps)
  | node_key :: "status" :: steps =>
    if steps ≠ [] then value_error "E1125: <node>.status does not allow further drilling down"
    else get (or_empty (getJson ctx "node_statuses")) node_key
  | node_key :: "output" :: steps => do
    let d ← get (or_empty (getJson ctx "node_outputs")) node_key
    pure (walkOutput d steps)
  | _ => value_error "E1124: node value reference must be in form <node>.status or <node>.output.xxx"

/-- `lhs op rhs` -/
def compare (op : String) (lhs : Json) (rhs : CondVal) : Eval Bool :=
  let ordered (r : Option Bool) : Eval Bool :=
    match r with
    | some b => .ok b
    | none => .error .TypeError
  match op with
  | "==" => .ok (rhs.equals lhs)
  | "!=" => .ok (!rhs.equals lhs)
  | "<" => ordered (rhs.above? lhs)
  | ">" => ordered (rhs.below? lhs)
  | "<=" => ordered (rhs.at_least? lhs)
  | _ => ordered (rhs.at_most? lhs)

/-- The comparison under its `except TypeError`. -/
def compareValues (op : String) (lhs : Json) (rhs : CondVal) : Eval Bool :=
  match compare op lhs rhs with
  | .error .TypeError => value_error "E1118: incompatible types in comparison operation"
  | r => r

/-- The value of `success(...)` and the like on its arguments. -/
def statusCall (fn : String) (args : List CondVal) (ctx : Dict String Json) : Eval CondVal :=
  match args with
  | .val (.str key) :: more => do
    let st ← get (or_empty (getJson ctx "node_statuses")) key
    match status_map fn with
    | some want =>
      if more.isEmpty then pure (.bool (st.eqLiteral (.int want.toInt)))
      else value_error s!"E1108: {fn}() must have exactly 1 argument"
    | none =>
      match more with
      | [.val (.str name)] =>
        match expected_map name with
        | some want => pure (.bool (st.eqLiteral (.int want.toInt)))
        | none => value_error s!"E1110: status() unknown status name {name}"
      | _ => value_error "E1109: status(k, 'SUCCESS') requires 2 arguments"
  | _ => value_error s!"E1107: {fn}() first argument must be node_key string"

section tokens

variable (fullmatch : Nat → Nat) (ctx : Dict String Json) (tokens : List String)

/-- `j < len(tokens) and tokens[j] == t` -/
def stands_at (t : String) (j : Nat) : Eval Bool :=
  if j < tokens.length then do
    let u ← index tokens j
    pure (u == t)
  else pure false

/-- `j >= len(tokens) or tokens[j] == ")"`, where the arguments of a call end. -/
def ends_at (j : Nat) : Eval Bool :=
  if j < tokens.length then do
    let u ← index tokens j
    pure (u == ")")
  else pure true

/-- The variables of an argument loop. -/
structure Args where
  args : List CondVal
  first : Bool
  j : Nat

/-- What a turn of an argument loop finds: the end, a bare node key, or an atom to evaluate. -/
inductive Arg where
  | closed
  | bare (key : String) (j : Nat)
  | atom (j : Nat)

/-- The next argument of `success(...)` and the like; `first` is `is_first_arg`. -/
def status_arg (fn : String) (s : Args) : Eval Arg := do
  let ends ← ends_at tokens s.j
  if ends then pure .closed
  else
    let tok ← index tokens s.j
    if s.args.isEmpty = false ∧ tok ≠ "," then
      value_error s!"E1104: {fn}() missing ',' between arguments"
    else if tok = "," then do
      let ends ← ends_at tokens (s.j + 1)
      if ends then value_error s!"E1105: {fn}() missing argument at end"
      else pure (.atom (s.j + 1))
    else if s.first ∧ isBareKey tok then pure (.bare tok (s.j + 1))
    else pure (.atom s.j)

/-- The next argument of `AND(...)`, `OR(...)` and `NOT(...)`. -/
def bool_arg (fn : String) (s : Args) : Eval Arg := do
  let ends ← ends_at tokens s.j
  if ends then pure .closed
  else
    let tok ← index tokens s.j
    if s.args.isEmpty = false ∧ tok ≠ "," then
      value_error s!"E1112: {fn}() missing ',' between arguments"
    else if tok = "," then pure (.atom (s.j + 1))
    else pure (.atom s.j)

/-- One turn of an argument loop. -/
def args_step (next : Args → Eval Arg) (eval : Nat → Eval (CondVal × Nat)) (s : Args) :
    Eval (Args ⊕ Args) := do
  let arg ← next s
  match arg with
  | .closed => pure (.inr s)
  | .bare key j => pure (.inl ⟨s.args ++ [.val (.str key)], false, j⟩)
  | .atom k => do
    let (a, j) ← eval k
    pure (.inl ⟨s.args ++ [a], false, j⟩)

/-- The argument loop of the call at `idx`. -/
def call_args (next : Args → Eval Arg) (eval : Nat → Eval (CondVal × Nat))
    (idx : Nat) : Eval Args :=
  loop .unfinished (args_step next eval) (tokens.length + 1) ⟨[], true, idx + 2⟩

/-- `'(' expr ')'` at `idx`. -/
def group (evalExpr : Nat → Eval (CondVal × Nat)) (idx : Nat) : Eval (CondVal × Nat) := do
  let (v, j) ← evalExpr (idx + 1)
  let closed ← stands_at tokens ")" j
  if closed then pure (v, j + 1) else value_error "E1103: missing matching ')'"

/-- `success(...)` and the like at `idx`. -/
def status_predicate (evalAtom : Nat → Eval (CondVal × Nat)) (fn : String) (idx : Nat) :
    Eval (CondVal × Nat) := do
  let s ← call_args tokens (status_arg tokens fn) evalAtom idx
  if s.j < tokens.length then do
    let v ← statusCall fn s.args ctx
    pure (v, s.j + 1)
  else value_error s!"E1106: {fn}() missing ')'"

/-- `AND(...)`, `OR(...)` or `NOT(...)` at `idx`. -/
def bool_operator (evalExpr : Nat → Eval (CondVal × Nat)) (fn : String) (idx : Nat) :
    Eval (CondVal × Nat) := do
  let s ← call_args tokens (bool_arg tokens fn) evalExpr idx
  if s.j < tokens.length then do
    let v ← ofText (boolCall fn s.args)
    pure (v, s.j + 1)
  else value_error s!"E1113: {fn}() missing ')'"

/-- A constant, else `<path> <cmp> <literal>`. -/
def literalOrComparison (tok : String) (idx : Nat) : Eval (CondVal × Nat) :=
  match _parse_literal tok with
  | some v => pure (v, idx + 1)
  | none =>
    if idx + 2 < tokens.length then do
      let op ← index tokens (idx + 1)
      if comparisonOps.contains op then do
        let rhsTok ← index tokens (idx + 2)
        match _parse_literal rhsTok with
        | none => value_error s!"E1116: invalid right side of comparison {rhsTok}"
        | some rhs => do
          let lhs ← _resolve_value_path tok ctx
          let result ← compareValues op lhs rhs
          pure (.bool result, idx + 3)
      else value_error s!"E1119: unrecognized token {tok}"
    else value_error s!"E1119: unrecognized token {tok}"

/-- The names of the status predicates and of the operators. -/
def status_names : List String := ["success", "failed", "skipped", "cancelled", "status"]

def bool_names : List String := ["AND", "OR", "NOT"]

/-- `t in names and idx + 1 < len(tokens) and tokens[idx + 1] == "("` -/
def is_call (names : List String) (t : String) (idx : Nat) : Eval Bool :=
  if t ∈ names then stands_at tokens "(" (idx + 1) else pure false

/-- The frames taken to look at the first argument of a status predicate: `re.fullmatch`
is called for a token that is no comma, and takes more frames when the cache of `re` does
not have the pattern. -/
def key_frames (j : Nat) : Nat :=
  match tokens[j]? with
  | none => 0
  | some tok => if tok = ")" ∨ tok = "," then 0 else fullmatch j

/-- The body of `_eval_atom`, with the frames left for its calls. `_parse_literal` and
`_resolve_value_path` take one each. -/
def atom_body (frames : Nat) (evalAtom evalExpr : Nat → Eval (CondVal × Nat)) (idx : Nat) :
    Eval (CondVal × Nat) :=
  if tokens.length ≤ idx then value_error "E1102: expression unexpectedly ended"
  else do
    let t ← index tokens idx
    if t = "(" then group tokens evalExpr idx
    else do
      let status ← is_call tokens status_names t idx
      if status then
        call (key_frames fullmatch tokens (idx + 2)) frames
          (status_predicate ctx tokens evalAtom t idx)
      else do
        let operator ← is_call tokens bool_names t idx
        if operator then bool_operator tokens evalExpr t idx
        else if t = "__else__" then pure (.els, idx + 1)
        else call 1 frames (literalOrComparison ctx tokens t idx)

mutual

/-- `_eval_atom`, with the number of frames left for it and the calls below it. -/
def _eval_atom : Nat → Nat → Eval (CondVal × Nat)
  | 0, _ => .error .RecursionError
  | frames + 1, idx =>
    atom_body fullmatch ctx tokens frames (fun k => _eval_atom frames k)
      (fun k => _eval_expr frames k) idx

def _eval_expr : Nat → Nat → Eval (CondVal × Nat)
  | 0, _ => .error .RecursionError
  | frames + 1, idx => _eval_atom frames idx

end

end tokens

/-- The value of the condition written on an edge, with the frames left for the calls. -/
def evaluate_edge_condition (fullmatch : Nat → Nat) (frames : Nat) (condition_str : String)
    (ctx : Dict String Json) :
    Eval CondVal :=
  let s := strip condition_str.toList
  if s.isEmpty then pure (.bool true)
  else if s = "__else__".toList then pure .els
  else do
    let tokens ← call 1 frames (_tokenize s)
    if tokens.isEmpty then pure (.bool true)
    else do
      let (result, pos) ← _eval_expr fullmatch ctx tokens frames 0
      if pos = tokens.length then pure result
      else value_error "E1126: expression has extra content"

end taurus.engine.executor.raising
