import Taurus.Python.Float
import Taurus.Units.Loop

namespace taurus.units

open taurus.lib taurus.python taurus.engine taurus.engine.runner

inductive CompareOp where
  | eq
  | ne
  | gt
  | ge
  | lt
  | le
  deriving DecidableEq

namespace CompareOp

def name : CompareOp → String
  | eq => "=="
  | ne => "!="
  | gt => ">"
  | ge => ">="
  | lt => "<"
  | le => "<="

/-- The answer for two values of an order. -/
def holds (op : CompareOp) (less equal : Bool) : Bool :=
  match op with
  | eq => equal
  | ne => !equal
  | gt => !less && !equal
  | ge => !less
  | lt => less
  | le => less || equal

/-- The exception for two values without an order. -/
def unordered (op : CompareOp) (left right : String) : Exn :=
  .other "TypeError" s!"'{op.name}' not supported between instances of '{left}' and '{right}'"

/-- Two floats: nothing but `!=` holds of a NaN. -/
def compare (op : CompareOp) : PyFloat → PyFloat → Bool
  | .nan, _ | _, .nan => op = ne
  | .finite p, .finite q => op.holds (p < q) (p = q)
  | .finite _, .inf negative => op.holds (!negative) false
  | .inf negative, .finite _ => op.holds negative false
  | .inf a, .inf b => op.holds (a && !b) (a = b)

end CompareOp

mutual

/-- `a == b` -/
def py_eq : Json → Json → Bool
  | .null, .null => true
  | .str s, .str t => s = t
  | .arr xs, .arr ys => py_eqList xs ys
  | .obj xs, .obj ys => xs.length = ys.length && py_eqDict xs ys
  | a, b =>
    match a.number?, b.number? with
    | some x, some y => x = y
    | _, _ => false

def py_eqList : List Json → List Json → Bool
  | [], [] => true
  | x :: xs, y :: ys => py_eq x y && py_eqList xs ys
  | _, _ => false

def py_eqDict : List (String × Json) → List (String × Json) → Bool
  | [], _ => true
  | (k, v) :: rest, other =>
    (match Dict.get? other k with
      | some w => py_eq v w
      | none => false) && py_eqDict rest other

end

mutual

/-- `a < b` and the like; lists are compared at the first place where they differ. -/
def py_order (op : CompareOp) : Json → Json → Except Exn Bool
  | .str s, .str t => .ok (op.holds (s < t) (s = t))
  | .arr xs, .arr ys => py_orderList op xs ys
  | a, b =>
    match a.number?, b.number? with
    | some x, some y => .ok (op.holds (x < y) (x = y))
    | _, _ => .error (op.unordered (type_name a) (type_name b))

def py_orderList (op : CompareOp) : List Json → List Json → Except Exn Bool
  | [], ys => .ok (op.holds (!ys.isEmpty) ys.isEmpty)
  | _ :: _, [] => .ok (op.holds false false)
  | x :: xs, y :: ys => if py_eq x y then py_orderList op xs ys else py_order op x y

end

/-- What an operand of a condition is: a parameter or a text, or a float read from its text. -/
inductive Operand where
  | json (v : Json)
  | float (x : PyFloat)

namespace Operand

def number? : Operand → Option PyFloat
  | json v => v.number?.map .finite
  | float x => some x

def type_name : Operand → String
  | json v => units.type_name v
  | float _ => "float"

/-- `op_fn(left, right)` -/
def apply (op : CompareOp) (left right : Operand) : Except Exn Bool :=
  match left.number?, right.number? with
  | some x, some y => .ok (op.compare x y)
  | _, _ =>
    match op, left, right with
    | .eq, json v, json w => .ok (py_eq v w)
    | .ne, json v, json w => .ok (!py_eq v w)
    | .eq, _, _ => .ok false
    | .ne, _, _ => .ok true
    | op, json v, json w => py_order op v w
    | op, left, right => .error (op.unordered left.type_name right.type_name)

end Operand

/-- `s.split(sep, 1)` for a `sep` that is in `s`. -/
def splitOnce (sep : List Char) : List Char → Option (List Char × List Char)
  | [] => none
  | c :: cs =>
    match afterPrefix sep (c :: cs) with
    | some rest => some ([], rest)
    | none => (splitOnce sep cs).map fun parts => (c :: parts.1, parts.2)

namespace ConditionAdapter

/-- The operators in the order in which they are looked for. -/
def _ALLOWED_OPS : List CompareOp := [.eq, .ne, .gt, .ge, .lt, .le]

/-- The text between two quotation marks, which may be the same one. -/
def quoted? (mark : Char) (token : List Char) : Option (List Char) :=
  if token.head? = some mark ∧ token.getLast? = some mark then
    some (token.drop 1).dropLast
  else none

def _resolve_value (token : List Char) (vars : Dict String Json) : Operand :=
  match (quoted? '\x22' token).or (quoted? '\x27' token) with
  | some text => .json (.str (String.ofList text))
  | none =>
    match int? token with
    | some n => .json (.int n)
    | none =>
      match float? token with
      | some x => .float x
      | none => .json ((Dict.get? vars (String.ofList token)).getD (.str (String.ofList token)))

/-- An expression without any of the operators. -/
def no_operator (expr : String) : Exn :=
  .ValueError s!"E0703: No valid comparison operator found: {expr}"

/-- The loop over the operators. -/
def eval_ops (expr : List Char) (vars : Dict String Json) : List CompareOp → Except Exn Bool
  | [] => .error (no_operator (String.ofList expr))
  | op :: ops =>
    match splitOnce op.name.toList expr with
    | some (left, right) =>
      Operand.apply op (_resolve_value (strip left) vars) (_resolve_value (strip right) vars)
    | none => eval_ops expr vars ops

/-- The value of an expression. One that is no text has no parts. -/
def _eval_simple (py : Reprs) (expr : Json) (vars : Dict String Json) : Except Exn Bool :=
  let without_split (found : Bool) : Except Exn Bool :=
    if found then
      .error (.other "AttributeError" s!"'{type_name expr}' object has no attribute 'split'")
    else .error (no_operator (py.str expr))
  match expr with
  | .str s => eval_ops s.toList vars _ALLOWED_OPS
  | .arr xs => without_split (_ALLOWED_OPS.any fun op => xs.any fun x => isText x op.name)
  | .obj kvs => without_split (_ALLOWED_OPS.any fun op => (Dict.get? kvs op.name).isSome)
  | v => .error (.other "TypeError" s!"argument of type '{type_name v}' is not iterable")

def validate_config (py : Reprs) (params : Dict String Json) : Except Exn ValidationResult := do
  let expr ← stripped (getJson params "expression")
  let r :=
    if expr = "" then add_error {} "/params/expression" "E0701: Expression is required" else {}
  let expr_type ← stripped (orElse (getJson params "expression_type") (.str "simple"))
  pure (if expr_type = "simple" ∨ expr_type = "python" then r
    else add_error r "/params/expression_type"
      s!"E0701: expression_type must be in \x7bsimple, python\x7d, got {py.repr (.str expr_type)}")

/-- The outcome of an evaluation. -/
def answer : Except Exn Bool → UnitOutput
  | .ok result =>
    { status := .SUCCESS, exit_code := some 0
      output := [("condition_result", .bool result), ("branch", .str (if result then "true"
      else "false"))] }
  | .error exc =>
    { status := .FAILED, exit_code := some 1, error_message := some s!"E0702: {exc.text}"
      output := [("condition_result", .bool false), ("branch", .str "error")] }

/-- Evaluate the condition; `_eval_python` is Python's own evaluation. -/
def dispatch (py : Reprs) (_eval_python : Json → Dict String Json → Except Exn Bool)
    (params : Dict String Json) : UnitOutput :=
  let expr := (Dict.get? params "expression").getD (.str "")
  let expr_type := (Dict.get? params "expression_type").getD (.str "simple")
  answer (if isText expr_type "simple" then _eval_simple py expr params
    else _eval_python expr params)

end ConditionAdapter

end taurus.units
