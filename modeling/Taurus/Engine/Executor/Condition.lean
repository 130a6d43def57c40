import Taurus.Engine.Schemas
import Taurus.Python.Float

namespace taurus.engine.executor

open taurus.lib taurus.python

/-- The evaluation context of edge conditions, the dict the runner calls `ctx`. -/
structure EdgeCtx where
  workflow : Dict String Json
  trigger : Dict String Json
  node_statuses : Dict String Status
  node_outputs : Dict String (Dict String Json)

/-- The value of a condition: a Python value, a float read from its text, or the
`__else__` token. -/
inductive CondVal where
  | els
  | val (v : Json)
  | float (x : PyFloat)
  deriving Inhabited

namespace CondVal

def bool (b : Bool) : CondVal := .val (.bool b)

/-- `bool(r)`, where the token is an object and so true. -/
def truthy : CondVal → Bool
  | els => true
  | val v => v.truthy
  | float x => x ≠ .finite 0

def isElse : CondVal → Bool
  | els => true
  | val _ | float _ => false

/-- The text, if the value is one. -/
def text? : CondVal → Option String
  | val v => v.str?
  | els | float _ => none

theorem text?_eq_some_iff {v : CondVal} {s : String} : v.text? = some s ↔ v = .val (.str s) := by
  cases v with
  | val w => cases w <;> simp [text?, Json.str?]
  | els | float => simp [text?]

end CondVal

/-- Evaluation fails with a ValueError only. -/
abbrev Eval (α : Type) := Except String α

def isIdentStart (c : Char) : Bool := c.isAlpha || c == '_'

def isIdentChar (c : Char) : Bool := c.isAlphanum || c == '_' || c == '.'

/-- The text after the first `quote`, with the text before it. -/
def untilQuote (quote : Char) : List Char → Option (List Char × List Char)
  | [] => none
  | c :: cs =>
    if c = quote then some ([], cs)
    else (untilQuote quote cs).map fun (body, rest) => (c :: body, rest)

/-- One number `-?\d+(\.\d+)?` at the head of the text. -/
def numberToken (s : List Char) : Option (List Char × List Char) :=
  let (sign, body) := match s with
    | '-' :: rest => (['-'], rest)
    | rest => ([], rest)
  let (whole, rest) := body.span isdecimal
  if whole.isEmpty then none
  else match rest with
    | '.' :: rest' =>
      let (frac, rest'') := rest'.span isdecimal
      if frac.isEmpty then some (sign ++ whole, rest)
      else some (sign ++ whole ++ ('.' :: frac), rest'')
    | _ => some (sign ++ whole, rest)

/-- `_TOK_RE` at the head of the text: a token and what follows it. -/
def tokenAt : List Char → Option (List Char × List Char)
  | [] => none
  | '\'' :: cs => (untilQuote '\'' cs).map fun (body, rest) => ('\'' :: body ++ ['\''], rest)
  | '"' :: cs => (untilQuote '"' cs).map fun (body, rest) => ('"' :: body ++ ['"'], rest)
  | '(' :: cs => some (['('], cs)
  | ')' :: cs => some ([')'], cs)
  | ',' :: cs => some ([','], cs)
  | '=' :: '=' :: cs => some (['=', '='], cs)
  | '!' :: '=' :: cs => some (['!', '='], cs)
  | '<' :: '=' :: cs => some (['<', '='], cs)
  | '>' :: '=' :: cs => some (['>', '='], cs)
  | '<' :: cs => some (['<'], cs)
  | '>' :: cs => some (['>'], cs)
  | c :: cs =>
    if isIdentStart c then
      let (body, rest) := cs.span isIdentChar
      some (c :: body, rest)
    else numberToken (c :: cs)

/-- The loop of `_tokenize`; every turn removes a character, so `fuel` is the
length of the text. -/
def tokenizeLoop : Nat → List Char → Eval (List String)
  | _, [] => .ok []
  | 0, _ :: _ => .ok []
  | fuel + 1, c :: cs =>
    if isspace c then tokenizeLoop fuel cs
    else match tokenAt (c :: cs) with
      | none => .error "E1100: unrecognized character in condition expression"
      | some (tok, rest) => do
        let more ← tokenizeLoop fuel rest
        pure (String.ofList tok :: more)

def _tokenize (expr : List Char) : Eval (List String) := tokenizeLoop expr.length expr

/-- `_parse_literal`: none is its ValueError. -/
def _parse_literal (tok : String) : Option CondVal :=
  if tok = "true" ∨ tok = "True" then some (.bool true)
  else if tok = "false" ∨ tok = "False" then some (.bool false)
  else if tok = "null" ∨ tok = "None" then some (.val .null)
  else
    let cs := tok.toList
    match cs, cs.getLast? with
    | q :: body, some l =>
      if (q = '\'' ∨ q = '"') ∧ l = q ∧ body ≠ [] then
        some (.val (.str (String.ofList body.dropLast)))
      else if '.' ∈ cs then (float? cs).map .float
      else (int? cs).map fun n => .val (.int n)
    | _, _ => none

/-- Walk down a dict along `steps`: a missing key is None, a value that is no
dict is a ValueError. -/
def walkDict (code : String) : Json → List String → Eval Json
  | v, [] => .ok v
  | .obj kvs, s :: steps =>
    match Dict.get? kvs s with
    | none => .ok .null
    | some v => walkDict code v steps
  | _, s :: _ => .error (code ++ ": path is not a dict at step " ++ s)

/-- Walk down an output: anything missing is None. -/
def walkOutput : Json → List String → Json
  | v, [] => v
  | .obj kvs, s :: steps => walkOutput (getJson kvs s) steps
  | .arr xs, s :: steps =>
    match int? s.toList with
    | none => .null
    | some i =>
      let j := if i < 0 then i + xs.length else i
      if j < 0 then .null
      else match xs[j.toNat]? with
        | none => .null
        | some v => walkOutput v steps
  | _, _ :: _ => .null

/-- The value a path of a comparison names. -/
def _resolve_value_path (path : String) (ctx : EdgeCtx) : Eval Json :=
  if path = "" then .error "E1120: empty path"
  else match (splitOn '.' path.toList).map String.ofList with
  | [] => .error "E1120: empty path"
  | "workflow" :: steps => walkDict "E1121" (.obj ctx.workflow) steps
  | "trigger" :: steps => walkDict "E1122" (.obj ctx.trigger) steps
  | node_key :: "status" :: steps =>
    if steps ≠ [] then .error "E1125: <node>.status does not allow further drilling down"
    else match Dict.get? ctx.node_statuses node_key with
      | none => .ok .null
      | some s => .ok (.int s.toInt)
  | node_key :: "output" :: steps =>
    match Dict.get? ctx.node_outputs node_key with
    | none => .ok .null
    | some out => .ok (walkOutput (.obj out) steps)
  | _ => .error "E1124: node value reference must be in form <node>.status or <node>.output.xxx"

namespace CondVal

/-- `lhs == self` -/
def equals (rhs : CondVal) (lhs : Json) : Bool :=
  match rhs with
  | val v => lhs.eqLiteral v
  | float x => lhs.number?.any fun q => x = .finite q
  | els => false

/-- `lhs < self`, and so on; none is the TypeError of operands without an order. -/
def above? (rhs : CondVal) (lhs : Json) : Option Bool :=
  match rhs with
  | val v => lhs.lt? v
  | float x => lhs.number?.map x.gt
  | els => none

def below? (rhs : CondVal) (lhs : Json) : Option Bool :=
  match rhs with
  | val v => v.lt? lhs
  | float x => lhs.number?.map x.lt
  | els => none

def at_least? (rhs : CondVal) (lhs : Json) : Option Bool :=
  match rhs with
  | val v => lhs.le? v
  | float x => lhs.number?.map x.ge
  | els => none

def at_most? (rhs : CondVal) (lhs : Json) : Option Bool :=
  match rhs with
  | val v => v.le? lhs
  | float x => lhs.number?.map x.le
  | els => none

end CondVal

/-- `lhs op rhs`; an order between incompatible types is a ValueError. -/
def compareValues (op : String) (lhs : Json) (rhs : CondVal) : Eval Bool :=
  let ordered (r : Option Bool) : Eval Bool :=
    match r with
    | some b => .ok b
    | none => .error "E1118: incompatible types in comparison operation"
  match op with
  | "==" => .ok (rhs.equals lhs)
  | "!=" => .ok (!rhs.equals lhs)
  | "<" => ordered (rhs.above? lhs)
  | ">" => ordered (rhs.below? lhs)
  | "<=" => ordered (rhs.at_least? lhs)
  | _ => ordered (rhs.at_most? lhs)

def comparisonOps : List String := ["==", "!=", "<", ">", "<=", ">="]

/-- The status a predicate such as `success(...)` asks for. -/
def status_map : String → Option Status
  | "success" => some .SUCCESS
  | "failed" => some .FAILED
  | "skipped" => some .SKIPPED
  | "cancelled" => some .CANCELLED
  | _ => none

/-- The status names `status(key, 'NAME')` knows. -/
def expected_map : String → Option Status
  | "PENDING" => some .PENDING
  | "RUNNING" => some .RUNNING
  | "SUCCESS" => some .SUCCESS
  | "FAILED" => some .FAILED
  | "SKIPPED" => some .SKIPPED
  | "CANCELLED" => some .CANCELLED
  | _ => none

/-- An unquoted first argument: an identifier without dots that is no constant. -/
def isBareKey (tok : String) : Bool :=
  match tok.toList with
  | [] => false
  | c :: cs =>
    isIdentStart c && cs.all (fun c => c.isAlphanum || c == '_') &&
      !(["true", "false", "null", "True", "False", "None"].contains tok)

/-- The value of `success(...)` and the like on its arguments. -/
def statusCall (fn : String) (args : List CondVal) (ctx : EdgeCtx) : Eval CondVal :=
  match args with
  | .val (.str key) :: more =>
    let st := Dict.get? ctx.node_statuses key
    match status_map fn with
    | some want =>
      if more.isEmpty then .ok (.bool (st == some want))
      else .error s!"E1108: {fn}() must have exactly 1 argument"
    | none =>
      match more with
      | [.val (.str name)] =>
        match expected_map name with
        | some want => .ok (.bool (st == some want))
        | none => .error s!"E1110: status() unknown status name {name}"
      | _ => .error "E1109: status(k, 'SUCCESS') requires 2 arguments"
  | _ => .error s!"E1107: {fn}() first argument must be node_key string"

/-- The argument loop of `success(...)` and the like, after the opening
parenthesis. `first` is `is_first_arg`; every turn consumes a token of `fuel`. -/
def callArgs (evalAtom : List String → Eval (CondVal × List String)) (fn : String) :
    Nat → Bool → List CondVal → List String → Eval (List CondVal × List String)
  | _, _, _, [] => .error s!"E1106: {fn}() missing ')'"
  | _, _, args, ")" :: rest => .ok (args, rest)
  | 0, _, _, _ => .error s!"E1106: {fn}() missing ')'"
  | fuel + 1, first, args, tok :: rest =>
    if !args.isEmpty && tok != "," then
      .error s!"E1104: {fn}() missing ',' between arguments"
    else
      let here := if tok = "," then rest else tok :: rest
      let first := first && tok != ","
      match here with
      | [] => .error s!"E1105: {fn}() missing argument at end"
      | t :: more =>
        if tok = "," ∧ t = ")" then .error s!"E1105: {fn}() missing argument at end"
        else if first && isBareKey t then
          callArgs evalAtom fn fuel false (args ++ [.val (.str t)]) more
        else do
          let (a, after) ← evalAtom here
          callArgs evalAtom fn fuel false (args ++ [a]) after

/-- The argument loop of `AND(...)`, `OR(...)` and `NOT(...)`. -/
def boolArgs (evalExpr : List String → Eval (CondVal × List String)) (fn : String) :
    Nat → List CondVal → List String → Eval (List CondVal × List String)
  | _, _, [] => .error s!"E1113: {fn}() missing ')'"
  | _, args, ")" :: rest => .ok (args, rest)
  | 0, _, _ => .error s!"E1113: {fn}() missing ')'"
  | fuel + 1, args, tok :: rest =>
    if !args.isEmpty && tok != "," then
      .error s!"E1112: {fn}() missing ',' between arguments"
    else do
      let (a, after) ← evalExpr (if tok = "," then rest else tok :: rest)
      boolArgs evalExpr fn fuel (args ++ [a]) after

/-- `AND`: a false argument decides, the else token bubbles up. -/
def andValue : CondVal → List CondVal → CondVal
  | r, [] => r
  | _, .els :: rest => andValue .els rest
  | r, a :: rest => if a.truthy then andValue r rest else .bool false

/-- `OR`: a true argument decides, the else token bubbles up. -/
def orValue : CondVal → List CondVal → CondVal
  | r, [] => r
  | _, .els :: rest => orValue .els rest
  | r, a :: rest => if a.truthy then .bool true else orValue r rest

def boolCall (fn : String) (args : List CondVal) : Eval CondVal :=
  if fn = "NOT" then
    match args with
    | [.els] => .error "E1115: NOT() cannot operate on __else__"
    | [a] => .ok (.bool (!a.truthy))
    | _ => .error "E1114: NOT() must have exactly 1 argument"
  else if fn = "AND" then .ok (andValue (.bool true) args)
  else .ok (orValue (.bool false) args)

/-- A constant, else `<path> <cmp> <literal>`. -/
def literalOrComparison (tok : String) (rest : List String) (ctx : EdgeCtx) :
    Eval (CondVal × List String) :=
  match _parse_literal tok with
  | some v => .ok (v, rest)
  | none =>
    match rest with
    | op :: rhsTok :: after =>
      if comparisonOps.contains op then
        match _parse_literal rhsTok with
        | none => .error s!"E1116: invalid right side of comparison {rhsTok}"
        | some rhs => do
          let lhs ← _resolve_value_path tok ctx
          let result ← compareValues op lhs rhs
          .ok (.bool result, after)
      else .error s!"E1119: unrecognized token {tok}"
    | _ => .error s!"E1119: unrecognized token {tok}"

/-- `_eval_atom` on the tokens from the index on: its value and the tokens after
it. `fuel` bounds the nesting, at most one level for each token. -/
def _eval_atom (ctx : EdgeCtx) : Nat → List String → Eval (CondVal × List String)
  | _, [] => .error "E1102: expression unexpectedly ended"
  | 0, _ :: _ => .error "E1102: expression unexpectedly ended"
  | fuel + 1, t :: rest =>
    if t = "(" then do
      let (v, after) ← _eval_atom ctx fuel rest
      match after with
      | ")" :: after' => .ok (v, after')
      | _ => .error "E1103: missing matching ')'"
    else if ["success", "failed", "skipped", "cancelled", "status"].contains t
        ∧ rest.head? = some "(" then do
      let (args, after) ← callArgs (_eval_atom ctx fuel) t rest.length true [] rest.tail
      let v ← statusCall t args ctx
      .ok (v, after)
    else if ["AND", "OR", "NOT"].contains t ∧ rest.head? = some "(" then do
      let (args, after) ← boolArgs (_eval_atom ctx fuel) t rest.length [] rest.tail
      let v ← boolCall t args
      .ok (v, after)
    else if t = "__else__" then .ok (.els, rest)
    else literalOrComparison t rest ctx

/-- The value of the condition written on an edge. -/
def evaluate_edge_condition (condition_str : String) (ctx : EdgeCtx) : Eval CondVal :=
  let s := strip condition_str.toList
  if s.isEmpty then .ok (.bool true)
  else if s = "__else__".toList then .ok .els
  else do
    let tokens ← _tokenize s
    if tokens.isEmpty then .ok (.bool true)
    else do
      let (result, after) ← _eval_atom ctx tokens.length tokens
      if after.isEmpty then .ok result
      else .error "E1126: expression has extra content"

private theorem untilQuote_append (body rest : List Char) (h : '\'' ∉ body) :
    untilQuote '\'' (body ++ '\'' :: rest) = some (body, rest) := by
  induction body with
  | nil => simp [untilQuote]
  | cons c cs ih =>
    have hc : c ≠ '\'' := fun heq => h (heq ▸ List.mem_cons_self)
    have hcs : '\'' ∉ cs := fun hmem => h (List.mem_cons_of_mem _ hmem)
    simp [untilQuote, hc, ih hcs]

/-- A token is read, and the loop goes on behind it. -/
private theorem tokenizeLoop_step (fuel : Nat) {c : Char} {cs tok rest : List Char}
    (hspace : isspace c = false) (htok : tokenAt (c :: cs) = some (tok, rest)) :
    tokenizeLoop (fuel + 1) (c :: cs) =
      (tokenizeLoop fuel rest).map (String.ofList tok :: ·) := by
  simp only [tokenizeLoop, hspace, htok, Bool.false_eq_true, if_false]
  rfl

/-- The tokens of `success('<key>')`. -/
private theorem tokenize_success (key : List Char) (h : '\'' ∉ key) :
    _tokenize ("success('".toList ++ key ++ "')".toList) =
      .ok ["success", "(", String.ofList ('\'' :: key ++ ['\'']), ")"] := by
  have hlen : ("success('".toList ++ key ++ "')".toList).length = key.length + 11 := by simp
  have hword : tokenAt ("success('".toList ++ key ++ "')".toList) =
      some ("success".toList, '(' :: '\'' :: (key ++ ['\'', ')'])) := by
    simp [tokenAt, isIdentStart]
    constructor <;> rfl
  have hquoted : tokenAt ('\'' :: (key ++ ['\'', ')'])) = some ('\'' :: key ++ ['\''], [')']) := by
    simp [tokenAt, untilQuote_append key [')'] h]
  unfold _tokenize
  rw [hlen]
  rw [show "success('".toList ++ key ++ "')".toList =
    's' :: ("uccess('".toList ++ key ++ "')".toList) from rfl] at hword ⊢
  rw [tokenizeLoop_step (key.length + 10) (by decide) hword,
    tokenizeLoop_step (key.length + 9) (by decide) rfl,
    tokenizeLoop_step (key.length + 8) (by decide) hquoted,
    tokenizeLoop_step (key.length + 7) (by decide) rfl]
  rfl

/-- A quoted key is a string literal and no other token. -/
theorem quoted_atom (ctx : EdgeCtx) (fuel : Nat) {key : List Char} {q : String}
    (hq : q.toList = '\'' :: (key ++ ['\''])) (rest : List String) :
    _eval_atom ctx (fuel + 1) (q :: rest) = .ok (.val (.str (String.ofList key)), rest) := by
  have hne : ∀ s : String, s.toList.head? ≠ some '\'' → q ≠ s := by
    rintro s hs rfl
    simp [hq] at hs
  have hlast : ('\'' :: (key ++ ['\''])).getLast? = some '\'' := by
    rw [← List.cons_append, List.getLast?_append]
    rfl
  have hliteral : _parse_literal q = some (.val (.str (String.ofList key))) := by
    simp [_parse_literal, hq, hlast, hne "true" (by decide), hne "True" (by decide),
      hne "false" (by decide), hne "False" (by decide), hne "null" (by decide),
      hne "None" (by decide)]
  simp [_eval_atom, literalOrComparison, hliteral, hne "(" (by decide), hne "success" (by decide),
    hne "failed" (by decide), hne "skipped" (by decide), hne "cancelled" (by decide),
    hne "status" (by decide), hne "AND" (by decide), hne "OR" (by decide), hne "NOT" (by decide),
    hne "__else__" (by decide)]

/-- The arguments of `success('<key>')`. -/
private theorem success_args (ctx : EdgeCtx) {key : List Char} {q : String}
    (hq : q.toList = '\'' :: (key ++ ['\''])) :
    callArgs (_eval_atom ctx 3) "success" 3 true [] [q, ")"] =
      .ok ([.val (.str (String.ofList key))], []) := by
  have hne : ∀ s : String, s.toList.head? ≠ some '\'' → q ≠ s := by
    rintro s hs rfl
    simp [hq] at hs
  have hbare : isBareKey q = false := by simp [isBareKey, hq, isIdentStart]
  simp [callArgs, hne ")" (by decide), hne "," (by decide), hbare, quoted_atom ctx 2 hq, bind,
    Except.bind]

/-- `success('<key>')` asks for the status of that node. -/
theorem evaluate_success {key : String} (h : '\'' ∉ key.toList) (ctx : EdgeCtx) :
    evaluate_edge_condition ("success('" ++ key ++ "')") ctx =
      statusCall "success" [.val (.str key)] ctx := by
  have htext : ("success('" ++ key ++ "')").toList =
      "success('".toList ++ key.toList ++ "')".toList := by
    simp
  have hstrip : strip ("success('".toList ++ key.toList ++ "')".toList) =
      "success('".toList ++ key.toList ++ "')".toList := by
    simp [strip, isspace]
  have hempty : ("success('".toList ++ key.toList ++ "')".toList).isEmpty = false := by simp
  have helse : "success('".toList ++ key.toList ++ "')".toList ≠ "__else__".toList := by simp
  have hquoted : ("'" ++ (key ++ "'")).toList = '\'' :: (key.toList ++ ['\'']) := by simp
  have hargs := success_args ctx hquoted
  unfold evaluate_edge_condition
  rw [htext]
  simp only [hstrip, hempty, helse, Bool.false_eq_true, if_false, tokenize_success key.toList h]
  have hatom : _eval_atom ctx 4 ["success", "(", "'" ++ (key ++ "'"), ")"] =
      (statusCall "success" [.val (.str key)] ctx).map fun v => (v, []) := by
    rw [String.ofList_toList] at hargs
    simp [_eval_atom, hargs, bind, Except.bind]
    cases statusCall "success" [.val (.str key)] ctx <;> rfl
  simp [bind, Except.bind, hatom]
  cases statusCall "success" [.val (.str key)] ctx <;> simp [Except.map]

end taurus.engine.executor
