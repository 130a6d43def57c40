import Taurus.Engine.Runner.EngineFields
import Taurus.Engine.Runner.Passes
import Taurus.Units.Wait

namespace taurus.units

open taurus.lib taurus.python taurus.engine taurus.engine.runner

def _ALLOWED_TYPES : List String := ["count", "for_each", "while"]

def _MAX_ITERATIONS : Int := 10000

def _MAX_CONCURRENCY : Int := 64

/-- `type(v).__name__` -/
def type_name : Json → String
  | .null => "NoneType"
  | .bool _ => "bool"
  | .int _ => "int"
  | .float _ => "float"
  | .str _ => "str"
  | .arr _ => "list"
  | .obj _ => "dict"

/-- `(v or "").strip()` -/
def stripped (v : Json) : Except Exn String :=
  match orElse v (.str "") with
  | .str s => .ok (String.ofList (strip s.toList))
  | v => .error (.other "AttributeError" s!"'{type_name v}' object has no attribute 'strip'")

/-- `int(v)`, with the text of its exception. -/
def int_of (v : Json) : Except Exn Int :=
  match int_of? v with
  | some n => .ok n
  | none =>
    match v with
    | .str s => .error (.ValueError s!"invalid literal for int() with base 10: '{s}'")
    | v => .error (.other "TypeError"
        s!"int() argument must be a string, a bytes-like object or a real number, not '{type_name v}'")

/-- The check of a whole number between 1 and `max`. -/
def check_int (name code : String) (max : Int) (v : Json) (r : ValidationResult) :
    ValidationResult :=
  match int_of? v with
  | some c =>
    if c < 1 ∨ max < c then
      add_error r s!"/params/{name}" s!"{code}: {name} range [1, {max}]"
    else r
  | none => add_error r s!"/params/{name}" s!"{code}: {name} must be an integer"

/-- The check of a text that must not be blank. -/
def check_text (params : Dict String Json) (name message : String) (r : ValidationResult) :
    Except Exn ValidationResult := do
  let text ← stripped (getJson params name)
  pure (if text = "" then add_error r s!"/params/{name}" message else r)

namespace LoopAdapter

/-- The check of the loop type. The types of the message are a set, in any order. -/
def check_type (ltype : String) : ValidationResult :=
  if ltype = "" then add_error {} "/params/loop_type" "E1001: loop_type is required"
  else if !_ALLOWED_TYPES.contains ltype then
    add_error {} "/params/loop_type" s!"E1001: loop_type must be in {_ALLOWED_TYPES}"
  else {}

def check_count (params : Dict String Json) (r : ValidationResult) : ValidationResult :=
  match getJson params "count" with
  | .null => add_error r "/params/count" "E1002: count is required under count mode"
  | count => check_int "count" "E1002" _MAX_ITERATIONS count r

/-- `params.get("items_source") or "manual"` -/
def items_source (params : Dict String Json) : Json :=
  orElse (getJson params "items_source") (.str "manual")

def check_items (params : Dict String Json) (r : ValidationResult) : Except Exn ValidationResult :=
  let required :=
    add_error r "/params/items" "E1003: items is required and non-empty under for_each manual mode"
  if isText (items_source params) "manual" then
    match getJson params "items" with
    | .null | .arr [] => .ok required
    | _ => .ok r
  else if isText (items_source params) "upstream" then
    check_text params "items_ref" "E1003: items_ref is required under for_each upstream reference mode" r
  else .ok r

def check_concurrency (params : Dict String Json) (r : ValidationResult) : ValidationResult :=
  match getJson params "max_concurrency" with
  | .null => r
  | concurrency => check_int "max_concurrency" "E1004" _MAX_CONCURRENCY concurrency r

def validate_config (params : Dict String Json) : Except Exn ValidationResult := do
  let ltype ← stripped (getJson params "loop_type")
  let r := check_type ltype
  let r := if ltype = "count" then check_count params r else r
  let r ← (if ltype = "for_each" then check_items params r else .ok r)
  let r ← (if ltype = "count" ∨ ltype = "for_each" then
      check_text params "body_node_type" "E1005: body_node_type is required under count/for_each mode" r
    else .ok r)
  let r ← (if ltype = "while" then
      check_text params "condition_expression" "E1003: condition_expression is required under while mode" r
    else .ok r)
  pure (check_concurrency params r)

variable (loads : String → Option Json) (py : Reprs)

/-- The items of a for_each loop given by hand; `loads` is `json.loads`. -/
def manual_items (params : Dict String Json) : List Json :=
  let items := match orElse (getJson params "items") (.arr []) with
    | .str s => (loads s).getD (.arr [])
    | items => items
  (iterate items).getD []

/-- `params.get("items_ref")` of a loop over an upstream result. -/
def upstream_ref (source : Json) (params : Dict String Json) : Bool :=
  isText source "upstream" && (getJson params "items_ref").truthy

/-- The items and the count of a loop; none is an unknown type. -/
def planned (params : Dict String Json) (ltype : Json) : Except Exn (Option (List Json × Int)) :=
  if isText ltype "count" then do
    let count ← int_of ((Dict.get? params "count").getD (.int 1))
    pure (some ((List.range count.toNat).map fun i => .int i, count))
  else if isText ltype "for_each" then
    if upstream_ref (items_source params) params then .ok (some ([], 0))
    else
      let items := manual_items loads params
      .ok (some (items, items.length))
  else if isText ltype "while" then .ok (some ([], 0))
  else .ok none

/-- `str(params.get(name) or default)` -/
def text_or (params : Dict String Json) (name default : String) : Json :=
  .str (py.str (orElse (getJson params name) (.str default)))

/-- The state that tells the engine how to run the loop. -/
def output_state (params : Dict String Json) (ltype : Json) (loop_items : List Json)
    (loop_count : Int) :
    Except Exn (Dict String Json) := do
  let max_concurrency ← int_of (orElse (getJson params "max_concurrency") (.int 1))
  let state : Dict String Json :=
    [("loop_type", ltype), ("loop_count", .int loop_count), ("loop_items", .arr loop_items),
      ("max_concurrency", .int max_concurrency),
      ("break_on_error", .bool ((Dict.get? params "break_on_error").getD (.bool true)).truthy),
      ("body_node_type", text_or py params "body_node_type" ""),
      ("body_params", orElse (getJson params "body_params") (.obj [])),
      ("aggregation", text_or py params "aggregation" "collect_all"),
      ("fail_strategy", text_or py params "fail_strategy" "fail_fast")]
  let state ← (if isText ltype "while" then do
      let max_iterations ← int_of (orElse (getJson params "max_iterations") (.int _MAX_ITERATIONS))
      pure (state ++ [("loop_condition", (Dict.get? params "condition_expression").getD (.str "")),
        ("loop_max_iterations", .int max_iterations)])
    else .ok state)
  if isText ltype "for_each" then
    let source := ("items_source", text_or py params "items_source" "manual")
    if upstream_ref (getJson params "items_source") params then
      pure (state ++ [source, ("items_ref", getJson params "items_ref")])
    else pure (state ++ [source])
  else pure state

def failed (message : String) : UnitOutput :=
  { status := .FAILED, error_message := some message, exit_code := some 1 }

def dispatch (cfg : RenderedNodeConfig) : UnitOutput :=
  let ltype := (Dict.get? cfg.params "loop_type").getD (.str "count")
  match planned loads cfg.params ltype with
  | .error e => failed s!"E1003: {e.text}"
  | .ok none => failed s!"E1001: loop_type={py.str ltype} invalid"
  | .ok (some (loop_items, loop_count)) =>
    match output_state py cfg.params ltype loop_items loop_count with
    | .error e => failed s!"E1003: {e.text}"
    | .ok state =>
      { status := .SUCCESS, output := state, adapter_state := some state, exit_code := some 0 }

end LoopAdapter

/-- The adapter of loop nodes, as a call of the runner finds it. -/
def LoopAdapter (loads : String → Option Json) (py : Reprs) (env : Env) : Adapter where
  node_type := "loop"
  requires_host := false
  construct := .ok ()
  validate_and_render := fun params context => do
    let vr ← LoopAdapter.validate_config params
    if vr.ok then
      let rendered ← env.render_structure context params
      pure { params := some rendered }
    else
      let errors := vr.errors.map fun (ptr, msgs) => (ptr, Json.arr (msgs.map .str))
      .error (.ValueError s!"Loop validation failed: {py.repr (.obj errors)}")
  validate_config := LoopAdapter.validate_config
  dispatch := fun cfg => .ok (LoopAdapter.dispatch loads py cfg)
  poll :=
    fun _ _ => .ok { status := .SUCCESS, output := [("note", .str "loop is a synchronous node")] }
  cancel := fun _ _ => .ok
    { status := .CANCELLED
      output := [("cancelled", .bool false), ("reason", .str "loop is a synchronous node")] }

/-- An error in a result stays. -/
theorem add_error_not_ok (r : ValidationResult) (field_ptr message : String) :
    (add_error r field_ptr message).ok = false :=
  rfl

/-- A checked number is within its bounds. -/
theorem check_int_ok {name code : String} {max : Int} {v : Json} {r : ValidationResult}
    (h : (check_int name code max v r).ok = true) : ∃ c, int_of? v = some c ∧ 1 ≤ c ∧ c ≤ max := by
  unfold check_int at h
  cases hv : int_of? v with
  | none => simp only [hv, add_error_not_ok, Bool.false_eq_true] at h
  | some c =>
    simp only [hv] at h
    split_ifs at h with hrange
    · simp only [add_error_not_ok, Bool.false_eq_true] at h
    · exact ⟨c, rfl, by omega, by omega⟩

namespace LoopAdapter

theorem check_concurrency_ok {params : Dict String Json} {r : ValidationResult}
    (h : (check_concurrency params r).ok = true) : getJson params "max_concurrency" = .null ∨
      ∃ c, int_of? (getJson params "max_concurrency") = some c ∧ 1 ≤ c ∧ c ≤ _MAX_CONCURRENCY := by
  unfold check_concurrency at h
  split at h
  · next hnull => exact Or.inl hnull
  · exact Or.inr (check_int_ok h)

/-- The check of the limit is the last one. -/
theorem validate_config_concurrency {params : Dict String Json} {r : ValidationResult}
    (h : validate_config params = .ok r) : ∃ r', r = check_concurrency params r' := by
  unfold validate_config at h
  obtain ⟨ltype, -, h⟩ := bind_eq_ok.mp h
  obtain ⟨r₁, -, h⟩ := bind_eq_ok.mp h
  obtain ⟨r₂, -, h⟩ := bind_eq_ok.mp h
  obtain ⟨r₃, -, h⟩ := bind_eq_ok.mp h
  exact ⟨r₃, (Except.ok.inj h).symm⟩

theorem int_of_of_some {v : Json} {c : Int} (h : int_of? v = some c) : int_of v = .ok c := by
  unfold int_of
  rw [h]

/-- `int` of a falsy value is no positive number. -/
theorem truthy_of_int_of {v : Json} {c : Int} (hc : int_of? v = some c) (hone : 1 ≤ c) :
    v.truthy = true := by
  cases hv : v.truthy with
  | true => rfl
  | false =>
    exfalso
    cases v with
    | null | arr | obj => cases hc
    | bool b =>
      obtain rfl : b = false := hv
      obtain rfl : 0 = c := Option.some.inj hc
      omega
    | int n =>
      obtain rfl : n = 0 := by simpa [Json.truthy] using hv
      obtain rfl : 0 = c := Option.some.inj hc
      omega
    | float q =>
      obtain rfl : q = 0 := by simpa [Json.truthy] using hv
      obtain rfl : (0 : Rat).floor = c := Option.some.inj hc
      exact absurd hone (by decide)
    | str s =>
      obtain rfl : s = "" := by simpa [Json.truthy] using hv
      exact absurd hc (by simp [(by decide : int_of? (.str "") = none)])

/-- A limit that passes its check is the one reported; without one it is 1. -/
theorem reported_of_checked {v : Json} {m : Int} (hchecked : v = .null ∨
    ∃ c, int_of? v = some c ∧ 1 ≤ c ∧ c ≤ _MAX_CONCURRENCY)
    (hm : int_of (orElse v (.int 1)) = .ok m) :
    1 ≤ m ∧ m ≤ _MAX_CONCURRENCY := by
  obtain rfl | ⟨c, hc, hone, hmax⟩ := hchecked
  · obtain rfl : 1 = m := Except.ok.inj hm
    decide
  · rw [orElse, if_pos (truthy_of_int_of hc hone), int_of_of_some hc] at hm
    obtain rfl : c = m := Except.ok.inj hm
    exact ⟨hone, hmax⟩

/-- The reported limit is the one of the params. -/
theorem output_state_limit {params state : Dict String Json} {ltype : Json} {items : List Json}
    {count m : Int} (h : output_state py params ltype items count = .ok state)
    (hm : getJson state "max_concurrency" = .int m) :
    int_of (orElse (getJson params "max_concurrency") (.int 1)) = .ok m := by
  obtain ⟨limit, hlimit, h⟩ := bind_eq_ok.mp h
  obtain ⟨state₁, hwhile, h⟩ := bind_eq_ok.mp h
  have hfirst : Dict.get? state₁ "max_concurrency" = some (.int limit) := by
    split_ifs at hwhile
    · obtain ⟨max_iterations, -, hwhile⟩ := bind_eq_ok.mp hwhile
      obtain rfl := Except.ok.inj hwhile
      rfl
    · obtain rfl := Except.ok.inj hwhile
      rfl
  have hkept : ∀ more, getJson (state₁ ++ more) "max_concurrency" = .int limit := by
    intro more
    rw [getJson, Dict.get?_append, hfirst]
    rfl
  have hmax : getJson state "max_concurrency" = .int limit := by
    simp only at h
    split_ifs at h
    · exact Except.ok.inj h ▸ hkept _
    · exact Except.ok.inj h ▸ hkept _
    · obtain rfl := Except.ok.inj h
      rw [getJson, hfirst]
      rfl
  rw [hlimit, Json.int.inj (hmax.symm.trans hm)]

/-- The limit that the adapter reports for accepted params is in the allowed range. -/
theorem dispatch_limit {cfg : RenderedNodeConfig} {r : ValidationResult} {m : Int}
    (h : validate_config cfg.params = .ok r) (hok : r.ok = true)
    (hm : getJson (dispatch loads py cfg).output "max_concurrency" = .int m) :
    1 ≤ m ∧ m ≤ _MAX_CONCURRENCY := by
  obtain ⟨r', rfl⟩ := validate_config_concurrency h
  refine reported_of_checked (check_concurrency_ok hok) ?_
  unfold dispatch at hm
  simp only at hm
  split at hm
  · cases hm
  · cases hm
  · split at hm
    · cases hm
    · next state hstate => exact output_state_limit hstate hm

end LoopAdapter

end taurus.units
