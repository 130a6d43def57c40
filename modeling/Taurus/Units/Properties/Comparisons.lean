import Mathlib.Data.String.Basic
import Taurus.Units.Condition

namespace taurus.units

open taurus.lib taurus.python taurus.engine taurus.engine.runner

variable {c : Char} {l r s : List Char} {op : CompareOp} {vars : Dict String Json}

section numbers

/-! A text that begins with `=` is no number. -/

/-- `s.rstrip()` -/
def rstrip (s : List Char) : List Char := (s.reverse.dropWhile isspace).reverse

theorem strip_cons (hc : isspace c = false) (s : List Char) : strip (c :: s) = c :: rstrip s :=
  trim_cons hc s

theorem strip_number_equals (s : List Char) :
    strip_number ('=' :: s) = '=' :: (s.reverse.dropWhile number_space).reverse :=
  trim_cons (by decide) s

theorem splitOn_cons (sep : Char) (hc : c ≠ sep) (s : List Char) :
    ∃ w ws, splitOn sep (c :: s) = (c :: w) :: ws := by
  rw [splitOn, if_neg hc]
  split
  · exact ⟨[], [], rfl⟩
  · rename_i w ws _
    exact ⟨w, ws, rfl⟩

/-- No digits start with an equals sign. -/
theorem digitsNat?_equals (s : List Char) : digitsNat? ('=' :: s) = none := by
  obtain ⟨w, ws, hsplit⟩ := splitOn_cons '_' (show '=' ≠ '_' by decide) s
  unfold digitsNat?
  rw [hsplit]
  have hdigit : isdecimal '=' = false := by decide
  simp [hdigit]

theorem mantissa?_equals (s : List Char) : mantissa? ('=' :: s) = none := by
  obtain ⟨w, ws, hsplit⟩ := splitOn_cons '.' (show '=' ≠ '.' by decide) s
  unfold mantissa?
  rw [hsplit]
  cases ws with
  | nil => simp [digitsNat?_equals]
  | cons frac ws =>
    cases ws with
    | nil => simp [digitsNat?_equals]
    | cons _ _ => rfl

theorem decimal?_equals (s : List Char) : decimal? ('=' :: s) = none := by
  obtain ⟨w, ws, hsplit⟩ := splitOn_cons 'e' (show '=' ≠ 'e' by decide) s
  unfold decimal?
  rw [hsplit]
  cases ws with
  | nil => simp [mantissa?_equals]
  | cons e ws =>
    cases ws with
    | nil => simp [mantissa?_equals]
    | cons _ _ => rfl

/-- No number does. -/
theorem float?_equals (s : List Char) : float? ('=' :: s) = none := by
  have hlower : ('=' : Char).toLower = '=' := by decide
  unfold float?
  rw [strip_number_equals]
  simp [unsigned?, hlower, decimal?_equals]

/-- No integer does. -/
theorem int?_equals (s : List Char) : int? ('=' :: s) = none := by
  unfold int? short_int?
  rw [strip_number_equals]
  simp [signed?, digitsNat?_equals]

end numbers

section split

/-- A text is split behind a part without the separator. -/
theorem splitOnce_append {sep : List Char} (hc : c ∉ l) (s : List Char) :
    splitOnce (c :: sep) (l ++ s) = (splitOnce (c :: sep) s).map fun parts =>
      (l ++ parts.1, parts.2) := by
  induction l with
  | nil => simp
  | cons d l ih =>
    rw [List.mem_cons, not_or] at hc
    rw [List.cons_append, splitOnce, afterPrefix, if_neg hc.1, ih hc.2, Option.map_map]
    rfl

theorem splitOnce_none {sep : List Char} (hc : c ∉ r) : splitOnce (c :: sep) r = none := by
  rw [← List.append_nil r, splitOnce_append hc]
  rfl

theorem splitOnce_self {sep : List Char} (r : List Char) :
    splitOnce (c :: sep) (c :: sep ++ r) = some ([], r) := by
  rw [List.cons_append, splitOnce, ← List.cons_append, afterPrefix_append]

theorem splitOnce_skip {sep : List Char} {d : Char} (hd : d ≠ c)
    (hs : splitOnce (c :: sep) s = none) :
    splitOnce (c :: sep) (d :: s) = none := by
  rw [splitOnce, afterPrefix, if_neg hd.symm, hs]
  rfl

theorem splitOnce_before {sep : List Char} (hl : c ∉ l) (hs : splitOnce (c :: sep) s = none) :
    splitOnce (c :: sep) (l ++ s) = none := by
  rw [splitOnce_append hl, hs]
  rfl

/-- It is split at the first separator. -/
theorem splitOnce_at {sep : List Char} (hl : c ∉ l) (r : List Char) :
    splitOnce (c :: sep) (l ++ (c :: sep ++ r)) = some (l, r) := by
  rw [splitOnce_append hl, splitOnce_self, Option.map_some, List.append_nil]

/-- A pair of equal signs is not found in a text with one. -/
theorem splitOnce_one_equals (hr : '=' ∉ r) : splitOnce ['=', '='] ('=' :: r) = none := by
  rw [splitOnce]
  cases r with
  | nil => rfl
  | cons d r =>
    rw [List.mem_cons, not_or] at hr
    rw [afterPrefix, if_pos rfl, afterPrefix, if_neg hr.1]
    dsimp only
    rw [splitOnce_none (by simp [hr])]
    rfl

end split

/-- The text has none of the characters that operators are made of. -/
def Plain (s : List Char) : Prop := '=' ∉ s ∧ '!' ∉ s ∧ '<' ∉ s ∧ '>' ∉ s

namespace CompareOp

/-- The operator that an expression with this one is evaluated with. -/
def found : CompareOp → CompareOp
  | ge => gt
  | le => lt
  | op => op

/-- What is left of this operator on the right side then. -/
def rest : CompareOp → List Char
  | ge | le => ['=']
  | _ => []

end CompareOp

namespace ConditionAdapter

variable {expr : List Char} {ops : List CompareOp}

/-- An operator that does not occur is passed over. -/
theorem eval_ops_skip (h : splitOnce op.name.toList expr = none) :
    eval_ops expr vars (op :: ops) = eval_ops expr vars ops := by
  rw [eval_ops, h]

/-- The first one that occurs is applied. -/
theorem eval_ops_found (h : splitOnce op.name.toList expr = some (l, r)) :
    eval_ops expr vars (op :: ops) =
    Operand.apply op (_resolve_value (strip l) vars) (_resolve_value (strip r) vars) := by
  rw [eval_ops, h]

/-- The operators before the one of the expression are not found in it, but the short forms of `>=`
and `<=` are. -/
theorem eval_ops_plain (hl : Plain l) (hr : Plain r) (op : CompareOp) :
    eval_ops (l ++ (op.name.toList ++ r)) vars _ALLOWED_OPS =
      Operand.apply op.found (_resolve_value (strip l) vars)
        (_resolve_value (strip (op.rest ++ r)) vars) := by
  obtain ⟨hl_eq, hl_ne, hl_lt, hl_gt⟩ := hl
  obtain ⟨hr_eq, hr_ne, hr_lt, hr_gt⟩ := hr
  have heq : splitOnce ['=', '='] r = none := splitOnce_none hr_eq
  have hne : splitOnce ['!', '='] r = none := splitOnce_none hr_ne
  have hgt : splitOnce ['>'] r = none := splitOnce_none hr_gt
  have hge : splitOnce ['>', '='] r = none := splitOnce_none hr_gt
  have hone : splitOnce ['=', '='] ('=' :: r) = none := splitOnce_one_equals hr_eq
  cases op with
  | eq => exact eval_ops_found (splitOnce_at hl_eq r)
  | ne =>
    have hno_eq : splitOnce CompareOp.eq.name.toList
        (l ++ (CompareOp.ne.name.toList ++ r)) = none :=
      splitOnce_before hl_eq (splitOnce_skip (by decide) hone)
    rw [_ALLOWED_OPS, eval_ops_skip hno_eq]
    exact eval_ops_found (splitOnce_at hl_ne r)
  | gt =>
    have hno_eq : splitOnce CompareOp.eq.name.toList
        (l ++ (CompareOp.gt.name.toList ++ r)) = none :=
      splitOnce_before hl_eq (splitOnce_skip (by decide) heq)
    have hno_ne : splitOnce CompareOp.ne.name.toList
        (l ++ (CompareOp.gt.name.toList ++ r)) = none :=
      splitOnce_before hl_ne (splitOnce_skip (by decide) hne)
    rw [_ALLOWED_OPS, eval_ops_skip hno_eq, eval_ops_skip hno_ne]
    exact eval_ops_found (splitOnce_at hl_gt r)
  | ge =>
    have hno_eq : splitOnce CompareOp.eq.name.toList
        (l ++ (CompareOp.ge.name.toList ++ r)) = none :=
      splitOnce_before hl_eq (splitOnce_skip (by decide) hone)
    have hno_ne : splitOnce CompareOp.ne.name.toList
        (l ++ (CompareOp.ge.name.toList ++ r)) = none :=
      splitOnce_before hl_ne (splitOnce_skip (by decide) (splitOnce_skip (by decide) hne))
    rw [_ALLOWED_OPS, eval_ops_skip hno_eq, eval_ops_skip hno_ne]
    exact eval_ops_found (splitOnce_at hl_gt ('=' :: r))
  | lt =>
    have hno_eq : splitOnce CompareOp.eq.name.toList
        (l ++ (CompareOp.lt.name.toList ++ r)) = none :=
      splitOnce_before hl_eq (splitOnce_skip (by decide) heq)
    have hno_ne : splitOnce CompareOp.ne.name.toList
        (l ++ (CompareOp.lt.name.toList ++ r)) = none :=
      splitOnce_before hl_ne (splitOnce_skip (by decide) hne)
    have hno_gt : splitOnce CompareOp.gt.name.toList
        (l ++ (CompareOp.lt.name.toList ++ r)) = none :=
      splitOnce_before hl_gt (splitOnce_skip (by decide) hgt)
    have hno_ge : splitOnce CompareOp.ge.name.toList
        (l ++ (CompareOp.lt.name.toList ++ r)) = none :=
      splitOnce_before hl_gt (splitOnce_skip (by decide) hge)
    rw [_ALLOWED_OPS, eval_ops_skip hno_eq, eval_ops_skip hno_ne, eval_ops_skip hno_gt,
      eval_ops_skip hno_ge]
    exact eval_ops_found (splitOnce_at hl_lt r)
  | le =>
    have hno_eq : splitOnce CompareOp.eq.name.toList
        (l ++ (CompareOp.le.name.toList ++ r)) = none :=
      splitOnce_before hl_eq (splitOnce_skip (by decide) hone)
    have hno_ne : splitOnce CompareOp.ne.name.toList
        (l ++ (CompareOp.le.name.toList ++ r)) = none :=
      splitOnce_before hl_ne (splitOnce_skip (by decide) (splitOnce_skip (by decide) hne))
    have hno_gt : splitOnce CompareOp.gt.name.toList
        (l ++ (CompareOp.le.name.toList ++ r)) = none :=
      splitOnce_before hl_gt (splitOnce_skip (by decide) (splitOnce_skip (by decide) hgt))
    have hno_ge : splitOnce CompareOp.ge.name.toList
        (l ++ (CompareOp.le.name.toList ++ r)) = none :=
      splitOnce_before hl_gt (splitOnce_skip (by decide) (splitOnce_skip (by decide) hge))
    rw [_ALLOWED_OPS, eval_ops_skip hno_eq, eval_ops_skip hno_ne, eval_ops_skip hno_gt,
      eval_ops_skip hno_ge]
    exact eval_ops_found (splitOnce_at hl_lt ('=' :: r))

/-- The text that `>=` and `<=` compare the left side with. -/
def right_text (r : List Char) : String := String.ofList ('=' :: rstrip r)

/-- What begins with `=` stands for itself, unless a parameter has such a name. -/
theorem resolve_equals (h : Dict.get? vars (right_text r) = none) :
    _resolve_value (strip ('=' :: r)) vars = .json (.str (right_text r)) := by
  have hquoted : ∀ mark, mark ≠ '=' → quoted? mark ('=' :: rstrip r) = none := by
    intro mark hmark
    unfold quoted?
    rw [if_neg fun hc => hmark (Option.some.inj hc.1).symm]
  unfold right_text at h
  rw [strip_cons (by decide), _resolve_value, hquoted _ (by decide), hquoted _ (by decide),
    int?_equals, float?_equals, h]
  rfl

/-- A number has no order with a text. -/
theorem apply_number_text {left : Operand} (hleft : left.number?.isSome = true) (t : String)
    (hop : op = .gt ∨ op = .lt) :
    ∃ exc, Operand.apply op left (.json (.str t)) = .error exc := by
  have htext : Operand.number? (.json (.str t)) = none := rfl
  obtain ⟨x, hx⟩ := Option.isSome_iff_exists.mp hleft
  unfold Operand.apply
  rw [hx, htext]
  cases left with
  | float y => rcases hop with rfl | rfl <;> exact ⟨_, rfl⟩
  | json v => rcases hop with rfl | rfl <;> cases v <;> first | exact ⟨_, rfl⟩ | cases hx

theorem holds_gt (s t : String) : CompareOp.holds .gt (s < t) (s = t) = decide (t < s) := by
  unfold CompareOp.holds
  obtain h | rfl | h := lt_trichotomy s t
  · simp [h, h.not_gt]
  · simp
  · simp [h, h.not_gt, h.ne']

/-- Texts are compared as texts. -/
theorem apply_texts (op : CompareOp) (s t : String) (hop : op = .gt ∨ op = .lt) :
    Operand.apply op (.json (.str s)) (.json (.str t)) = .ok (op.holds (s < t) (s = t)) := by
  rcases hop with rfl | rfl <;> rfl

/-- The node compares two texts without signs in them, and no parameter has a name that begins
with `=`. -/
structure Compares (params : Dict String Json) (l r : List Char) (op : CompareOp) : Prop where
  expression : Dict.get? params "expression" =
    some (.str (String.ofList (l ++ (op.name.toList ++ r))))
  simple : isText ((Dict.get? params "expression_type").getD (.str "simple")) "simple" = true
  left : Plain l
  right : Plain r
  unnamed : ∀ s, Dict.get? params (String.ofList ('=' :: s)) = none

variable {params : Dict String Json}

/-- The check compares its two operands. -/
theorem Compares.dispatch (h : Compares params l r op) (py : Reprs)
    (eval : Json → Dict String Json → Except Exn Bool) :
    dispatch py eval params =
      answer (Operand.apply op.found
        (_resolve_value (strip l) params) (_resolve_value (strip (op.rest ++ r)) params)) := by
  unfold ConditionAdapter.dispatch
  dsimp only
  rw [h.simple, if_pos rfl, h.expression]
  change answer (eval_ops (String.ofList (l ++ (op.name.toList ++ r))).toList params _ALLOWED_OPS) =
    _
  rw [String.toList_ofList, eval_ops_plain h.left h.right]

/-- `==`, `!=`, `>` and `<` compare the values of the two sides. `>=` and `<=` are never looked for:
they compare the left side by `>` and `<` with the text of the right one after an equal sign, which
fails for every number, and for a text does not depend on what it should be compared with but by
the order of these two texts. -/
theorem comparison_outcome (h : Compares params l r op) (py : Reprs)
    (eval : Json → Dict String Json → Except Exn Bool) :
    (op ≠ .ge → op ≠ .le → dispatch py eval params =
      answer (Operand.apply op (_resolve_value (strip l) params) (_resolve_value (strip r) params))) ∧
    (op = .ge ∨ op = .le → (_resolve_value (strip l) params).number?.isSome = true →
      (dispatch py eval params).status = .FAILED) ∧
    (∀ s, _resolve_value (strip l) params = .json (.str s) →
      (op = .ge → dispatch py eval params = answer (.ok (decide (right_text r < s)))) ∧
      (op = .le → dispatch py eval params = answer (.ok (decide (s < right_text r))))) := by
  refine ⟨fun hge hle => ?_, fun hop hleft => ?_, fun s hs => ⟨?_, ?_⟩⟩
  · rw [h.dispatch]
    cases op with
    | ge => exact absurd rfl hge
    | le => exact absurd rfl hle
    | eq => rfl
    | ne => rfl
    | gt => rfl
    | lt => rfl
  · have hfound : op.found = .gt ∨ op.found = .lt := by
      obtain rfl | rfl := hop
      · exact Or.inl rfl
      · exact Or.inr rfl
    have hrest : op.rest ++ r = '=' :: r := by rcases hop with rfl | rfl <;> rfl
    obtain ⟨exc, hexc⟩ := apply_number_text hleft (right_text r) hfound
    rw [h.dispatch, hrest, resolve_equals (h.unnamed _), hexc]
    rfl
  · rintro rfl
    rw [h.dispatch]
    change answer (Operand.apply .gt _ (_resolve_value (strip ('=' :: r)) params)) = _
    rw [hs, resolve_equals (h.unnamed _), apply_texts _ _ _ (Or.inl rfl), holds_gt]
  · rintro rfl
    rw [h.dispatch]
    change answer (Operand.apply .lt _ (_resolve_value (strip ('=' :: r)) params)) = _
    rw [hs, resolve_equals (h.unnamed _), apply_texts _ _ _ (Or.inr rfl)]
    rfl

/-- Five against a limit of three. -/
def limit_check (op : CompareOp) : Dict String Json :=
  [("expression", .str (String.ofList ("count ".toList ++ (op.name.toList ++ " 3".toList)))),
    ("count", .int 5)]

theorem limit_check_compares (op : CompareOp) :
    Compares (limit_check op) "count ".toList " 3".toList op where
  expression := rfl
  simple := rfl
  left := by unfold Plain; decide
  right := by unfold Plain; decide
  unnamed s := by
    have hexpression : "expression" ≠ String.ofList ('=' :: s) := by
      intro h
      simpa using congrArg String.toList h
    have hcount : "count" ≠ String.ofList ('=' :: s) := by
      intro h
      simpa using congrArg String.toList h
    rw [limit_check, Dict.get?_cons, if_neg hexpression, Dict.get?_cons, if_neg hcount]
    rfl

/-- The node is asked whether the count is at least three, and fails; asked whether it is more than
three, it takes the true branch. -/
theorem five_not_at_least_three :
    (dispatch Reprs.short (fun _ _ => .ok false) (limit_check .ge)).status = .FAILED ∧
      (dispatch Reprs.short (fun _ _ => .ok false) (limit_check .gt)).status = .SUCCESS := by
  refine ⟨(comparison_outcome (limit_check_compares .ge) _ _).2.1 (Or.inl rfl) (by decide +kernel),
    ?_⟩
  rw [(comparison_outcome (limit_check_compares .gt) _ _).1 (by decide) (by decide)]
  decide +kernel

end ConditionAdapter

end taurus.units
