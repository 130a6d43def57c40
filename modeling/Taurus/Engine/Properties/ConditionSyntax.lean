import Taurus.Engine.Executor.Grammar
import Taurus.Engine.Properties.Acyclicity
import Taurus.Engine.Properties.ConditionMeaning
import Taurus.Engine.Properties.DeadEnds
import Taurus.Engine.Runner.EngineFields

namespace taurus.engine.executor

open taurus.lib taurus.python taurus.engine.registry taurus.engine.dag_validator

variable {ctx : EdgeCtx}

/-- The message has a code of a text that is no condition: E1100 to E1119, or E1126. -/
def is_parse_error (message : String) : Bool :=
  match message.toList with
  | 'E' :: '1' :: '1' :: tens :: ones :: _ =>
    ((tens = '0' || tens = '1') && ones.isDigit) || (tens = '2' && ones = '6')
  | _ => false

/-- The message an evaluation fails with. -/
def failure? {α : Type} : Eval α → Option String
  | .ok _ => none
  | .error message => some message

theorem failure?_eq_some_iff {α : Type} {r : Eval α} {message : String} :
    failure? r = some message ↔ r = .error message := by
  cases r <;> simp [failure?]

section messages

/-- The code stands at the start of a message. -/
theorem is_parse_error_append {s : String} (h : 5 ≤ s.toList.length) (t : String) :
    is_parse_error (s ++ t) = is_parse_error s := by
  unfold is_parse_error
  rw [String.toList_append]
  match hs : s.toList with
  | c₁ :: c₂ :: c₃ :: c₄ :: c₅ :: rest =>
    rw [List.cons_append, List.cons_append, List.cons_append, List.cons_append, List.cons_append]
    split <;> split <;> simp_all
  | [] | [_] | [_, _] | [_, _, _] | [_, _, _, _] => simp [hs] at h

theorem parse_error_append {s : String} (h : is_parse_error s = true) (t : String) :
    is_parse_error (s ++ t) = true := by
  rw [is_parse_error_append _ t, h]
  unfold is_parse_error at h
  split at h
  · next heq => simp [heq]
  · cases h

/-- A message that gives the code, a name and some more. -/
theorem parse_error_named {s : String} (h : is_parse_error s = true) (name t : String) :
    is_parse_error (s ++ name ++ t) = true :=
  parse_error_append (parse_error_append h name) t

/-- What the tokenizer raises is an error of the syntax. -/
theorem tokenizeLoop_error {fuel : Nat} {cs : List Char} {m : String}
    (h : tokenizeLoop fuel cs = .error m) :
    is_parse_error m = true := by
  induction fuel generalizing cs m with
  | zero => cases cs <;> simp [tokenizeLoop] at h
  | succ fuel ih =>
    cases cs with
    | nil => simp [tokenizeLoop] at h
    | cons c cs =>
      rw [tokenizeLoop] at h
      split_ifs at h
      · exact ih h
      · cases htok : tokenAt (c :: cs) with
        | none =>
          rw [htok] at h
          obtain rfl := Except.error.inj h
          simp [is_parse_error]
        | some r =>
          obtain ⟨tok, rest⟩ := r
          cases hmore : tokenizeLoop fuel rest with
          | error m' =>
            simp [htok, hmore, bind, Except.bind] at h
            rw [← h]
            exact ih hmore
          | ok more => simp [htok, hmore, bind, Except.bind, pure, Except.pure] at h

variable {parseAtom : List String → Parse (Tree × List String)}

theorem readCallArgs_error
    (hatom : ∀ ts b, parseAtom ts = .error b → is_parse_error b.message = true) (fn : String)
    (fuel : Nat) {first : Bool} {args : List Tree} {ts : List String} {b : Broken}
    (h : readCallArgs parseAtom fn fuel first args ts = .error b) :
    is_parse_error b.message = true := by
  fun_induction readCallArgs parseAtom fn fuel first args ts with
  | case1 | case3 | case4 | case5 | case6 =>
    obtain rfl := Except.error.inj h
    exact parse_error_named (by simp [is_parse_error, toString]) _ _
  | case2 => cases h
  | case7 | case9 =>
    rename_i ih
    exact ih h
  | case8 =>
    rename_i hbroken
    obtain rfl := Except.error.inj h
    have hmessage := hatom _ _ hbroken
    exact hmessage

theorem readBoolArgs_error
    (hatom : ∀ ts b, parseAtom ts = .error b → is_parse_error b.message = true) (fn : String)
    (fuel : Nat) {args : List Tree} {ts : List String} {b : Broken}
    (h : readBoolArgs parseAtom fn fuel args ts = .error b) : is_parse_error b.message = true := by
  fun_induction readBoolArgs parseAtom fn fuel args ts with
  | case1 | case3 | case4 =>
    obtain rfl := Except.error.inj h
    exact parse_error_named (by simp [is_parse_error, toString]) _ _
  | case2 => cases h
  | case5 =>
    rename_i hbroken
    obtain rfl := Except.error.inj h
    have hmessage := hatom _ _ hbroken
    exact hmessage
  | case6 =>
    rename_i ih
    exact ih h

theorem readLiteral_error {tok : String} {rest : List String} {b : Broken}
    (h : readLiteral tok rest = .error b) :
    is_parse_error b.message = true := by
  unfold readLiteral at h
  split at h
  · cases h
  · split at h
    · split_ifs at h
      · split at h
        · obtain rfl := Except.error.inj h
          exact parse_error_append (by simp [is_parse_error, toString]) _
        · cases h
      · obtain rfl := Except.error.inj h
        exact parse_error_append (by simp [is_parse_error, toString]) _
    · obtain rfl := Except.error.inj h
      exact parse_error_append (by simp [is_parse_error, toString]) _

/-- Whatever stops the reader is a parse error. -/
theorem readAtom_error {fuel : Nat} {ts : List String} {b : Broken}
    (h : readAtom fuel ts = .error b) :
    is_parse_error b.message = true := by
  induction fuel generalizing ts b with
  | zero =>
    cases ts <;> obtain rfl := Except.error.inj h <;> simp [is_parse_error]
  | succ fuel ih =>
    cases ts with
    | nil =>
      obtain rfl := Except.error.inj h
      simp [is_parse_error]
    | cons t rest =>
      rw [readAtom] at h
      split_ifs at h with hopen hcall hbool helse
      · split at h
        · next b' hb =>
          obtain rfl := Except.error.inj h
          exact ih hb
        · cases h
        · obtain rfl := Except.error.inj h
          exact (by simp [is_parse_error] : is_parse_error "E1103: missing matching ')'" = true)
      · split at h
        · next b' hb =>
          obtain rfl := Except.error.inj h
          exact readCallArgs_error (fun ts b => ih) t _ hb
        · cases h
      · split at h
        · next b' hb =>
          obtain rfl := Except.error.inj h
          exact readBoolArgs_error (fun ts b => ih) t _ hb
        · cases h
      · exact readLiteral_error h

theorem readCondition_error {cond : String} {b : Broken} (h : readCondition cond = .error b) :
    is_parse_error b.message = true := by
  unfold readCondition at h
  simp only at h
  split_ifs at h
  split at h
  · next m htokens =>
    obtain rfl := Except.error.inj h
    exact tokenizeLoop_error htokens
  · next tokens _ =>
    split_ifs at h
    split at h
    · next b' hb =>
      obtain rfl := Except.error.inj h
      exact readAtom_error hb
    · split_ifs at h
      obtain rfl := Except.error.inj h
      exact (by simp [is_parse_error] : is_parse_error "E1126: expression has extra content" = true)

end messages

section steps

/-- The text of a text constant. -/
def Tree.text? : Tree → Option String
  | .const v => v.text?
  | _ => none

/-- The message of a predicate for the texts of its arguments, if they do not fit. -/
def call_defect (fn : String) : List (Option String) → Option String
  | some _ :: more =>
    if (status_map fn).isSome then
      if more.isEmpty then none else some s!"E1108: {fn}() must have exactly 1 argument"
    else
      match more with
      | [some name] =>
        if (expected_map name).isSome then
          none
        else some s!"E1110: status() unknown status name {name}"
      | _ => some "E1109: status(k, 'SUCCESS') requires 2 arguments"
  | _ => some s!"E1107: {fn}() first argument must be node_key string"

/-- The message a part fails with, where its own parts do not. -/
def Tree.failure (ctx : EdgeCtx) : Tree → Option String
  | .const _ => none
  | .els => none
  | .compare path op rhs => failure? ((Tree.compare path op rhs).run ctx)
  | .call fn args => call_defect fn (args.map Tree.text?)
  | .bool fn args =>
    if fn = "NOT" then
      match args with
      | [a] =>
        match a.run ctx with
        | .ok .els => some "E1115: NOT() cannot operate on __else__"
        | _ => none
      | _ => some "E1114: NOT() must have exactly 1 argument"
    else none

/-- Whether a predicate fails is a matter of the texts of its arguments, and its
value is no text. -/
theorem statusCall_spec (fn : String) (args : List CondVal) :
    failure? (statusCall fn args ctx) = call_defect fn (args.map CondVal.text?) ∧
      ∀ v, statusCall fn args ctx = .ok v → v.text? = none := by
  obtain _ | ⟨key, more⟩ := args
  · simp [statusCall, failure?, call_defect]
  cases hkey : key.text? with
  | none =>
    have hcall : statusCall fn (key :: more) ctx =
        .error s!"E1107: {fn}() first argument must be node_key string" := by
      unfold statusCall
      split
      · next heq =>
        obtain ⟨rfl, rfl⟩ := List.cons.inj heq
        simp [CondVal.text?, Json.str?] at hkey
      · rfl
    simp [hcall, failure?, call_defect, hkey]
  | some k =>
    obtain rfl := CondVal.text?_eq_some_iff.mp hkey
    cases hfn : status_map fn with
    | some want =>
      cases more <;>
        simp [statusCall, hfn, failure?, call_defect, CondVal.bool, CondVal.text?, Json.str?]
    | none =>
      obtain _ | ⟨name, _ | ⟨third, rest⟩⟩ := more
      · simp [statusCall, hfn, failure?, call_defect, hkey]
      · cases hname : name.text? with
        | none =>
          have hcall : statusCall fn [.val (.str k), name] ctx =
              .error "E1109: status(k, 'SUCCESS') requires 2 arguments" := by
            simp only [statusCall, hfn]
            split
            · next heq =>
              obtain ⟨rfl, -⟩ := List.cons.inj heq
              simp [CondVal.text?, Json.str?] at hname
            · rfl
          simp [hcall, hfn, failure?, call_defect, hkey, hname]
        | some n =>
          obtain rfl := CondVal.text?_eq_some_iff.mp hname
          cases hwant : expected_map n <;>
            simp [statusCall, hfn, hwant, failure?, call_defect, CondVal.bool,
              CondVal.text?, Json.str?]
      · simp [statusCall, hfn, failure?, call_defect, hkey]

theorem andValue_text {r : CondVal} (h : r.text? = none) (args : List CondVal) :
    (andValue r args).text? = none := by
  induction args generalizing r with
  | nil => exact h
  | cons a rest ih =>
    cases a with
    | els => exact ih rfl
    | val v | float v =>
      rw [andValue]
      · split_ifs
        · exact ih h
        · rfl
      · simp

theorem orValue_text {r : CondVal} (h : r.text? = none) (args : List CondVal) :
    (orValue r args).text? = none := by
  induction args generalizing r with
  | nil => exact h
  | cons a rest ih =>
    cases a with
    | els => exact ih rfl
    | val v | float v =>
      rw [orValue]
      · split_ifs
        · rfl
        · exact ih h
      · simp

/-- No operator gives a text. -/
theorem boolCall_text {fn : String} {args : List CondVal} {v : CondVal}
    (h : boolCall fn args = .ok v) :
    v.text? = none := by
  unfold boolCall at h
  split_ifs at h
  · split at h
    · cases h
    · obtain rfl := Except.ok.inj h
      rfl
    · cases h
  · obtain rfl := Except.ok.inj h
    exact andValue_text rfl args
  · obtain rfl := Except.ok.inj h
    exact orValue_text rfl args

/-- Only a text constant has a text for its value. -/
theorem Tree.run_text {t : Tree} {v : CondVal} (h : t.run ctx = .ok v) : v.text? = t.text? := by
  cases t with
  | const w =>
    obtain rfl := Except.ok.inj h
    rfl
  | els =>
    obtain rfl := Except.ok.inj h
    rfl
  | compare path op rhs =>
    obtain ⟨lhs, -, h⟩ := bind_eq_ok.mp h
    obtain ⟨result, -, h⟩ := bind_eq_ok.mp h
    obtain rfl := Except.ok.inj h
    rfl
  | call fn args =>
    obtain ⟨vs, -, h⟩ := bind_eq_ok.mp h
    exact (statusCall_spec fn vs).2 v h
  | bool fn args =>
    obtain ⟨vs, -, h⟩ := bind_eq_ok.mp h
    exact boolCall_text h

/-- The arguments that are texts are so in every context. -/
theorem runs_text {ts : List Tree} {vs : List CondVal} (h : runs ctx ts = .ok vs) :
    vs.map CondVal.text? = ts.map Tree.text? := by
  induction ts generalizing vs with
  | nil =>
    obtain rfl := Except.ok.inj h
    rfl
  | cons t ts ih =>
    obtain ⟨v, hv, h⟩ := bind_eq_ok.mp h
    obtain ⟨vs', hvs, h⟩ := bind_eq_ok.mp h
    obtain rfl := Except.ok.inj h
    rw [List.map_cons, List.map_cons, Tree.run_text hv, ih hvs]

/-- `NOT` takes one argument that is not the else token. -/
theorem boolCall_failure {fn : String} {args : List Tree} {vs : List CondVal}
    (h : runs ctx args = .ok vs) :
    failure? (boolCall fn vs) = (Tree.bool fn args).failure ctx := by
  unfold boolCall
  simp only [Tree.failure]
  split_ifs with hnot hand
  · obtain _ | ⟨a, _ | ⟨b, rest⟩⟩ := args
    · obtain rfl := Except.ok.inj h
      rfl
    · obtain ⟨v, hv, h⟩ := bind_eq_ok.mp h
      obtain rfl := Except.ok.inj h
      simp only [hv]
      cases v <;> rfl
    · have hlength := runs_length ctx h
      obtain _ | ⟨v, _ | ⟨w, vs⟩⟩ := vs
      · simp at hlength
      · simp at hlength
      · cases v <;> rfl
  · rfl
  · rfl

theorem failure?_bind {α β : Type} (x : Eval α) (f : α → Eval β) :
    failure? (x >>= f) =
      match x with
      | .ok a => failure? (f a)
      | .error message => some message := by
  cases x <;> rfl

/-- The evaluation of a part fails with its own message after those of its own parts. -/
theorem failure?_last {α : Type} {x : Eval α} {f : α → Eval CondVal} {before : List Tree} {t : Tree}
    (hbefore : failure? x = before.findSome? (Tree.failure ctx))
    (hown : ∀ a, x = .ok a → failure? (f a) = t.failure ctx) :
    failure? (x >>= f) = (before ++ [t]).findSome? (Tree.failure ctx) := by
  rw [List.findSome?_append, ← hbefore, failure?_bind]
  cases x with
  | error m => rfl
  | ok a =>
    have hlast := hown a rfl
    simp only [List.findSome?_cons, List.findSome?_nil, ← hlast]
    cases failure? (f a) <;> rfl

mutual

/-- The first part that fails decides. -/
theorem Tree.failure_run (ctx : EdgeCtx) :
    ∀ t : Tree, failure? (t.run ctx) = t.steps.findSome? (Tree.failure ctx)
  | .const v => rfl
  | .els => rfl
  | .compare path op rhs => by
    simp only [Tree.steps, List.findSome?_cons, List.findSome?_nil, Tree.failure]
    cases failure? ((Tree.compare path op rhs).run ctx) <;> rfl
  | .call fn args => by
    rw [Tree.run, Tree.steps]
    apply failure?_last (failure_runs ctx args)
    intro vs hvs
    rw [(statusCall_spec fn vs).1, runs_text hvs]
    rfl
  | .bool fn args => by
    rw [Tree.run, Tree.steps]
    apply failure?_last (failure_runs ctx args)
    intro vs hvs
    exact boolCall_failure hvs

/-- Arguments fail with the first of their parts that fails. -/
theorem failure_runs (ctx : EdgeCtx) :
    ∀ ts : List Tree, failure? (runs ctx ts) = (stepsOf ts).findSome? (Tree.failure ctx)
  | [] => rfl
  | t :: ts => by
    rw [runs, stepsOf, List.findSome?_append, ← t.failure_run ctx, ← failure_runs ctx ts]
    cases t.run ctx with
    | error m => rfl
    | ok v => cases runs ctx ts <;> rfl

end

end steps

section paths

theorem walkDict_error {code : String} {v : Json} {steps : List String} {m : String}
    (h : walkDict code v steps = .error m) : ∃ t, m = code ++ t := by
  induction steps generalizing v with
  | nil => cases v <;> cases h
  | cons s steps ih =>
    cases v with
    | obj kvs =>
      rw [walkDict] at h
      split at h
      · cases h
      · exact ih h
    | _ => exact ⟨_, (Except.error.inj h).symm.trans (String.append_assoc ..)⟩

/-- A value path never ends in a parse error. -/
theorem resolve_error {path m : String} (h : _resolve_value_path path ctx = .error m) :
    is_parse_error m = false := by
  have hwalk : ∀ {code : String} {v : Json} {steps : List String}, 5 ≤ code.toList.length →
      is_parse_error code = false → walkDict code v steps = .error m →
        is_parse_error m = false := by
    intro code v steps hlength hcode hfailed
    obtain ⟨t, rfl⟩ := walkDict_error hfailed
    rw [is_parse_error_append hlength, hcode]
  unfold _resolve_value_path at h
  split_ifs at h with hempty
  · obtain rfl := Except.error.inj h
    simp [is_parse_error]
  split at h
  · obtain rfl := Except.error.inj h
    simp [is_parse_error]
  · exact hwalk (by simp) (by simp [is_parse_error]) h
  · exact hwalk (by simp) (by simp [is_parse_error]) h
  · split_ifs at h
    · obtain rfl := Except.error.inj h
      simp [is_parse_error]
    · split at h <;> cases h
  · split at h <;> cases h
  · obtain rfl := Except.error.inj h
    simp [is_parse_error]

/-- A value path that is wrong in every context. -/
def wrong_path (path : String) : Bool :=
  match (splitOn '.' path.toList).map String.ofList with
  | "workflow" :: _ => false
  | "trigger" :: _ => false
  | _ :: "status" :: steps => steps ≠ []
  | _ :: "output" :: _ => false
  | _ => true

/-- The context of an execution without any results. -/
def noContext : EdgeCtx := ⟨[], [], [], []⟩

/-- Without any results a value path that is not wrong gives a value that has no order. -/
theorem resolve_nothing {path : String} (h : wrong_path path = false) :
    _resolve_value_path path noContext = .ok .null ∨
      _resolve_value_path path noContext = .ok (.obj []) := by
  have hwalk : ∀ code steps, walkDict code (.obj []) steps = .ok .null ∨
      walkDict code (.obj []) steps = .ok (.obj []) := by
    intro code steps
    cases steps with
    | nil => exact .inr rfl
    | cons s steps => exact .inl rfl
  have hsome : path ≠ "" := by
    rintro rfl
    exact absurd h (by decide)
  unfold _resolve_value_path
  rw [if_neg hsome]
  unfold wrong_path at h
  generalize (splitOn '.' path.toList).map String.ofList = words at h ⊢
  split
  · simp at h
  · exact hwalk _ _
  · exact hwalk _ _
  · split_ifs with hsteps
    · simp_all
    · exact .inl rfl
  · exact .inl rfl
  · simp_all

end paths

section parts

def Tree.wrong : Tree → Bool
  | .compare path _ _ => wrong_path path
  | _ => false

/-- A part no context makes good: an order between values, which need not be there, or arguments
that do not fit. -/
def Tree.malformed : Tree → Bool
  | .compare _ op _ => op ≠ "==" && op ≠ "!="
  | .call fn args => (call_defect fn (args.map Tree.text?)).isSome
  | .bool fn args => fn = "NOT" && args.length ≠ 1
  | _ => false

/-- A predicate with wrong arguments is an error of the syntax. -/
theorem call_defect_code {fn : String} {texts : List (Option String)} {m : String}
    (h : call_defect fn texts = some m) :
    is_parse_error m = true := by
  unfold call_defect at h
  split at h
  · split_ifs at h
    · obtain rfl := Option.some.inj h
      exact parse_error_named (by simp [is_parse_error, toString]) _ _
    · split at h
      · split_ifs at h
        obtain rfl := Option.some.inj h
        exact parse_error_append (by simp [is_parse_error, toString]) _
      · obtain rfl := Option.some.inj h
        simp [is_parse_error]
  · obtain rfl := Option.some.inj h
    exact parse_error_named (by simp [is_parse_error, toString]) _ _

/-- An operator fails only as `NOT` of several arguments or of the token. -/
theorem Tree.bool_failure {fn : String} {args : List Tree} {m : String}
    (h : (Tree.bool fn args).failure ctx = some m) :
    is_parse_error m = true ∧ fn = "NOT" ∧
      (args.length ≠ 1 ∨ ∃ a, args = [a] ∧ a.run ctx = .ok .els) := by
  simp only [Tree.failure] at h
  split_ifs at h with hnot
  obtain _ | ⟨a, _ | ⟨b, rest⟩⟩ := args
  · obtain rfl := Option.some.inj h
    exact ⟨by simp [is_parse_error], hnot, .inl (by simp)⟩
  · simp only at h
    split at h
    · next hels =>
      obtain rfl := Option.some.inj h
      exact ⟨by simp [is_parse_error], hnot, .inr ⟨a, rfl, hels⟩⟩
    · cases h
  · obtain rfl := Option.some.inj h
    exact ⟨by simp [is_parse_error], hnot, .inl (by simp)⟩

/-- Only an order of values without one fails. -/
theorem compareValues_error {op m : String} {lhs : Json} {rhs : CondVal}
    (h : compareValues op lhs rhs = .error m) :
    is_parse_error m = true ∧ op ≠ "==" ∧ op ≠ "!=" := by
  have hincompatible : is_parse_error "E1118: incompatible types in comparison operation" =
      true := by simp [is_parse_error]
  unfold compareValues at h
  split at h
  · cases h
  · cases h
  all_goals
    simp only at h
    split at h
    · cases h
    · obtain rfl := Except.error.inj h
      refine ⟨hincompatible, ?_, ?_⟩
      · first | assumption | simp
      · first | assumption | simp

/-- A value without an order cannot be compared by order. -/
theorem compareValues_nothing {op : String} {lhs : Json} {rhs : CondVal}
    (hlhs : lhs = .null ∨ lhs = .obj []) (hop : op ≠ "==" ∧ op ≠ "!=") :
    ∃ m, compareValues op lhs rhs = .error m := by
  have hnone : rhs.above? lhs = none ∧ rhs.below? lhs = none ∧ rhs.at_least? lhs = none ∧
      rhs.at_most? lhs = none := by
    obtain rfl | rfl := hlhs
    · cases rhs with
      | els => simp [CondVal.above?, CondVal.below?, CondVal.at_least?, CondVal.at_most?]
      | float x =>
        simp [CondVal.above?, CondVal.below?, CondVal.at_least?, CondVal.at_most?, Json.number?]
      | val v =>
        cases v <;> simp [CondVal.above?, CondVal.below?, CondVal.at_least?, CondVal.at_most?,
          Json.lt?, Json.le?, Json.number?]
    · cases rhs with
      | els => simp [CondVal.above?, CondVal.below?, CondVal.at_least?, CondVal.at_most?]
      | float x =>
        simp [CondVal.above?, CondVal.below?, CondVal.at_least?, CondVal.at_most?, Json.number?]
      | val v =>
        cases v <;> simp [CondVal.above?, CondVal.below?, CondVal.at_least?, CondVal.at_most?,
          Json.lt?, Json.le?, Json.number?]
  unfold compareValues
  split
  · exact absurd rfl hop.1
  · exact absurd rfl hop.2
  all_goals simp [hnone]

/-- What a comparison fails with. -/
theorem Tree.compare_failure {path op m : String} {rhs : CondVal}
    (h : (Tree.compare path op rhs).failure ctx = some m) :
    (is_parse_error m = false ∧ _resolve_value_path path ctx = .error m) ∨
      is_parse_error m = true ∧ op ≠ "==" ∧ op ≠ "!=" := by
  have hrun := failure?_eq_some_iff.mp h
  rw [Tree.run] at hrun
  cases hlhs : _resolve_value_path path ctx with
  | error m' =>
    rw [hlhs] at hrun
    obtain rfl := Except.error.inj hrun
    exact .inl ⟨resolve_error hlhs, rfl⟩
  | ok lhs =>
    rw [hlhs] at hrun
    cases hresult : compareValues op lhs rhs with
    | error m' =>
      have heq : m' = m := by simpa [hresult, bind, Except.bind] using hrun
      exact .inr (compareValues_error (heq ▸ hresult))
    | ok b => simp [hresult, bind, Except.bind] at hrun

/-- The only parse error of a part in order is that of a negated else token. -/
theorem Tree.negated_else {t : Tree} {m : String} (hformed : t.malformed = false)
    (h : t.failure ctx = some m) (hm : is_parse_error m = true) :
    ∃ a, t = .bool "NOT" [a] ∧ a.run ctx = .ok .els := by
  cases t with
  | const v => cases h
  | els => cases h
  | compare path op rhs =>
    obtain ⟨hnot, -⟩ | ⟨-, hop⟩ := Tree.compare_failure h
    · rw [hm] at hnot
      cases hnot
    · simp [Tree.malformed, hop] at hformed
  | call fn args =>
    simp only [Tree.failure] at h
    simp [Tree.malformed, h] at hformed
  | bool fn args =>
    obtain ⟨-, rfl, hlength | ⟨a, rfl, hels⟩⟩ := Tree.bool_failure h
    · simp [Tree.malformed, hlength] at hformed
    · exact ⟨a, rfl, hels⟩

/-- Without any results a part whose path is not wrong fails with a parse error, or is in order. -/
theorem Tree.failure_nothing {t : Tree} (h : t.wrong = false) :
    (∀ m, t.failure noContext = some m → is_parse_error m = true) ∧
      (t.failure noContext = none → t.malformed = false) := by
  cases t with
  | const v => exact ⟨nofun, fun _ => rfl⟩
  | els => exact ⟨nofun, fun _ => rfl⟩
  | compare path op rhs =>
    have hlhs := resolve_nothing h
    constructor
    · intro m hm
      obtain ⟨-, hresolve⟩ | ⟨hcode, -⟩ := Tree.compare_failure hm
      · rcases hlhs with hlhs | hlhs <;> rw [hlhs] at hresolve <;> cases hresolve
      · exact hcode
    · intro hnone
      by_contra hordered
      have hop : op ≠ "==" ∧ op ≠ "!=" := by simpa [Tree.malformed] using hordered
      obtain ⟨lhs, hvalue, hlhs⟩ : ∃ lhs, _resolve_value_path path noContext = .ok lhs ∧
          (lhs = .null ∨ lhs = .obj []) := by
        obtain hlhs | hlhs := hlhs
        · exact ⟨_, hlhs, .inl rfl⟩
        · exact ⟨_, hlhs, .inr rfl⟩
      obtain ⟨m, hm⟩ : ∃ m, compareValues op lhs rhs = .error m := compareValues_nothing hlhs hop
      simp [Tree.failure, Tree.run, hvalue, hm, failure?, bind, Except.bind] at hnone
  | call fn args =>
    constructor
    · exact fun m hm => call_defect_code hm
    · intro hnone
      simp only [Tree.failure] at hnone
      simp [Tree.malformed, hnone]
  | bool fn args =>
    constructor
    · exact fun m hm => (Tree.bool_failure hm).1
    · intro hnone
      by_contra hnot
      simp only [Tree.malformed, ne_eq, Bool.not_eq_false, Bool.and_eq_true,
        decide_eq_true_eq] at hnot
      obtain ⟨rfl, hlength⟩ := hnot
      simp only [Tree.failure, if_true] at hnone
      split at hnone
      · simp at hlength
      · cases hnone

end parts

section program

/-- The parts of a condition in the order of their evaluation, and the message of
what cannot be read. -/
def program (cond : String) : List Tree × Option String :=
  match readCondition cond with
  | .ok t => (t.steps, none)
  | .error b => (stepsOf b.before, some b.message)

/-- The message of the evaluation in a context. -/
def message? (cond : String) (ctx : EdgeCtx) : Option String :=
  ((program cond).1.findSome? (Tree.failure ctx)).or (program cond).2

/-- What a text cannot be read on for is an error of the syntax. -/
theorem program_code {cond m : String} (h : (program cond).2 = some m) :
    is_parse_error m = true := by
  unfold program at h
  cases hread : readCondition cond with
  | ok t => simp [hread] at h
  | error b =>
    rw [hread] at h
    obtain rfl := Option.some.inj h
    exact readCondition_error hread

/-- The evaluation fails as its parts say. -/
theorem failure_evaluate (cond : String) (ctx : EdgeCtx) :
    failure? (evaluate_edge_condition cond ctx) = message? cond ctx := by
  rw [evaluate_edge_condition_eq]
  unfold message? program
  cases readCondition cond with
  | ok t =>
    rw [Option.or_none]
    exact t.failure_run ctx
  | error b =>
    simp only
    rw [← failure_runs, failure?_bind]
    cases runs ctx b.before <;> rfl

/-- A condition without any parse error in a context without results, whose paths are all right, is
read, and all its parts are well formed. -/
theorem read_of_nothing {cond : String} (hright : ∀ s ∈ (program cond).1, s.wrong = false)
    (h : ∀ m, message? cond noContext = some m → is_parse_error m = false) :
    ∃ t, readCondition cond = .ok t ∧ ∀ s ∈ t.steps, s.malformed = false := by
  have hnothing : ∀ s ∈ (program cond).1, s.failure noContext = none := by
    rw [← List.findSome?_eq_none_iff]
    cases hfirst : (program cond).1.findSome? (Tree.failure noContext) with
    | none => rfl
    | some m =>
      obtain ⟨s, hs, hfailure⟩ := List.exists_of_findSome?_eq_some hfirst
      have hcode := (Tree.failure_nothing (hright s hs)).1 m hfailure
      rw [h m (by rw [message?, hfirst, Option.some_or])] at hcode
      cases hcode
  have hnone : (program cond).2 = none := by
    cases hmessage : (program cond).2 with
    | none => rfl
    | some m =>
      have hcode := program_code hmessage
      rw [h m (by rw [message?, List.findSome?_eq_none_iff.mpr hnothing, hmessage,
        Option.none_or])] at hcode
      cases hcode
  cases hread : readCondition cond with
  | error b => simp [program, hread] at hnone
  | ok t =>
    refine ⟨t, rfl, fun s hs => ?_⟩
    have hmem : s ∈ (program cond).1 := by
      rw [program, hread]
      exact hs
    exact (Tree.failure_nothing (hright s hmem)).2 (hnothing s hmem)

end program

section otherwise

mutual

/-- The value may be the else token. -/
def Tree.may_else : Tree → Bool
  | .const v => v.isElse
  | .els => true
  | .compare .. => false
  | .call .. => false
  | .bool fn args => fn ≠ "NOT" && anyElse args

def anyElse : List Tree → Bool
  | [] => false
  | t :: ts => t.may_else || anyElse ts

end

/-- The negation of what may be the else token. -/
def Tree.negates_else : Tree → Bool
  | .bool "NOT" [a] => a.may_else
  | _ => false

/-- `AND` gives the token only from one. -/
theorem andValue_els {r : CondVal} {vs : List CondVal} (h : andValue r vs = .els) :
    r = .els ∨ .els ∈ vs := by
  induction vs generalizing r with
  | nil => exact .inl h
  | cons v vs ih =>
    cases v with
    | els => exact .inr List.mem_cons_self
    | val w | float w =>
      rw [andValue] at h
      · split_ifs at h
        · exact (ih h).imp_right (List.mem_cons_of_mem _)
        · cases h
      · simp

theorem orValue_els {r : CondVal} {vs : List CondVal} (h : orValue r vs = .els) :
    r = .els ∨ .els ∈ vs := by
  induction vs generalizing r with
  | nil => exact .inl h
  | cons v vs ih =>
    cases v with
    | els => exact .inr List.mem_cons_self
    | val w | float w =>
      rw [orValue] at h
      · split_ifs at h
        · cases h
        · exact (ih h).imp_right (List.mem_cons_of_mem _)
      · simp

/-- An operator has the else token for its value only from an argument, and `NOT` never. -/
theorem boolCall_els {fn : String} {vs : List CondVal} (h : boolCall fn vs = .ok .els) :
    fn ≠ "NOT" ∧ .els ∈ vs := by
  unfold boolCall at h
  split_ifs at h with hnot
  · split at h
    · cases h
    · cases h
    · cases h
  · exact ⟨hnot, (andValue_els (Except.ok.inj h)).resolve_left (by simp [CondVal.bool])⟩
  · exact ⟨hnot, (orValue_els (Except.ok.inj h)).resolve_left (by simp [CondVal.bool])⟩

/-- No predicate gives the token. -/
theorem statusCall_els {fn : String} {vs : List CondVal} : statusCall fn vs ctx ≠ .ok .els := by
  intro h
  unfold statusCall at h
  simp only at h
  split at h
  · split at h
    · split_ifs at h
      cases h
    · split at h
      · split at h
        · cases h
        · cases h
      · cases h
  · cases h

mutual

/-- A condition that gives the token may give it. -/
theorem Tree.els_of_run : ∀ {t : Tree}, t.run ctx = .ok .els → t.may_else = true
  | .const v, h => by
    obtain rfl := Except.ok.inj h
    rfl
  | .els, _ => rfl
  | .compare path op rhs, h => by
    obtain ⟨lhs, -, h⟩ := bind_eq_ok.mp h
    obtain ⟨result, -, h⟩ := bind_eq_ok.mp h
    cases h
  | .call fn args, h => by
    obtain ⟨vs, -, h⟩ := bind_eq_ok.mp h
    exact absurd h statusCall_els
  | .bool fn args, h => by
    obtain ⟨vs, hvs, h⟩ := bind_eq_ok.mp h
    obtain ⟨hnot, hmem⟩ := boolCall_els h
    rw [Tree.may_else, els_of_runs hvs hmem]
    simp [hnot]

theorem els_of_runs :
    ∀ {ts : List Tree} {vs : List CondVal}, runs ctx ts = .ok vs → .els ∈ vs → anyElse ts = true
  | [], vs, h, hmem => by
    obtain rfl := Except.ok.inj h
    cases hmem
  | t :: ts, vs, h, hmem => by
    obtain ⟨v, hv, h⟩ := bind_eq_ok.mp h
    obtain ⟨vs', hvs, h⟩ := bind_eq_ok.mp h
    obtain rfl := Except.ok.inj h
    rw [anyElse, Bool.or_eq_true]
    obtain rfl | hmem := List.mem_cons.mp hmem
    · exact .inl (Tree.els_of_run hv)
    · exact .inr (els_of_runs hvs hmem)

end

mutual

/-- What may be the else token has one among its parts, if its constants are none. -/
theorem Tree.mem_steps_of_may_else :
    ∀ {t : Tree}, (∀ v, .const v ∈ t.steps → v.isElse = false) → t.may_else = true →
    .els ∈ t.steps
  | .const v, hconst, h => by
    rw [Tree.may_else, hconst v (List.mem_singleton.mpr rfl)] at h
    cases h
  | .els, _, _ => List.mem_singleton.mpr rfl
  | .bool fn args, hconst, h => by
    rw [Tree.may_else, Bool.and_eq_true] at h
    rw [Tree.steps]
    exact List.mem_append_left _
      (mem_stepsOf_of_anyElse (fun v hv => hconst v (List.mem_append_left _ hv)) h.2)

/-- What may give the token has it among its parts. -/
theorem mem_stepsOf_of_anyElse :
    ∀ {ts : List Tree}, (∀ v, .const v ∈ stepsOf ts → v.isElse = false) → anyElse ts = true →
    .els ∈ stepsOf ts
  | t :: ts, hconst, h => by
    rw [stepsOf] at hconst ⊢
    rw [anyElse, Bool.or_eq_true] at h
    obtain h | h := h
    · exact List.mem_append_left _
        (Tree.mem_steps_of_may_else (fun v hv => hconst v (List.mem_append_left _ hv)) h)
    · exact List.mem_append_right _
        (mem_stepsOf_of_anyElse (fun v hv => hconst v (List.mem_append_right _ hv)) h)

end

end otherwise

section sentences

/-- The text is tokens, with blanks before, between and behind them. -/
inductive Lexes : List Char → List String → Prop
  | done : Lexes [] []
  | blank {c : Char} {cs : List Char} {ts : List String} (h : isspace c = true)
    (rest : Lexes cs ts) : Lexes (c :: cs) ts
  | token {c : Char} {cs tok rest : List Char} {ts : List String} (h : isspace c = false)
    (htok : tokenAt (c :: cs) = some (tok, rest)) (more : Lexes rest ts) :
    Lexes (c :: cs) (String.ofList tok :: ts)

/-- The tokens of a text are what the tokenizer reads. -/
theorem Lexes.tokenizeLoop {cs : List Char} {ts : List String} (h : Lexes cs ts) {fuel : Nat}
    (hfuel : cs.length ≤ fuel) :
    tokenizeLoop fuel cs = .ok ts := by
  induction h generalizing fuel with
  | done => cases fuel <;> rfl
  | blank hspace rest ih =>
    rw [List.length_cons] at hfuel
    obtain ⟨fuel, rfl⟩ : ∃ n, fuel = n + 1 := ⟨fuel - 1, by omega⟩
    rw [executor.tokenizeLoop, if_pos hspace]
    exact ih (by omega)
  | @token c cs tok rest ts hspace htok more ih =>
    have hless := (raising.tokenAt_shorter htok).2
    rw [List.length_cons] at hfuel hless
    obtain ⟨fuel, rfl⟩ : ∃ n, fuel = n + 1 := ⟨fuel - 1, by omega⟩
    have hmore : executor.tokenizeLoop fuel rest = .ok ts := ih (by omega)
    rw [executor.tokenizeLoop, if_neg (by simp [hspace]), htok]
    simp only [hmore]
    rfl

theorem lexes_of_tokenizeLoop {fuel : Nat} {cs : List Char} {ts : List String}
    (hfuel : cs.length ≤ fuel) (h : tokenizeLoop fuel cs = .ok ts) : Lexes cs ts := by
  induction fuel generalizing cs ts with
  | zero =>
    obtain rfl := List.eq_nil_of_length_eq_zero (Nat.le_zero.mp hfuel)
    obtain rfl := Except.ok.inj h
    exact .done
  | succ fuel ih =>
    cases cs with
    | nil =>
      obtain rfl := Except.ok.inj h
      exact .done
    | cons c cs =>
      rw [List.length_cons] at hfuel
      rw [tokenizeLoop] at h
      split_ifs at h with hspace
      · exact .blank hspace (ih (by omega) h)
      · split at h
        · cases h
        · next tok rest htok =>
          have hless := (raising.tokenAt_shorter htok).2
          rw [List.length_cons] at hless
          obtain ⟨more, hmore, h⟩ := bind_eq_ok.mp h
          obtain rfl := Except.ok.inj h
          exact .token (by simpa using hspace) htok (ih (by omega) hmore)

/-- The tokenizer finds exactly these tokens. -/
theorem lexes_iff {cs : List Char} {ts : List String} : Lexes cs ts ↔ _tokenize cs = .ok ts :=
  ⟨fun h => h.tokenizeLoop (Nat.le_refl _), lexes_of_tokenizeLoop (Nat.le_refl _)⟩

/-- The parts fit: predicates and `NOT` have their arguments, comparisons ask for no order, and
nothing that may be the else token is negated. -/
structure InOrder (t : Tree) : Prop where
  fitting : ∀ s ∈ t.steps, s.malformed = false
  no_negated : ∀ s ∈ t.steps, s.negates_else = false

/-- The text is blank, or it is a condition of the grammar whose parts fit. -/
def Written (cond : String) : Prop :=
  ∃ tokens, Lexes (strip cond.toList) tokens ∧ (tokens = [] ∨ ∃ t, Reads tokens t ∧ InOrder t)

/-- A text that compares value paths only, and does not have both a negation and an else token. -/
structure PlainText (cond : String) : Prop where
  paths : ∀ tokens, Lexes (strip cond.toList) tokens → ∀ path op, [path, op] <:+: tokens →
    op ∈ comparisonOps →
    _parse_literal path = none → wrong_path path = false
  no_negation : ∀ tokens, Lexes (strip cond.toList) tokens → "NOT" ∉ tokens ∨ "__else__" ∉ tokens

theorem inOrder_of_no_step {t : Tree} (h : t.steps = [t]) (hformed : t.malformed = false)
    (helse : t.negates_else = false) :
    InOrder t where
  fitting := by
    intro s hs
    rw [h] at hs
    rw [List.mem_singleton.mp hs, hformed]
  no_negated := by
    intro s hs
    rw [h] at hs
    rw [List.mem_singleton.mp hs, helse]

/-- What is written by the grammar is read. -/
theorem Written.read {cond : String} (h : Written cond) :
    ∃ t, readCondition cond = .ok t ∧ InOrder t := by
  obtain ⟨tokens, hlexes, h⟩ := h
  have hconst : InOrder (.const (.bool true)) := inOrder_of_no_step rfl rfl rfl
  unfold readCondition
  simp only
  split_ifs
  · exact ⟨_, rfl, hconst⟩
  · exact ⟨_, rfl, inOrder_of_no_step rfl rfl rfl⟩
  · rw [lexes_iff.mp hlexes]
    obtain rfl | ⟨t, hreads, horder⟩ := h
    · exact ⟨_, rfl, hconst⟩
    · obtain ⟨tok, more, rfl, -⟩ := hreads.head
      have hread := hreads.read [] (Nat.le_refl _)
      rw [List.append_nil] at hread
      simp only [hread]
      exact ⟨t, rfl, horder⟩

/-- The comparisons that are read stand in the tokens of the text. -/
theorem compare_mem_program {cond path op : String} {rhs : CondVal}
    (h : Tree.compare path op rhs ∈ (program cond).1) :
    ∃ tokens, Lexes (strip cond.toList) tokens ∧ [path, op] <:+: tokens ∧ op ∈ comparisonOps ∧
      _parse_literal path = none := by
  have hkept : ∀ tokens, _tokenize (strip cond.toList) = .ok tokens →
    FromTokens tokens (program cond).1 →
      ∃ tokens, Lexes (strip cond.toList) tokens ∧ [path, op] <:+: tokens ∧ op ∈ comparisonOps ∧
        _parse_literal path = none :=
    fun tokens htokens hfrom => ⟨tokens, lexes_iff.mpr htokens, hfrom path op rhs h⟩
  unfold program readCondition at h hkept
  simp only at h hkept
  split_ifs at h hkept
  · simp [Tree.steps] at h
  · simp [Tree.steps] at h
  · cases htokens : _tokenize (strip cond.toList) with
    | error m =>
      rw [htokens] at h
      cases h
    | ok tokens =>
      rw [htokens] at h hkept
      simp only at h hkept
      have hread := kept_readAtom tokens.length tokens
      split_ifs at h hkept
      · simp [Tree.steps] at h
      · cases hatom : readAtom tokens.length tokens with
        | error b =>
          rw [hatom] at hread hkept
          exact hkept tokens rfl hread
        | ok r =>
          obtain ⟨t, after⟩ := r
          rw [hatom] at hread hkept
          simp only at hkept
          split_ifs at hkept
          · exact hkept tokens rfl hread.2
          · refine hkept tokens rfl ?_
            change FromTokens tokens (stepsOf [t])
            rw [stepsOf_singleton]
            exact hread.2

/-- A path of a right form is no mark. -/
theorem not_mark_of_right {path : String} (h : wrong_path path = false) : path ∉ marks := by
  have hall : ∀ t ∈ marks, wrong_path t = true := by decide
  intro hmem
  rw [hall path hmem] at h
  cases h

theorem not_mark_of_literal {tok : String} {v : CondVal} (h : _parse_literal tok = some v) :
    tok ∉ marks := by
  have hall : ∀ t ∈ marks, t ∈ reserved := by decide
  exact fun hmem => not_reserved_of_literal h (hall tok hmem)

/-- The token is negated where `NOT` has an argument that may be the token. -/
theorem negates_else_iff {s : Tree} :
    s.negates_else = true ↔ ∃ a, s = .bool "NOT" [a] ∧ a.may_else = true := by
  unfold Tree.negates_else
  split
  · simp
  · next hother =>
    refine iff_of_false (by simp) ?_
    rintro ⟨a, rfl, -⟩
    exact hother a rfl

/-- What is read from a plain text is written by the grammar. -/
theorem PlainText.written {cond : String} (h : PlainText cond) {t : Tree}
    (hread : readCondition cond = .ok t) (hfitting : ∀ s ∈ t.steps, s.malformed = false) :
    Written cond := by
  have helse : Lexes "__else__".toList ["__else__"] := lexes_iff.mpr (by decide)
  unfold readCondition at hread
  simp only at hread
  split_ifs at hread with hblank hother
  · refine ⟨[], ?_, .inl rfl⟩
    rw [List.isEmpty_iff.mp hblank]
    exact .done
  · refine ⟨["__else__"], ?_, .inr ⟨.els, .otherwise, inOrder_of_no_step rfl rfl rfl⟩⟩
    rw [hother]
    exact helse
  · cases htokens : _tokenize (strip cond.toList) with
    | error m =>
      rw [htokens] at hread
      cases hread
    | ok tokens =>
      have hlexes := lexes_iff.mpr htokens
      refine ⟨tokens, hlexes, ?_⟩
      rw [htokens] at hread
      simp only at hread
      split_ifs at hread with hnone
      · exact .inl (List.isEmpty_iff.mp hnone)
      · cases hatom : readAtom tokens.length tokens with
        | error b =>
          rw [hatom] at hread
          cases hread
        | ok r =>
          obtain ⟨t', after⟩ := r
          rw [hatom] at hread
          simp only at hread
          split_ifs at hread with hend
          obtain rfl := Except.ok.inj hread
          obtain rfl := List.isEmpty_iff.mp hend
          have hmarks : NoMarks tokens := by
            intro path op hwithin hop
            cases hvalue : _parse_literal path with
            | none => exact not_mark_of_right (h.paths tokens hlexes path op hwithin hop hvalue)
            | some v => exact not_mark_of_literal hvalue
          obtain ⟨used, hused, hreads⟩ := readAtom_sound tokens.length tokens t' [] hmarks hatom
          rw [List.append_nil] at hused
          subst hused
          refine .inr ⟨t', hreads, hfitting, fun s hs => ?_⟩
          by_contra hnegates
          obtain ⟨a, rfl, ha⟩ := negates_else_iff.mp (by simpa using hnegates)
          have hnamed := hreads.named
          have harg : ∀ u ∈ a.steps, u ∈ t'.steps :=
            fun u hu => Tree.steps_of_mem (by simp [Tree.steps, stepsOf, hu]) hs
          have hels := Tree.mem_steps_of_may_else (fun v hv => hnamed.literals v (harg _ hv)) ha
          obtain hnot | hnot := h.no_negation tokens hlexes
          · exact hnot (hnamed.operators "NOT" [a] hs)
          · exact hnot (hnamed.otherwise (harg _ hels))

end sentences

/-- The source of an edge, which the engine knows under four names. -/
def edge_source (py : Reprs) (e : Dict String Json) : String :=
  py.str (runner.orElse (getJson e "from") (runner.orElse (getJson e "from_key")
    (runner.orElse (getJson e "src") (getJson e "source"))))

/-- The condition of an edge, which the engine knows under two names. -/
def edge_condition (py : Reprs) (e : Dict String Json) : String :=
  let condition :=
    runner.orElse (getJson e "condition") (runner.orElse (getJson e "cond") (.str ""))
  if condition.truthy then py.str condition else ""

/-- What the engine evaluates for an edge. -/
def evaluated_condition (py : Reprs) (e : Dict String Json) : String :=
  expand_from (edge_source py e) (edge_condition py e)

/-- The evaluation ends with the code of a text that is no condition. -/
def ParseError (r : raising.Eval CondVal) : Prop :=
  ∃ message, r = .error (.ValueError message) ∧ is_parse_error message = true

/-- No context makes the evaluation end in a parse error. -/
def NeverParseError (fullmatch : Nat → Nat) (frames : Nat) (cond : String) : Prop :=
  ∀ ctx : EdgeCtx, ¬ParseError (raising.evaluate_edge_condition fullmatch frames cond ctx.json)

section accepted

variable {fullmatch : Nat → Nat} {frames : Nat} {cond : String}

/-- A parse error is the message of the plain evaluation. -/
theorem message_of_parseError
    (h : ParseError (raising.evaluate_edge_condition fullmatch frames cond ctx.json)) :
    ∃ m, message? cond ctx = some m ∧ is_parse_error m = true := by
  obtain ⟨m, hm, hcode⟩ := h
  refine ⟨m, ?_, hcode⟩
  rw [← failure_evaluate, failure?_eq_some_iff]
  obtain hcut | hplain := raising.cutShort_evaluate fullmatch frames cond ctx
  · rw [hcut] at hm
    cases hm
  · rw [hplain] at hm
    cases hevaluate : evaluate_edge_condition cond ctx with
    | ok v =>
      rw [hevaluate] at hm
      cases hm
    | error m' =>
      rw [hevaluate] at hm
      rw [raising.Raised.ValueError.inj (Except.error.inj hm)]

/-- Where the calls fit, it is one exactly if the plain evaluation has it. -/
theorem parseError_of_message (hfits : raising.Fits fullmatch frames cond ctx.json) {m : String}
    (h : message? cond ctx = some m) (hcode : is_parse_error m = true) :
    ParseError (raising.evaluate_edge_condition fullmatch frames cond ctx.json) := by
  rw [← failure_evaluate, failure?_eq_some_iff] at h
  exact ⟨m, by rw [evaluate_of_fits hfits, h]; rfl, hcode⟩

/-- A condition of the grammar never meets an error of the syntax. -/
theorem Written.neverParseError (h : Written cond) : NeverParseError fullmatch frames cond := by
  obtain ⟨t, hread, horder⟩ := h.read
  intro ctx herror
  obtain ⟨m, hm, hcode⟩ := message_of_parseError herror
  rw [message?, program, hread, Option.or_none] at hm
  obtain ⟨s, hs, hfailure⟩ := List.exists_of_findSome?_eq_some hm
  obtain ⟨a, rfl, hels⟩ := Tree.negated_else (horder.fitting s hs) hfailure hcode
  have hnegated := horder.no_negated _ hs
  rw [negates_else_iff.mpr ⟨a, rfl, Tree.els_of_run hels⟩] at hnegated
  cases hnegated

/-- A plain text that never meets one is a condition of the grammar. -/
theorem NeverParseError.written (h : NeverParseError fullmatch frames cond)
    (hplain : PlainText cond) (hfits : raising.Fits fullmatch frames cond noContext.json) :
    Written cond := by
  have hright : ∀ s ∈ (program cond).1, s.wrong = false := by
    intro s hs
    cases s with
    | compare path op rhs =>
      obtain ⟨tokens, hlexes, hwithin, hop, hvalue⟩ := compare_mem_program hs
      exact hplain.paths tokens hlexes path op hwithin hop hvalue
    | _ => rfl
  obtain ⟨t, hread, hfitting⟩ := read_of_nothing hright fun m hm => by
    by_contra hcode
    exact h noContext (parseError_of_message hfits hm (by simpa using hcode))
  exact hplain.written hread hfitting

end accepted

/-- An edge the validator accepts passes its checks of the text. No context makes the evaluation of
its condition end in a parse error if the condition is written by the grammar; and, where it
compares value paths only, does not have both a negation and an else token and its calls fit into
the frames, only if it is. -/
theorem accepted_evaluable_iff (fullmatch : Nat → Nat) (frames : Nat) {py : Reprs}
    {registry : UnitAdapterRegistry} {dag : WorkflowDAG} {r : DAGValidationResult}
    (h : validate_dag py registry dag = .ok r) (hok : r.ok = true) {e : Dict String Json}
    (he : e ∈ dag.edges) :
    accepted_condition (getJson e "condition") ∧
      (Written (evaluated_condition py e) →
        NeverParseError fullmatch frames (evaluated_condition py e)) ∧
      (PlainText (evaluated_condition py e) →
        raising.Fits fullmatch frames (evaluated_condition py e) noContext.json →
        (NeverParseError fullmatch frames (evaluated_condition py e) ↔
          Written (evaluated_condition py e))) := by
  obtain ⟨v, accepted⟩ := accepted_of_ok h hok
  refine ⟨accepted.contents.conditions e he, Written.neverParseError, fun hplain hfits => ?_⟩
  exact ⟨fun hnever => hnever.written hplain hfits, Written.neverParseError⟩

/-- The edge that leads from the start to a node on a condition. -/
def guardedEdge (condition : String) : Dict String Json :=
  [("from_key", .str "start"), ("to_key", .str "build"), ("condition", .str condition)]

def guarded_dag (condition : String) : WorkflowDAG where
  nodes := [drawn_node "start" "start", drawn_node "build" "noop", drawn_node "end" "end"]
  edges := [guardedEdge condition, drawn_edge "build" "end"]

/-- The value reference of the validator's tests. -/
def template_condition : String := "$\x7bnode_a.status\x7d != 5"

/-- The validator accepts the condition, and the engine cannot read it. -/
theorem template_condition_unreadable :
    (validate_dag .short noop_registry (guarded_dag template_condition)).toOption.map (·.ok) =
      some true ∧
      ¬NeverParseError raising.cached 1000
        (evaluated_condition .short (guardedEdge template_condition)) := by
  refine ⟨by decide +kernel, fun hnever => ?_⟩
  have hfailed : message? (evaluated_condition .short (guardedEdge template_condition)) noContext =
      some "E1100: unrecognized character in condition expression" := by
    decide +kernel
  have hfits : raising.Fits raising.cached 1000
      (evaluated_condition .short (guardedEdge template_condition)) noContext.json := by
    refine raising.fits_of_frames (fun _ => Nat.le_refl 2) (fun tokens htokens => ?_) (by omega)
    have hnone : (_tokenize (strip
      (evaluated_condition .short (guardedEdge template_condition)).toList)).toOption = none := by
      decide +kernel
    rw [raising.tokenize_eq] at htokens
    cases hread : _tokenize (strip
      (evaluated_condition .short (guardedEdge template_condition)).toList) with
    | ok ts =>
      rw [hread] at hnone
      cases hnone
    | error m =>
      rw [hread] at htokens
      cases htokens
  exact hnever noContext (parseError_of_message hfits hfailed (by decide +kernel))

/-- The tokens of `success('start')`. -/
def success_tokens : List String := ["success", "(", "'start'", ")"]

theorem success_condition_evaluable :
    accepted_condition (getJson (guardedEdge "success(__from__)") "condition") ∧
      NeverParseError raising.cached 1000
        (evaluated_condition .short (guardedEdge "success(__from__)")) := by
  have hvalid : validate_dag .short noop_registry (guarded_dag "success(__from__)") =
      .ok { topological_order := ["start", "build", "end"] } := by
    decide +kernel
  have htokens : _tokenize (strip
    (evaluated_condition .short (guardedEdge "success(__from__)")).toList) =
      .ok success_tokens := by
    decide +kernel
  have hunique : ∀ tokens, Lexes
    (strip (evaluated_condition .short (guardedEdge "success(__from__)")).toList) tokens →
      tokens = success_tokens :=
    fun tokens hlexes => Except.ok.inj ((lexes_iff.mp hlexes).symm.trans htokens)
  obtain ⟨haccepted, hwritten, hexact⟩ :=
    accepted_evaluable_iff raising.cached 1000 hvalid rfl
      (e := guardedEdge "success(__from__)") List.mem_cons_self
  refine ⟨haccepted, (hexact ⟨?_, ?_⟩ ?_).mpr ⟨success_tokens, lexes_iff.mpr htokens, .inr ?_⟩⟩
  · intro tokens hlexes path op hwithin hop
    rw [hunique tokens hlexes] at hwithin
    have hnone : ∀ t ∈ success_tokens, t ∉ comparisonOps := by decide
    exact absurd hop (hnone op (hwithin.subset (by simp)))
  · intro tokens hlexes
    rw [hunique tokens hlexes]
    exact .inl (by decide)
  · refine raising.fits_of_frames (fun _ => Nat.le_refl 2) (fun tokens hread => ?_) (by omega)
    rw [raising.tokenize_eq, htokens] at hread
    rw [← Except.ok.inj hread]
    decide
  · have hkey : Reads ["'start'"] (.const (.val (.str "start"))) :=
      .literal (by rfl)
    have hargs : ReadsArgs true true ["'start'"] [.const (.val (.str "start"))] :=
      .here hkey (by simp [isBareKey, isIdentStart]) (.done true false)
    refine ⟨.call "success" [.const (.val (.str "start"))], .predicate (by decide) hargs, ?_, ?_⟩
    · decide +kernel
    · decide +kernel

end taurus.engine.executor
