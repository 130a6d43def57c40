import Taurus.Engine.Executor.Condition

namespace taurus.engine.executor

open taurus.lib taurus.python

/-- A condition as it is read, without parentheses. -/
inductive Tree where
  | const (v : CondVal)
  | els
  | compare (path op : String) (rhs : CondVal)
  | call (fn : String) (args : List Tree)
  | bool (fn : String) (args : List Tree)

mutual

/-- The value of a condition that was read. -/
def Tree.run (ctx : EdgeCtx) : Tree → Eval CondVal
  | .const v => .ok v
  | .els => .ok .els
  | .compare path op rhs => do
    let lhs ← _resolve_value_path path ctx
    let result ← compareValues op lhs rhs
    .ok (.bool result)
  | .call fn args => do
    let vs ← runs ctx args
    statusCall fn vs ctx
  | .bool fn args => do
    let vs ← runs ctx args
    boolCall fn vs

/-- The values of all arguments, from the left. -/
def runs (ctx : EdgeCtx) : List Tree → Eval (List CondVal)
  | [] => .ok []
  | t :: ts => do
    let v ← t.run ctx
    let vs ← runs ctx ts
    .ok (v :: vs)

end

/-- A text that cannot be read on: what was read before, and the message. -/
structure Broken where
  before : List Tree
  message : String

abbrev Parse (α : Type) := Except Broken α

/-- What is read follows the arguments read so far. -/
def Broken.after (args : List Tree) (b : Broken) : Broken := { b with before := args ++ b.before }

/-- The arguments of `success(...)` and the like. -/
def readCallArgs (readAtom : List String → Parse (Tree × List String)) (fn : String) :
    Nat → Bool → List Tree → List String → Parse (List Tree × List String)
  | _, _, args, [] => .error ⟨args, s!"E1106: {fn}() missing ')'"⟩
  | _, _, args, ")" :: rest => .ok (args, rest)
  | 0, _, args, _ => .error ⟨args, s!"E1106: {fn}() missing ')'"⟩
  | fuel + 1, first, args, tok :: rest =>
    if !args.isEmpty && tok != "," then
      .error ⟨args, s!"E1104: {fn}() missing ',' between arguments"⟩
    else
      let here := if tok = "," then rest else tok :: rest
      let first := first && tok != ","
      match here with
      | [] => .error ⟨args, s!"E1105: {fn}() missing argument at end"⟩
      | t :: more =>
        if tok = "," ∧ t = ")" then .error ⟨args, s!"E1105: {fn}() missing argument at end"⟩
        else if first && isBareKey t then
          readCallArgs readAtom fn fuel false (args ++ [.const (.val (.str t))]) more
        else
          match readAtom here with
          | .error b => .error (b.after args)
          | .ok (a, after) => readCallArgs readAtom fn fuel false (args ++ [a]) after

/-- The arguments of `AND(...)`, `OR(...)` and `NOT(...)`. -/
def readBoolArgs (readAtom : List String → Parse (Tree × List String)) (fn : String) :
    Nat → List Tree → List String → Parse (List Tree × List String)
  | _, args, [] => .error ⟨args, s!"E1113: {fn}() missing ')'"⟩
  | _, args, ")" :: rest => .ok (args, rest)
  | 0, args, _ => .error ⟨args, s!"E1113: {fn}() missing ')'"⟩
  | fuel + 1, args, tok :: rest =>
    if !args.isEmpty && tok != "," then
      .error ⟨args, s!"E1112: {fn}() missing ',' between arguments"⟩
    else
      match readAtom (if tok = "," then rest else tok :: rest) with
      | .error b => .error (b.after args)
      | .ok (a, after) => readBoolArgs readAtom fn fuel (args ++ [a]) after

/-- A constant, else a comparison. -/
def readLiteral (tok : String) (rest : List String) : Parse (Tree × List String) :=
  match _parse_literal tok with
  | some v => .ok (.const v, rest)
  | none =>
    match rest with
    | op :: rhsTok :: after =>
      if comparisonOps.contains op then
        match _parse_literal rhsTok with
        | none => .error ⟨[], s!"E1116: invalid right side of comparison {rhsTok}"⟩
        | some rhs => .ok (.compare tok op rhs, after)
      else .error ⟨[], s!"E1119: unrecognized token {tok}"⟩
    | _ => .error ⟨[], s!"E1119: unrecognized token {tok}"⟩

/-- The tree at the head of the tokens, without its value. -/
def readAtom : Nat → List String → Parse (Tree × List String)
  | _, [] => .error ⟨[], "E1102: expression unexpectedly ended"⟩
  | 0, _ :: _ => .error ⟨[], "E1102: expression unexpectedly ended"⟩
  | fuel + 1, t :: rest =>
    if t = "(" then
      match readAtom fuel rest with
      | .error b => .error b
      | .ok (v, ")" :: after) => .ok (v, after)
      | .ok (v, _) => .error ⟨[v], "E1103: missing matching ')'"⟩
    else if ["success", "failed", "skipped", "cancelled", "status"].contains t
        ∧ rest.head? = some "(" then
      match readCallArgs (readAtom fuel) t rest.length true [] rest.tail with
      | .error b => .error b
      | .ok (args, after) => .ok (.call t args, after)
    else if ["AND", "OR", "NOT"].contains t ∧ rest.head? = some "(" then
      match readBoolArgs (readAtom fuel) t rest.length [] rest.tail with
      | .error b => .error b
      | .ok (args, after) => .ok (.bool t args, after)
    else if t = "__else__" then .ok (.els, rest)
    else readLiteral t rest

/-- A whole condition. -/
def readCondition (condition_str : String) : Parse Tree :=
  let s := strip condition_str.toList
  if s.isEmpty then .ok (.const (.bool true))
  else if s = "__else__".toList then .ok .els
  else
    match _tokenize s with
    | .error message => .error ⟨[], message⟩
    | .ok tokens =>
      if tokens.isEmpty then .ok (.const (.bool true))
      else
        match readAtom tokens.length tokens with
        | .error b => .error b
        | .ok (t, after) =>
          if after.isEmpty then .ok t else .error ⟨[t], "E1126: expression has extra content"⟩

section follow

variable (ctx : EdgeCtx)

/-- Evaluating what was read, up to where it cannot be read on. -/
def follow : Parse (Tree × List String) → Eval (CondVal × List String)
  | .ok (t, rest) => do
    let v ← t.run ctx
    .ok (v, rest)
  | .error b => do
    let _ ← runs ctx b.before
    .error b.message

def followAll : Parse (List Tree × List String) → Eval (List CondVal × List String)
  | .ok (ts, rest) => do
    let vs ← runs ctx ts
    .ok (vs, rest)
  | .error b => do
    let _ ← runs ctx b.before
    .error b.message

/-- Arguments are evaluated from the left. -/
theorem runs_append (ts us : List Tree) :
    runs ctx (ts ++ us) = (do let vs ← runs ctx ts; let ws ← runs ctx us; .ok (vs ++ ws)) := by
  induction ts with
  | nil =>
    simp only [List.nil_append, runs]
    cases runs ctx us <;> rfl
  | cons t ts ih =>
    simp only [List.cons_append, runs, ih]
    cases t.run ctx with
    | error m => rfl
    | ok v =>
      cases runs ctx ts with
      | error m => rfl
      | ok vs => cases runs ctx us <;> rfl

theorem runs_length {ts : List Tree} {vs : List CondVal} (h : runs ctx ts = .ok vs) :
    vs.length = ts.length := by
  induction ts generalizing vs with
  | nil =>
    obtain rfl := Except.ok.inj h
    rfl
  | cons t ts ih =>
    simp only [runs] at h
    cases hv : t.run ctx with
    | error m => simp [hv, bind, Except.bind] at h
    | ok v =>
      cases hvs : runs ctx ts with
      | error m => simp [hv, hvs, bind, Except.bind] at h
      | ok vs' =>
        simp [hv, hvs, bind, Except.bind] at h
        simp [← h, ih hvs]

/-- One more argument is evaluated after the others. -/
theorem runs_snoc {β : Type} (args : List Tree) (a : Tree) (k : List CondVal → Eval β) :
    (runs ctx (args ++ [a]) >>= k) = runs ctx args >>= fun vs => a.run ctx >>= fun v =>
      k (vs ++ [v]) := by
  rw [runs_append]
  cases runs ctx args with
  | error m => rfl
  | ok vs =>
    simp only [runs]
    cases a.run ctx <;> rfl

/-- What a text broken after some arguments evaluates to. -/
theorem followAll_after (args : List Tree) (b : Broken) :
    followAll ctx (.error (b.after args)) =
      runs ctx args >>= fun _ => runs ctx b.before >>= fun _ => .error b.message := by
  simp only [followAll, Broken.after, runs_append]
  cases runs ctx args with
  | error m => rfl
  | ok vs => cases runs ctx b.before <;> rfl

/-- Evaluations that agree on the values of the arguments agree. -/
theorem bind_congr_ok {α β : Type} {x : Eval α} {f g : α → Eval β}
    (h : ∀ a, x = .ok a → f a = g a) :
    (x >>= f) = x >>= g := by
  cases x with
  | error m => rfl
  | ok a => exact h a rfl

theorem runs_isEmpty {args : List Tree} {vs : List CondVal} (h : runs ctx args = .ok vs) :
    vs.isEmpty = args.isEmpty := by
  rw [Bool.eq_iff_iff, List.isEmpty_iff_length_eq_zero, List.isEmpty_iff_length_eq_zero,
    runs_length ctx h]

variable {evalAtom : List String → Eval (CondVal × List String)}
  {parseAtom : List String → Parse (Tree × List String)}

/-- Reading the rest of the arguments and evaluating all of them is what the engine's loop does. -/
theorem followAll_readCallArgs (h : ∀ ts, evalAtom ts = follow ctx (parseAtom ts)) (fn : String)
    (fuel : Nat) (first : Bool) (args : List Tree) (ts : List String) :
    followAll ctx (readCallArgs parseAtom fn fuel first args ts) =
      runs ctx args >>= fun vs => callArgs evalAtom fn fuel first vs ts := by
  induction fuel generalizing first args ts with
  | zero =>
    cases ts with
    | nil => simp only [readCallArgs, callArgs, followAll]
    | cons tok rest =>
      by_cases hclose : tok = ")"
      · subst hclose
        simp only [readCallArgs, callArgs, followAll]
      · simp [readCallArgs, callArgs, followAll, hclose]
  | succ fuel ih =>
    cases ts with
    | nil => simp only [readCallArgs, callArgs, followAll]
    | cons tok rest =>
      by_cases hclose : tok = ")"
      · subst hclose
        simp only [readCallArgs, callArgs, followAll]
      have hloop : ∀ vs, runs ctx args = .ok vs →
        callArgs evalAtom fn (fuel + 1) first vs (tok :: rest) =
          if !args.isEmpty && tok != "," then .error s!"E1104: {fn}() missing ',' between arguments"
          else
            match if tok = "," then rest else tok :: rest with
            | [] => .error s!"E1105: {fn}() missing argument at end"
            | t :: more =>
              if tok = "," ∧ t = ")" then .error s!"E1105: {fn}() missing argument at end"
              else if (first && tok != ",") && isBareKey t then
                callArgs evalAtom fn fuel false (vs ++ [.val (.str t)]) more
              else
                evalAtom (t :: more) >>= fun r =>
                  callArgs evalAtom fn fuel false (vs ++ [r.1]) r.2 := by
        intro vs hvs
        rw [callArgs, runs_isEmpty ctx hvs]
        · cases (if tok = "," then rest else tok :: rest) <;> rfl
        · simp [hclose]
      rw [bind_congr_ok hloop, readCallArgs]
      · generalize hhere : (if tok = "," then rest else tok :: rest) = here
        by_cases hsep : (!args.isEmpty && tok != ",") = true
        · simp only [if_pos hsep]
          rfl
        simp only [if_neg hsep]
        cases here with
        | nil => rfl
        | cons t more =>
          by_cases hend : tok = "," ∧ t = ")"
          · simp only [if_pos hend]
            rfl
          by_cases hbare : ((first && tok != ",") && isBareKey t) = true
          · simp only [if_neg hend, if_pos hbare]
            rw [ih, runs_snoc]
            rfl
          · simp only [if_neg hend, if_neg hbare, h]
            cases hatom : parseAtom (t :: more) with
            | error b =>
              rw [followAll_after]
              apply bind_congr_ok
              intro vs _
              simp only [follow]
              cases runs ctx b.before <;> rfl
            | ok a =>
              obtain ⟨a, after⟩ := a
              rw [ih, runs_snoc]
              apply bind_congr_ok
              intro vs _
              simp only [follow]
              cases a.run ctx <;> rfl
      · simp [hclose]

/-- The loop of an operator evaluates what it reads. -/
theorem followAll_readBoolArgs (h : ∀ ts, evalAtom ts = follow ctx (parseAtom ts))
    (fn : String) (fuel : Nat) (args : List Tree) (ts : List String) :
    followAll ctx (readBoolArgs parseAtom fn fuel args ts) =
      runs ctx args >>= fun vs => boolArgs evalAtom fn fuel vs ts := by
  induction fuel generalizing args ts with
  | zero =>
    cases ts with
    | nil => simp only [readBoolArgs, boolArgs, followAll]
    | cons tok rest =>
      by_cases hclose : tok = ")"
      · subst hclose
        simp only [readBoolArgs, boolArgs, followAll]
      · simp [readBoolArgs, boolArgs, followAll, hclose]
  | succ fuel ih =>
    cases ts with
    | nil => simp only [readBoolArgs, boolArgs, followAll]
    | cons tok rest =>
      by_cases hclose : tok = ")"
      · subst hclose
        simp only [readBoolArgs, boolArgs, followAll]
      have hloop : ∀ vs, runs ctx args = .ok vs → boolArgs evalAtom fn (fuel + 1) vs (tok :: rest) =
          if !args.isEmpty && tok != "," then .error s!"E1112: {fn}() missing ',' between arguments"
          else
            evalAtom (if tok = "," then rest else tok :: rest) >>= fun r =>
              boolArgs evalAtom fn fuel (vs ++ [r.1]) r.2 := by
        intro vs hvs
        rw [boolArgs, runs_isEmpty ctx hvs]
        simp [hclose]
      rw [bind_congr_ok hloop, readBoolArgs]
      · by_cases hsep : (!args.isEmpty && tok != ",") = true
        · simp only [if_pos hsep]
          rfl
        simp only [if_neg hsep, h]
        cases hatom : parseAtom (if tok = "," then rest else tok :: rest) with
        | error b =>
          rw [followAll_after]
          apply bind_congr_ok
          intro vs _
          simp only [follow]
          cases runs ctx b.before <;> rfl
        | ok a =>
          obtain ⟨a, after⟩ := a
          rw [ih, runs_snoc]
          apply bind_congr_ok
          intro vs _
          simp only [follow]
          cases a.run ctx <;> rfl
      · simp [hclose]

/-- A comparison is evaluated as it is read. -/
theorem literalOrComparison_eq (tok : String) (rest : List String) :
    literalOrComparison tok rest ctx = follow ctx (readLiteral tok rest) := by
  unfold literalOrComparison readLiteral
  cases _parse_literal tok with
  | some v => rfl
  | none =>
    obtain _ | ⟨op, _ | ⟨rhsTok, after⟩⟩ := rest
    · rfl
    · rfl
    simp only
    by_cases hop : comparisonOps.contains op = true
    · simp only [if_pos hop]
      cases _parse_literal rhsTok with
      | none => rfl
      | some rhs =>
        simp only [follow, Tree.run]
        cases _resolve_value_path tok ctx with
        | error m => rfl
        | ok lhs => cases hcompare : compareValues op lhs rhs <;> simp [hcompare, bind, Except.bind]
    · simp only [if_neg hop]
      rfl

/-- The engine's evaluator is the reader followed by the evaluation of what was read. -/
theorem _eval_atom_eq (fuel : Nat) (ts : List String) :
    _eval_atom ctx fuel ts = follow ctx (readAtom fuel ts) := by
  induction fuel generalizing ts with
  | zero => cases ts <;> rfl
  | succ fuel ih =>
    cases ts with
    | nil => rfl
    | cons t rest =>
      rw [_eval_atom, readAtom]
      by_cases hopen : t = "("
      · rw [if_pos hopen, if_pos hopen, ih]
        cases readAtom fuel rest with
        | error b =>
          simp only [follow]
          cases runs ctx b.before <;> rfl
        | ok r =>
          obtain ⟨v, after⟩ := r
          obtain _ | ⟨s, after⟩ := after
          · simp only [follow, runs]
            cases v.run ctx <;> rfl
          by_cases hclose : s = ")"
          · subst hclose
            simp only [follow]
            cases v.run ctx <;> rfl
          · simp only [follow]
            cases hv : v.run ctx with
            | error m => simp [runs, hv, hclose, bind, Except.bind]
            | ok a => simp [runs, hv, hclose, bind, Except.bind]
      rw [if_neg hopen, if_neg hopen]
      by_cases hcall : ["success", "failed", "skipped", "cancelled", "status"].contains t ∧
        rest.head? = some "("
      · rw [if_pos hcall, if_pos hcall]
        have hargs := followAll_readCallArgs ctx ih t rest.length true [] rest.tail
        simp only [runs] at hargs
        rw [← show _ = callArgs (_eval_atom ctx fuel) t rest.length true [] rest.tail from hargs]
        cases readCallArgs (readAtom fuel) t rest.length true [] rest.tail with
        | error b =>
          simp only [follow, followAll]
          cases runs ctx b.before <;> rfl
        | ok r =>
          obtain ⟨args, after⟩ := r
          simp only [follow, followAll, Tree.run]
          cases runs ctx args <;> rfl
      rw [if_neg hcall, if_neg hcall]
      by_cases hbool : ["AND", "OR", "NOT"].contains t ∧ rest.head? = some "("
      · rw [if_pos hbool, if_pos hbool]
        have hargs := followAll_readBoolArgs ctx ih t rest.length [] rest.tail
        simp only [runs] at hargs
        rw [← show _ = boolArgs (_eval_atom ctx fuel) t rest.length [] rest.tail from hargs]
        cases readBoolArgs (readAtom fuel) t rest.length [] rest.tail with
        | error b =>
          simp only [follow, followAll]
          cases runs ctx b.before <;> rfl
        | ok r =>
          obtain ⟨args, after⟩ := r
          simp only [follow, followAll, Tree.run]
          cases runs ctx args <;> rfl
      rw [if_neg hbool, if_neg hbool]
      by_cases helse : t = "__else__"
      · rw [if_pos helse, if_pos helse]
        rfl
      rw [if_neg helse, if_neg helse]
      exact literalOrComparison_eq ctx t rest

/-- Evaluating a condition is reading it and evaluating what was read. -/
theorem evaluate_edge_condition_eq (condition_str : String) :
    evaluate_edge_condition condition_str ctx =
      match readCondition condition_str with
      | .ok t => t.run ctx
      | .error b => runs ctx b.before >>= fun _ => .error b.message := by
  unfold evaluate_edge_condition readCondition
  simp only
  by_cases hblank : (strip condition_str.toList).isEmpty = true
  · simp only [if_pos hblank]
    rfl
  by_cases helse : strip condition_str.toList = "__else__".toList
  · simp only [if_neg hblank, if_pos helse]
    rfl
  simp only [if_neg hblank, if_neg helse]
  cases _tokenize (strip condition_str.toList) with
  | error m => rfl
  | ok tokens =>
    by_cases hnone : tokens.isEmpty = true
    · simp only [if_pos hnone]
      exact if_pos hnone
    simp only [if_neg hnone]
    refine (if_neg hnone).trans ?_
    rw [_eval_atom_eq]
    cases readAtom tokens.length tokens with
    | error b =>
      simp only [follow]
      cases runs ctx b.before <;> rfl
    | ok r =>
      obtain ⟨t, after⟩ := r
      by_cases hdone : after.isEmpty = true
      · simp only [follow, if_pos hdone]
        cases t.run ctx with
        | error m => rfl
        | ok v => exact if_pos hdone
      · simp only [follow, if_neg hdone, runs]
        cases t.run ctx with
        | error m => rfl
        | ok v => exact if_neg hdone

end follow

end taurus.engine.executor
