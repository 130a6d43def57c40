import Taurus.Engine.Executor.Evaluation

/-! What the evaluation of a condition needs of Python: turns for its loops, which the list of
tokens gives, and frames for its calls, which only the recursion limit gives. -/

namespace taurus.engine.executor.raising

open taurus.lib taurus.lib.loops taurus.python

variable {fullmatch : Nat → Nat} {ctx : Dict String Json} {tokens : List String}
  {eval eval' : Nat → Eval (CondVal × Nat)}

/-- A value, or a ValueError. -/
def Clean {α : Type} (x : Eval α) : Prop := Within (fun e => ∃ m, e = .ValueError m) x

theorem clean_value_error {α : Type} (message : String) : Clean (value_error message : Eval α) :=
  within_error ⟨message, rfl⟩

/-- ValueErrors are clean. -/
theorem clean_ofText {α : Type} (x : executor.Eval α) : Clean (ofText x) := by
  cases x with
  | ok a => exact within_ok a
  | error m => exact clean_value_error m

theorem not_clean_recursion {α : Type} : ¬ Clean (.error .RecursionError : Eval α) := by
  intro h
  obtain ⟨m, hm⟩ := h _ rfl
  cases hm

/-- A call with frames enough is what it calls. -/
theorem call_of_le {α : Type} {taken frames : Nat} (h : taken ≤ frames) (x : Eval α) :
    call taken frames x = x := if_pos h

/-- One without is a RecursionError. -/
theorem call_of_lt {α : Type} {taken frames : Nat} (h : frames < taken) (x : Eval α) :
    call taken frames x = .error .RecursionError :=
  if_neg (by omega)

/-- A call that returns returns what it calls. -/
theorem call_eq_ok {α : Type} {taken frames : Nat} {x : Eval α} {a : α}
    (h : call taken frames x = .ok a) : x = .ok a := by
  unfold call at h
  split_ifs at h
  exact h

/-- More frames change nothing but a RecursionError. -/
theorem cutShort_call {α : Type} {taken frames frames' : Nat} {x x' : Eval α}
    (hle : frames ≤ frames') (h : CutShort .RecursionError x x') :
    CutShort .RecursionError (call taken frames x) (call taken frames' x') := by
  by_cases htaken : taken ≤ frames
  · rw [call_of_le htaken, call_of_le (htaken.trans hle)]
    exact h
  · rw [call_of_lt (by omega)]
    exact .inl rfl

/-- A call that ends cleanly has had its frames. -/
theorem clean_call {α : Type} {taken frames : Nat} {x : Eval α} (h : Clean (call taken frames x)) :
    taken ≤ frames ∧ Clean x := by
  by_cases htaken : taken ≤ frames
  · rw [call_of_le htaken] at h
    exact ⟨htaken, h⟩
  · rw [call_of_lt (by omega)] at h
    exact absurd h not_clean_recursion

theorem ok_bind {α β : Type} (a : α) (f : α → Eval β) : (Except.ok a >>= f) = f a := rfl

section index

theorem index_of_lt {α : Type} {xs : List α} {i : Nat} (h : i < xs.length) :
    ∃ x, xs[i]? = some x ∧ index xs i = .ok x := by
  refine ⟨xs[i], List.getElem?_eq_getElem h, ?_⟩
  rw [index, List.getElem?_eq_getElem h]

/-- A look at a token never fails. -/
theorem stands_at_eq (t : String) (j : Nat) :
    stands_at tokens t j = .ok (decide (tokens[j]? = some t)) := by
  unfold stands_at
  split_ifs with hj
  · obtain ⟨u, hu, hindex⟩ := index_of_lt hj
    rw [hindex, hu]
    simp [bind, Except.bind, pure, Except.pure, beq_eq_decide]
  · rw [List.getElem?_eq_none (by omega)]
    rfl

/-- The arguments of a call end at `j`. -/
def Ends (tokens : List String) (j : Nat) : Prop := tokens[j]? = none ∨ tokens[j]? = some ")"

instance (j : Nat) : Decidable (Ends tokens j) := inferInstanceAs (Decidable (_ ∨ _))

theorem ends_at_eq (j : Nat) : ends_at tokens j = .ok (decide (Ends tokens j)) := by
  unfold ends_at
  split_ifs with hj
  · obtain ⟨u, hu, hindex⟩ := index_of_lt hj
    rw [hindex]
    simp [Ends, hu, bind, Except.bind, pure, Except.pure, beq_eq_decide]
  · have hnone : Ends tokens j := .inl (List.getElem?_eq_none (by omega))
    simp [hnone, pure, Except.pure]

theorem is_call_eq (names : List String) (t : String) (idx : Nat) :
    is_call tokens names t idx = .ok (decide (t ∈ names ∧ tokens[idx + 1]? = some "(")) := by
  unfold is_call
  split_ifs with ht
  · rw [stands_at_eq]
    simp [ht]
  · simp [ht, pure, Except.pure]

end index

section arguments

variable {fn : String} {s : Args} {tok : String}

/-- Where the arguments go on there is a token. -/
theorem exists_of_not_ends {j : Nat} (h : ¬Ends tokens j) :
    ∃ tok, tokens[j]? = some tok ∧ tok ≠ ")" ∧ j < tokens.length := by
  rw [Ends, not_or] at h
  obtain ⟨tok, htok⟩ := Option.ne_none_iff_exists'.mp h.1
  refine ⟨tok, htok, ?_, (List.getElem?_eq_some_iff.mp htok).1⟩
  rintro rfl
  exact h.2 htok

theorem index_of_some {α : Type} {xs : List α} {i : Nat} {x : α} (h : xs[i]? = some x) :
    index xs i = .ok x := by
  rw [index, h]

/-- The arguments end where no token is, or a parenthesis. -/
theorem status_arg_of_end (h : Ends tokens s.j) : status_arg tokens fn s = .ok .closed := by
  rw [status_arg, ends_at_eq, decide_eq_true h]
  rfl

/-- What a turn finds at a token. -/
theorem status_arg_of_token (h : tokens[s.j]? = some tok) (hne : tok ≠ ")") :
    status_arg tokens fn s =
      if s.args.isEmpty = false ∧
        tok ≠ "," then value_error s!"E1104: {fn}() missing ',' between arguments"
      else if tok = "," then
        if Ends tokens (s.j + 1) then value_error s!"E1105: {fn}() missing argument at end"
        else .ok (.atom (s.j + 1))
      else if s.first ∧ isBareKey tok then .ok (.bare tok (s.j + 1))
      else .ok (.atom s.j) := by
  have hends : ¬Ends tokens s.j := by simp [Ends, h, hne]
  rw [status_arg, ends_at_eq, decide_eq_false hends, ends_at_eq, index_of_some h]
  change (if s.args.isEmpty = false ∧ tok ≠ "," then _ else if tok = "," then
    (if decide (Ends tokens (s.j + 1)) = true then _ else _) else _) = _
  simp only [decide_eq_true_eq]
  rfl

theorem bool_arg_of_end (h : Ends tokens s.j) : bool_arg tokens fn s = .ok .closed := by
  rw [bool_arg, ends_at_eq, decide_eq_true h]
  rfl

/-- What it finds among the arguments of an operator. -/
theorem bool_arg_of_token (h : tokens[s.j]? = some tok) (hne : tok ≠ ")") :
    bool_arg tokens fn s =
      if s.args.isEmpty = false ∧
        tok ≠ "," then value_error s!"E1112: {fn}() missing ',' between arguments"
      else if tok = "," then .ok (.atom (s.j + 1))
      else .ok (.atom s.j) := by
  have hends : ¬Ends tokens s.j := by simp [Ends, h, hne]
  rw [bool_arg, ends_at_eq, decide_eq_false hends, index_of_some h]
  rfl

/-- What the look at the next argument gives: it never fails but with a ValueError, and it finds an
argument at the present token or behind the comma that stands there. -/
inductive Found (tokens : List String) (j : Nat) : Eval Arg → Prop
  | closed (h : Ends tokens j) : Found tokens j (.ok .closed)
  | bare (key : String) (h : j < tokens.length) : Found tokens j (.ok (.bare key (j + 1)))
  | here (h : j < tokens.length) : Found tokens j (.ok (.atom j))
  | behind (h : j < tokens.length) : Found tokens j (.ok (.atom (j + 1)))
  | refused (message : String) : Found tokens j (value_error message)

/-- A turn looks at its token and the next. -/
theorem found_status_arg (fn : String) (s : Args) : Found tokens s.j (status_arg tokens fn s) := by
  by_cases hends : Ends tokens s.j
  · rw [status_arg_of_end hends]
    exact .closed hends
  · obtain ⟨tok, htok, hne, hlt⟩ := exists_of_not_ends hends
    rw [status_arg_of_token htok hne]
    split_ifs
    · exact .refused _
    · exact .refused _
    · exact .behind hlt
    · exact .bare _ hlt
    · exact .here hlt

theorem found_bool_arg (fn : String) (s : Args) : Found tokens s.j (bool_arg tokens fn s) := by
  by_cases hends : Ends tokens s.j
  · rw [bool_arg_of_end hends]
    exact .closed hends
  · obtain ⟨tok, htok, hne, hlt⟩ := exists_of_not_ends hends
    rw [bool_arg_of_token htok hne]
    split_ifs
    · exact .refused _
    · exact .behind hlt
    · exact .here hlt

variable {next : Args → Eval Arg}

/-- An evaluation that consumes a token at least, and none that is not there. -/
def Consumes (tokens : List String) (eval : Nat → Eval (CondVal × Nat)) : Prop :=
  ∀ k v j, eval k = .ok (v, j) → k < j ∧ j ≤ tokens.length

/-- One turn of an argument loop. -/
inductive Turned (tokens : List String) (eval : Nat → Eval (CondVal × Nat)) (s : Args) :
    Eval (Args ⊕ Args) → Prop
  | left (h : Ends tokens s.j) : Turned tokens eval s (.ok (.inr s))
  | key (s' : Args) (h : s'.j = s.j + 1) (hlt : s.j < tokens.length) :
    Turned tokens eval s (.ok (.inl s'))
  | value (s' : Args) {k : Nat} {v : CondVal} (hle : s.j ≤ k) (heval : eval k = .ok (v, s'.j)) :
    Turned tokens eval s (.ok (.inl s'))
  | refused (message : String) : Turned tokens eval s (value_error message)
  | failed {k : Nat} {e : Raised} (hle : s.j ≤ k) (heval : eval k = .error e) :
    Turned tokens eval s (.error e)

/-- An argument is evaluated, and the loop goes on behind it. -/
theorem args_step_atom {k : Nat} (h : next s = .ok (.atom k)) :
    args_step next eval s = eval k >>= fun x => pure (.inl ⟨s.args ++ [x.1], false, x.2⟩) := by
  rw [args_step, h]
  rfl

/-- One turn ends the loop, raises or moves on. -/
theorem turned_args_step (hnext : ∀ s, Found tokens s.j (next s))
    (eval : Nat → Eval (CondVal × Nat)) (s : Args) :
    Turned tokens eval s (args_step next eval s) := by
  have hatom : ∀ k, next s = .ok (.atom k) → s.j ≤ k →
      Turned tokens eval s (args_step next eval s) := by
    intro k hk hle
    rw [args_step_atom hk]
    cases heval : eval k with
    | error e => exact .failed hle heval
    | ok x => exact .value ⟨s.args ++ [x.1], false, x.2⟩ hle heval
  have hfound := hnext s
  cases hs : next s with
  | error e =>
    rw [hs] at hfound
    rw [args_step, hs]
    cases hfound with
    | refused message => exact .refused message
  | ok arg =>
    rw [hs] at hfound
    cases hfound with
    | closed h =>
      rw [args_step, hs]
      exact .left h
    | bare key h =>
      rw [args_step, hs]
      exact .key ⟨s.args ++ [.val (.str key)], false, s.j + 1⟩ rfl h
    | here h => exact hatom _ hs (Nat.le_refl _)
    | behind h => exact hatom _ hs (Nat.le_succ _)

end arguments

section progress

variable {next : Args → Eval Arg} {idx : Nat}

/-- Each turn leaves fewer tokens. -/
theorem advances_args (hnext : ∀ s, Found tokens s.j (next s)) (heval : Consumes tokens eval)
    (start : Nat) :
    Advances (args_step next eval) (fun s => start ≤ s.j) (fun s => tokens.length - s.j) := by
  intro s s' hs hstep
  have hturned := turned_args_step hnext eval s
  rw [hstep] at hturned
  change start ≤ s.j at hs
  change start ≤ s'.j ∧ tokens.length - s'.j < tokens.length - s.j
  cases hturned with
  | key s' hj hlt => omega
  | value s' hle hvalue =>
    obtain ⟨hlt, hend⟩ := heval _ _ _ hvalue
    omega

/-- The argument loop ends behind the opening parenthesis. -/
theorem call_args_ok (hnext : ∀ s, Found tokens s.j (next s))
    (heval : Consumes tokens eval) {s : Args} (h : call_args tokens next eval idx = .ok s) :
    idx + 2 ≤ s.j := by
  unfold call_args at h
  refine loop_spec (Q := fun r => ∀ s, r = .ok s → idx + 2 ≤ s.j)
    (advances_args hnext heval (idx + 2)) ?_ ?_
    (Nat.le_refl _) (by omega) s h
  · rintro s s' hs hstep _ ⟨⟩
    have hturned := turned_args_step hnext eval s
    rw [hstep] at hturned
    cases hturned
    exact hs
  · rintro s e - - _ ⟨⟩

/-- A group consumes its parentheses. -/
theorem consumes_group (h : Consumes tokens eval) : Consumes tokens (group tokens eval) := by
  intro idx v j hgroup
  unfold group at hgroup
  obtain ⟨⟨v', k⟩, hk, hgroup⟩ := bind_eq_ok.mp hgroup
  obtain ⟨hlt, -⟩ := h _ _ _ hk
  simp only [stands_at_eq, ok_bind, decide_eq_true_eq] at hgroup
  split_ifs at hgroup with hparen
  · obtain ⟨rfl, rfl⟩ := Prod.mk.inj (Except.ok.inj hgroup)
    obtain ⟨hend, -⟩ := List.getElem?_eq_some_iff.mp hparen
    omega
  · cases hgroup

/-- A predicate consumes its name. -/
theorem consumes_status_predicate (h : Consumes tokens eval) (fn : String) :
    Consumes tokens (status_predicate ctx tokens eval fn) := by
  intro idx v j hcall
  unfold status_predicate at hcall
  obtain ⟨s, hs, hcall⟩ := bind_eq_ok.mp hcall
  have hstart := call_args_ok (found_status_arg fn) h hs
  split_ifs at hcall with hend
  · obtain ⟨v', -, hcall⟩ := bind_eq_ok.mp hcall
    obtain ⟨rfl, rfl⟩ := Prod.mk.inj (Except.ok.inj hcall)
    omega
  · cases hcall

theorem consumes_bool_operator (h : Consumes tokens eval) (fn : String) :
    Consumes tokens (bool_operator tokens eval fn) := by
  intro idx v j hcall
  unfold bool_operator at hcall
  obtain ⟨s, hs, hcall⟩ := bind_eq_ok.mp hcall
  have hstart := call_args_ok (found_bool_arg fn) h hs
  split_ifs at hcall with hend
  · obtain ⟨v', -, hcall⟩ := bind_eq_ok.mp hcall
    obtain ⟨rfl, rfl⟩ := Prod.mk.inj (Except.ok.inj hcall)
    omega
  · cases hcall

/-- A constant takes one token, a comparison three. -/
theorem literalOrComparison_ok {t : String} {v : CondVal} {j : Nat} (hidx : idx < tokens.length)
    (h : literalOrComparison ctx tokens t idx = .ok (v, j)) : idx < j ∧ j ≤ tokens.length := by
  unfold literalOrComparison at h
  split at h
  · obtain ⟨rfl, rfl⟩ := Prod.mk.inj (Except.ok.inj h)
    omega
  · split_ifs at h with hthree
    · obtain ⟨op, -, h⟩ := bind_eq_ok.mp h
      split_ifs at h
      · obtain ⟨rhsTok, -, h⟩ := bind_eq_ok.mp h
        split at h
        · cases h
        · obtain ⟨lhs, -, h⟩ := bind_eq_ok.mp h
          obtain ⟨result, -, h⟩ := bind_eq_ok.mp h
          obtain ⟨rfl, rfl⟩ := Prod.mk.inj (Except.ok.inj h)
          omega
      · cases h
    · cases h

end progress

section body

variable {evalAtom evalExpr : Nat → Eval (CondVal × Nat)} {frames idx : Nat} {t : String}

theorem atom_body_of_none (h : tokens[idx]? = none) :
    atom_body fullmatch ctx tokens frames evalAtom evalExpr idx =
      value_error "E1102: expression unexpectedly ended" := by
  rw [atom_body, if_pos (List.getElem?_eq_none_iff.mp h)]

/-- The token at `idx` decides what kind of atom is read. -/
theorem atom_body_of_token (h : tokens[idx]? = some t) :
    atom_body fullmatch ctx tokens frames evalAtom evalExpr idx =
      if t = "(" then group tokens evalExpr idx
      else if t ∈ status_names ∧ tokens[idx + 1]? = some "(" then
        call (key_frames fullmatch tokens (idx + 2)) frames
          (status_predicate ctx tokens evalAtom t idx)
      else if t ∈ bool_names ∧ tokens[idx + 1]? = some "(" then bool_operator tokens evalExpr t idx
      else if t = "__else__" then .ok (.els, idx + 1)
      else call 1 frames (literalOrComparison ctx tokens t idx) := by
  obtain ⟨hlt, -⟩ := List.getElem?_eq_some_iff.mp h
  rw [atom_body, if_neg (by omega), index_of_some h]
  simp only [ok_bind, is_call_eq, decide_eq_true_eq]
  rfl

/-- An atom consumes a token. -/
theorem consumes_atom_body (hatom : Consumes tokens evalAtom) (hexpr : Consumes tokens evalExpr) :
    Consumes tokens (atom_body fullmatch ctx tokens frames evalAtom evalExpr) := by
  intro idx v j h
  cases ht : tokens[idx]? with
  | none =>
    rw [atom_body_of_none ht] at h
    cases h
  | some t =>
    obtain ⟨hlt, -⟩ := List.getElem?_eq_some_iff.mp ht
    rw [atom_body_of_token ht] at h
    split_ifs at h
    · exact consumes_group hexpr idx v j h
    · exact consumes_status_predicate hatom t idx v j (call_eq_ok h)
    · exact consumes_bool_operator hexpr t idx v j h
    · obtain ⟨rfl, rfl⟩ := Prod.mk.inj (Except.ok.inj h)
      omega
    · exact literalOrComparison_ok hlt (call_eq_ok h)

/-- Every call of the evaluation consumes a token at least. -/
theorem consumes_eval (fullmatch : Nat → Nat) (ctx : Dict String Json) (tokens : List String)
    (frames : Nat) :
    Consumes tokens (_eval_atom fullmatch ctx tokens frames) ∧
      Consumes tokens (_eval_expr fullmatch ctx tokens frames) := by
  induction frames with
  | zero =>
    constructor
    · intro k v j h
      rw [_eval_atom] at h
      cases h
    · intro k v j h
      rw [_eval_expr] at h
      cases h
  | succ frames ih =>
    constructor
    · intro k v j h
      rw [_eval_atom] at h
      exact consumes_atom_body ih.1 ih.2 k v j h
    · intro k v j h
      rw [_eval_expr] at h
      exact ih.1 k v j h

end body

section frames

variable {next : Args → Eval Arg} {idx : Nat}

/-- The same evaluation, but that it may run out of frames. -/
def Shorter (eval eval' : Nat → Eval (CondVal × Nat)) : Prop :=
  ∀ k, CutShort .RecursionError (eval k) (eval' k)

/-- A turn with fewer frames is cut short, or the same. -/
theorem shorter_args_step (h : Shorter eval eval') (s : Args) :
    CutShort .RecursionError (args_step next eval s) (args_step next eval' s) := by
  unfold args_step
  apply (CutShort.refl (next s)).bind
  intro arg
  cases arg with
  | closed => exact .refl _
  | bare key j => exact .refl _
  | atom k => exact (h k).bind fun _ => .refl _

theorem shorter_call_args (h : Shorter eval eval') :
    CutShort .RecursionError (call_args tokens next eval idx) (call_args tokens next eval' idx) :=
  cutShort_loop (shorter_args_step h) _ _

theorem shorter_atom_body {frames frames' : Nat}
    {evalAtom evalAtom' evalExpr evalExpr' : Nat → Eval (CondVal × Nat)} (hle : frames ≤ frames')
    (hatom : Shorter evalAtom evalAtom') (hexpr : Shorter evalExpr evalExpr') :
    Shorter (atom_body fullmatch ctx tokens frames evalAtom evalExpr)
      (atom_body fullmatch ctx tokens frames' evalAtom' evalExpr') := by
  intro idx
  cases ht : tokens[idx]? with
  | none =>
    rw [atom_body_of_none ht, atom_body_of_none ht]
    exact .refl _
  | some t =>
    rw [atom_body_of_token ht, atom_body_of_token ht]
    refine cutShort_ite _ ?_ (cutShort_ite _ ?_ (cutShort_ite _ ?_ (cutShort_ite _ (.refl _) ?_)))
    · exact (hexpr (idx + 1)).bind fun _ => .refl _
    · exact cutShort_call hle ((shorter_call_args hatom).bind fun _ => .refl _)
    · exact (shorter_call_args hexpr).bind fun _ => .refl _
    · exact cutShort_call hle (.refl _)

theorem shorter_succ (fullmatch : Nat → Nat) (ctx : Dict String Json) (tokens : List String)
    (frames : Nat) :
    Shorter (_eval_atom fullmatch ctx tokens frames)
      (_eval_atom fullmatch ctx tokens (frames + 1)) ∧
      Shorter (_eval_expr fullmatch ctx tokens frames)
        (_eval_expr fullmatch ctx tokens (frames + 1)) := by
  induction frames with
  | zero =>
    constructor
    · intro k
      rw [_eval_atom]
      exact .inl rfl
    · intro k
      rw [_eval_expr]
      exact .inl rfl
  | succ frames ih =>
    constructor
    · intro k
      rw [_eval_atom, _eval_atom]
      exact shorter_atom_body (Nat.le_succ frames) ih.1 ih.2 k
    · intro k
      rw [_eval_expr, _eval_expr]
      exact ih.1 k

/-- Or with any number less. -/
theorem shorter_of_le {frames frames' : Nat} (hle : frames ≤ frames') :
    Shorter (_eval_atom fullmatch ctx tokens frames) (_eval_atom fullmatch ctx tokens frames') ∧
      Shorter (_eval_expr fullmatch ctx tokens frames)
        (_eval_expr fullmatch ctx tokens frames') := by
  induction hle with
  | refl => exact ⟨fun _ => .refl _, fun _ => .refl _⟩
  | step _ ih =>
    obtain ⟨hatom, hexpr⟩ := shorter_succ fullmatch ctx tokens _
    exact ⟨fun k => CutShort.trans (ih.1 k) (hatom k), fun k => CutShort.trans (ih.2 k) (hexpr k)⟩

/-- Two evaluations that agree where neither runs out of frames. -/
def Agree (eval eval' : Nat → Eval (CondVal × Nat)) : Prop :=
  ∀ k, eval k ≠ .error .RecursionError → eval' k ≠ .error .RecursionError → eval k = eval' k

theorem Shorter.agree (h : Shorter eval eval') : Agree eval eval' := fun k hk _ => (h k).eq hk

theorem Agree.symm (h : Agree eval eval') : Agree eval' eval := fun k hk hk' => (h k hk' hk).symm

/-- Two evaluations that run out of no frames agree. -/
theorem agree_eval (frames frames' : Nat) :
    Agree (_eval_atom fullmatch ctx tokens frames) (_eval_atom fullmatch ctx tokens frames') ∧
      Agree (_eval_expr fullmatch ctx tokens frames) (_eval_expr fullmatch ctx tokens frames') := by
  obtain hle | hle := Nat.le_total frames frames'
  · obtain ⟨hatom, hexpr⟩ := @shorter_of_le fullmatch ctx tokens _ _ hle
    exact ⟨hatom.agree, hexpr.agree⟩
  · obtain ⟨hatom, hexpr⟩ := @shorter_of_le fullmatch ctx tokens _ _ hle
    exact ⟨hatom.agree.symm, hexpr.agree.symm⟩

end frames

end taurus.engine.executor.raising
