import Taurus.Engine.Executor.Frames
import Taurus.Engine.Properties.LoopResults
import Taurus.Engine.Properties.Shorthand

/-! The evaluation of a condition by index, with all that Python can raise, gives what the plain evaluation on the list
of tokens gives, where it does not run out of frames. -/

namespace taurus.engine.executor

open taurus.lib taurus.python

/-- The context as the JSON object that is passed in. -/
def EdgeCtx.json (ctx : EdgeCtx) : Dict String Json :=
  [("workflow", .obj ctx.workflow), ("trigger", .obj ctx.trigger),
    ("node_statuses", .obj (ctx.node_statuses.map fun row => (row.1, .int row.2.toInt))),
    ("node_outputs", .obj (ctx.node_outputs.map fun row => (row.1, .obj row.2)))]

namespace raising

open taurus.lib.loops

variable {fullmatch : Nat → Nat} {ctx : EdgeCtx} {tokens : List String}

section text

/-- A token is not empty. -/
theorem tokenAt_shorter {cs tok rest : List Char} (h : tokenAt cs = some (tok, rest)) :
    cs = tok ++ rest ∧ rest.length < cs.length := by
  obtain ⟨rfl, hform⟩ := tokenAt_split h
  have hne : tok ≠ [] := by
    obtain ⟨body, rfl⟩ | ⟨body, rfl⟩ | ⟨hne, -⟩ := hform
    · simp
    · simp
    · exact hne
  have := List.length_pos_iff.mpr hne
  exact ⟨rfl, by rw [List.length_append]; omega⟩

/-- Turns for every character are enough for the loop of the tokenizer. -/
theorem tokenizeLoop_enough {fuel fuel' : Nat} {cs : List Char} (h : cs.length ≤ fuel)
    (h' : cs.length ≤ fuel') :
    tokenizeLoop fuel cs = tokenizeLoop fuel' cs := by
  induction hlength : cs.length using Nat.strong_induction_on generalizing cs fuel fuel' with
  | _ n ih =>
    cases cs with
    | nil => cases fuel <;> cases fuel' <;> rfl
    | cons c cs =>
      rw [List.length_cons] at h h' hlength
      obtain ⟨fuel, rfl⟩ : ∃ more, fuel = more + 1 := ⟨fuel - 1, by omega⟩
      obtain ⟨fuel', rfl⟩ : ∃ more, fuel' = more + 1 := ⟨fuel' - 1, by omega⟩
      rw [tokenizeLoop, tokenizeLoop]
      split_ifs
      · exact ih cs.length (by omega) (by omega) (by omega) rfl
      · cases htoken : tokenAt (c :: cs) with
        | none => rfl
        | some found =>
          obtain ⟨-, hless⟩ := tokenAt_shorter htoken
          rw [List.length_cons] at hless
          have hrest : tokenizeLoop fuel found.2 = tokenizeLoop fuel' found.2 :=
            ih found.2.length (by omega) (by omega) (by omega) rfl
          simp only [hrest]

/-- Leading space does not change the tokens. -/
theorem tokenizeLoop_dropWhile {fuel fuel' : Nat} {cs : List Char} (h : cs.length ≤ fuel)
    (h' : (cs.dropWhile isspace).length ≤ fuel') :
    tokenizeLoop fuel cs = tokenizeLoop fuel' (cs.dropWhile isspace) := by
  have hblank : ∀ c ∈ cs.takeWhile isspace, isspace c = true :=
    fun c hc => List.mem_takeWhile_imp hc
  have hspaces := tokenizeLoop_spaces hblank fuel' (cs.dropWhile isspace)
  rw [List.takeWhile_append_dropWhile] at hspaces
  rw [← hspaces]
  have hlength : (cs.takeWhile isspace).length + (cs.dropWhile isspace).length = cs.length := by
    rw [← List.length_append, List.takeWhile_append_dropWhile]
  exact tokenizeLoop_enough h (by omega)

/-- A turn of the tokenizer, by the text at the position. -/
theorem tokenize_step_of_drop {expr cs : List Char} {pos : Nat} {c : Char} (toks : List String)
    (h : expr.drop pos = c :: cs) :
    tokenize_step expr (toks, pos) =
      if isspace c = true then .ok (.inl (toks, pos + 1))
      else match tokenAt (c :: cs) with
        | none => value_error "E1100: unrecognized character in condition expression"
        | some (tok, rest) =>
          .ok (.inl (toks ++ [String.ofList tok],
            expr.length - (rest.dropWhile isspace).length)) := by
  have hpos : pos < expr.length := by
    by_contra hle
    rw [List.drop_eq_nil_of_le (by omega)] at h
    cases h
  have hget : expr[pos]? = some c := by
    rw [← List.head?_drop, h]
    rfl
  unfold tokenize_step
  rw [if_pos hpos, index_of_some hget, ok_bind, h]
  rfl

/-- The loop over positions reads the tokens of the text behind the position. -/
theorem tokenize_loop {expr cs : List Char} {turns fuel pos : Nat} {toks : List String}
    (hdrop : expr.drop pos = cs) (hturns : cs.length < turns) (hfuel : cs.length ≤ fuel) :
    loop .unfinished (tokenize_step expr) turns (toks, pos) =
      ofText ((tokenizeLoop fuel cs).map (toks ++ ·)) := by
  induction turns generalizing toks pos fuel cs with
  | zero => omega
  | succ turns ih =>
    cases cs with
    | nil =>
      have hend : ¬pos < expr.length := by
        have := List.drop_eq_nil_iff.mp hdrop
        omega
      rw [loop, tokenize_step, if_neg hend]
      cases fuel <;> simp [tokenizeLoop, ofText, Except.map, pure, Except.pure]
    | cons c cs =>
      rw [List.length_cons] at hturns hfuel
      obtain ⟨fuel, rfl⟩ : ∃ more, fuel = more + 1 := ⟨fuel - 1, by omega⟩
      rw [loop, tokenize_step_of_drop toks hdrop, tokenizeLoop]
      by_cases hspace : isspace c = true
      · have hnext : expr.drop (pos + 1) = cs := by
          rw [← List.drop_drop, hdrop]
          rfl
        rw [if_pos hspace, if_pos hspace]
        exact ih hnext (by omega) (by omega)
      · rw [if_neg hspace, if_neg hspace]
        cases htoken : tokenAt (c :: cs) with
        | none => rfl
        | some found =>
          obtain ⟨tok, rest⟩ := found
          obtain ⟨hsplit, hless⟩ := tokenAt_shorter htoken
          rw [List.length_cons] at hless
          -- the blanks behind the token are skipped with it
          have hshort := (List.dropWhile_suffix (l := rest) isspace).length_le
          have hsuffix : rest.dropWhile isspace <:+ expr := by
            refine (List.dropWhile_suffix isspace).trans ((List.suffix_append tok rest).trans ?_)
            rw [← hsplit, ← hdrop]
            exact List.drop_suffix pos expr
          have hfuel' : tokenizeLoop fuel rest =
              tokenizeLoop (rest.dropWhile isspace).length (rest.dropWhile isspace) :=
            tokenizeLoop_dropWhile (by omega) (Nat.le_refl _)
          simp only [hfuel', ih (List.suffix_iff_eq_drop.mp hsuffix).symm
            (Nat.lt_of_le_of_lt hshort (by omega)) (Nat.le_refl _)]
          cases tokenizeLoop (rest.dropWhile isspace).length (rest.dropWhile isspace) with
          | error e => rfl
          | ok more => simp [ofText, Except.map, bind, Except.bind, pure, Except.pure]

/-- The tokens of a text. -/
theorem tokenize_eq (expr : List Char) : _tokenize expr = ofText (executor._tokenize expr) := by
  have hloop : loop .unfinished (tokenize_step expr) (expr.length + 1) ([], 0) =
      ofText ((tokenizeLoop expr.length expr).map ([] ++ ·)) :=
    tokenize_loop List.drop_zero (Nat.lt_succ_self _) (Nat.le_refl _)
  rw [_tokenize, executor._tokenize, hloop]
  cases tokenizeLoop expr.length expr <;> rfl

end text

section context

theorem or_empty_obj (kvs : Dict String Json) : or_empty (.obj kvs) = .obj kvs := by
  cases kvs <;> rfl

theorem get?_map_values {β γ : Type} (f : β → γ) (d : Dict String β) (k : String) :
    Dict.get? (d.map fun row => (row.1, f row.2)) k = (Dict.get? d k).map f := by
  induction d with
  | nil => rfl
  | cons row d ih =>
    rw [List.map_cons, Dict.get?_cons, Dict.get?_cons, ih]
    split_ifs <;> rfl

/-- Reading a status from the document of a context. -/
theorem get_status (ctx : EdgeCtx) (key : String) :
    get (or_empty (getJson ctx.json "node_statuses")) key =
      .ok (((Dict.get? ctx.node_statuses key).map fun s => Json.int s.toInt).getD .null) := by
  have hobj : getJson ctx.json "node_statuses" =
    .obj (ctx.node_statuses.map fun row => (row.1, .int row.2.toInt)) := rfl
  rw [hobj, or_empty_obj, get, getJson, get?_map_values fun s : Status => Json.int s.toInt]

/-- Reading an output from it. -/
theorem get_output (ctx : EdgeCtx) (key : String) :
    get (or_empty (getJson ctx.json "node_outputs")) key =
      .ok (((Dict.get? ctx.node_outputs key).map Json.obj).getD .null) := by
  have hobj : getJson ctx.json "node_outputs" =
    .obj (ctx.node_outputs.map fun row => (row.1, .obj row.2)) := rfl
  rw [hobj, or_empty_obj, get, getJson, get?_map_values Json.obj]

theorem splitOn_ne_nil (sep : Char) (cs : List Char) : splitOn sep cs ≠ [] := by
  cases cs with
  | nil => simp [splitOn]
  | cons c cs =>
    rw [splitOn]
    split_ifs
    · simp
    · split <;> simp

/-- A value path leads to the same value in both readings. -/
theorem resolve_value_path_json (path : String) (ctx : EdgeCtx) :
    _resolve_value_path path ctx.json = ofText (executor._resolve_value_path path ctx) := by
  have hworkflow : or_empty (getJson ctx.json "workflow") = .obj ctx.workflow :=
    or_empty_obj ctx.workflow
  have htrigger : or_empty (getJson ctx.json "trigger") = .obj ctx.trigger :=
    or_empty_obj ctx.trigger
  unfold _resolve_value_path executor._resolve_value_path
  rw [hworkflow, htrigger]
  by_cases hempty : path = ""
  · rw [if_pos hempty, if_pos hempty]
    rfl
  rw [if_neg hempty, if_neg hempty]
  have hwords : (splitOn '.' path.toList).map String.ofList ≠ [] := by
    rw [ne_eq, List.map_eq_nil_iff]
    exact splitOn_ne_nil _ _
  generalize (splitOn '.' path.toList).map String.ofList = words at hwords ⊢
  split
  · exact absurd rfl hwords
  · rfl
  · rfl
  · next node_key steps _ _ =>
    by_cases hsteps : steps ≠ []
    · simp only [if_pos hsteps]
      rfl
    · simp only [if_neg hsteps, get_status]
      cases Dict.get? ctx.node_statuses node_key <;> rfl
  · next node_key steps _ _ =>
    simp only [get_output, ok_bind]
    cases Dict.get? ctx.node_outputs node_key with
    | none =>
      cases steps <;> rfl
    | some out => rfl
  · simp_all
    rfl

/-- Two values compare in both readings or in neither. -/
theorem compare_cases (op : String) (lhs : Json) (rhs : CondVal) :
    (∃ b, compare op lhs rhs = .ok b ∧ executor.compareValues op lhs rhs = .ok b) ∨
      compare op lhs rhs = .error .TypeError ∧
        executor.compareValues op lhs rhs =
          .error "E1118: incompatible types in comparison operation" := by
  unfold compare
  simp only
  split
  · exact .inl ⟨_, rfl, rfl⟩
  · exact .inl ⟨_, rfl, rfl⟩
  · simp only [executor.compareValues]
    cases rhs.above? lhs with
    | none => exact .inr ⟨rfl, rfl⟩
    | some b => exact .inl ⟨b, rfl, rfl⟩
  · simp only [executor.compareValues]
    cases rhs.below? lhs with
    | none => exact .inr ⟨rfl, rfl⟩
    | some b => exact .inl ⟨b, rfl, rfl⟩
  · simp only [executor.compareValues]
    cases rhs.at_least? lhs with
    | none => exact .inr ⟨rfl, rfl⟩
    | some b => exact .inl ⟨b, rfl, rfl⟩
  · unfold executor.compareValues
    simp only [*]
    cases rhs.at_most? lhs with
    | none => exact .inr ⟨rfl, rfl⟩
    | some b => exact .inl ⟨b, rfl, rfl⟩

/-- The TypeError of operands without an order is caught. -/
theorem compareValues_json (op : String) (lhs : Json) (rhs : CondVal) :
    compareValues op lhs rhs = ofText (executor.compareValues op lhs rhs) := by
  unfold compareValues
  obtain ⟨b, hleft, hright⟩ | ⟨hleft, hright⟩ := compare_cases op lhs rhs <;>
    rw [hleft, hright] <;> rfl

/-- A status call gives the same answer in both. -/
theorem statusCall_json (fn : String) (args : List CondVal) (ctx : EdgeCtx) :
    statusCall fn args ctx.json = ofText (executor.statusCall fn args ctx) := by
  have hstatus : ∀ key want,
      (((Dict.get? ctx.node_statuses key).map fun s => Json.int s.toInt).getD .null).eqLiteral
      (.int want.toInt) =
        (Dict.get? ctx.node_statuses key == some want) := by
    intro key want
    cases Dict.get? ctx.node_statuses key with
    | none => rfl
    | some s => cases s <;> cases want <;> rfl
  unfold statusCall executor.statusCall
  rcases args with _ | ⟨_ | v | _, more⟩ <;> try rfl
  cases v <;> try rfl
  next key =>
    simp only [get_status, ok_bind, hstatus]
    cases status_map fn with
    | some want =>
      simp only
      split_ifs <;> rfl
    | none =>
      -- a second argument that is a text names a status
      rcases more with _ | ⟨_ | w | _, rest⟩ <;> try rfl
      cases w <;> try rfl
      next name =>
        cases rest with
        | nil => cases hname : expected_map name <;> simp only [hname] <;> rfl
        | cons => rfl

end context

section agreement

variable {α β : Type} {fuel : Nat} {eval : Nat → Eval (CondVal × Nat)}
  {evalAtom : List String → executor.Eval (CondVal × List String)}

/-- What is found by index is what is found on the list of tokens, or the evaluation
is cut short. -/
inductive Gives (tokens : List String) : Eval (α × Nat) → executor.Eval (α × List String) → Prop
  | cut (y : executor.Eval (α × List String)) : Gives tokens (.error .RecursionError) y
  | value (a : α) {j : Nat} (h : j ≤ tokens.length) :
    Gives tokens (.ok (a, j)) (.ok (a, tokens.drop j))
  | refused (message : String) : Gives tokens (value_error message) (.error message)

/-- Readings that agree go on to readings that agree. -/
theorem Gives.bind {x : Eval (α × Nat)} {y : executor.Eval (α × List String)}
    {f : α × Nat → Eval (β × Nat)} {g : α × List String → executor.Eval (β × List String)}
    (h : Gives tokens x y) (hnext : ∀ a j, x = .ok (a, j) → j ≤ tokens.length →
      Gives tokens (f (a, j)) (g (a, tokens.drop j))) :
    Gives tokens (x >>= f) (y >>= g) := by
  cases h with
  | cut y => exact .cut _
  | value a hj => exact hnext a _ rfl hj
  | refused message => exact .refused message

/-- A call that has no frames is cut short. -/
theorem Gives.call {x : Eval (α × Nat)} {y : executor.Eval (α × List String)} (h : Gives tokens x y)
    (taken frames : Nat) :
    Gives tokens (call taken frames x) y := by
  unfold raising.call
  split_ifs
  · exact h
  · exact .cut y

/-- The values are those of the evaluation on the list, wherever the atom begins. -/
def Tracks (tokens : List String) (fuel : Nat) (eval : Nat → Eval (CondVal × Nat))
    (evalAtom : List String → executor.Eval (CondVal × List String)) : Prop :=
  ∀ k, tokens.length - k ≤ fuel → Gives tokens (eval k) (evalAtom (tokens.drop k))

/-- The look behind the arguments of a call. -/
def closing (tokens : List String) (message : String) (s : Args) : Eval (List CondVal × Nat) :=
  if s.j < tokens.length then .ok (s.args, s.j + 1) else value_error message

theorem drop_eq_cons {j : Nat} {tok : String} (h : tokens[j]? = some tok) :
    tokens.drop j = tok :: tokens.drop (j + 1) := by
  obtain ⟨hlt, rfl⟩ := List.getElem?_eq_some_iff.mp h
  exact List.drop_eq_getElem_cons hlt

section loops

variable {next : Args → Eval Arg} {message : String} {turns : Nat} {s : Args}

theorem loop_of_closed (h : next s = .ok .closed) :
    loop .unfinished (args_step next eval) (turns + 1) s = .ok s := by
  rw [loop, args_step, h]
  rfl

theorem loop_of_refused (h : next s = value_error message) :
    loop .unfinished (args_step next eval) (turns + 1) s = value_error message := by
  rw [loop, args_step, h]
  rfl

theorem loop_of_bare {key : String} {j : Nat} (h : next s = .ok (.bare key j)) :
    loop .unfinished (args_step next eval) (turns + 1) s =
      loop .unfinished (args_step next eval) turns ⟨s.args ++ [.val (.str key)], false, j⟩ := by
  rw [loop, args_step, h]
  rfl

theorem loop_of_atom {k : Nat} (h : next s = .ok (.atom k)) :
    loop .unfinished (args_step next eval) (turns + 1) s =
      eval k >>= fun x => loop .unfinished
        (args_step next eval) turns ⟨s.args ++ [x.1], false, x.2⟩ := by
  rw [loop, args_step_atom h]
  cases eval k <;> rfl

/-- Where the arguments end, the call is closed or it is refused. -/
theorem gives_closing {list : List String → executor.Eval (List CondVal × List String)}
    (hnil : list [] = .error message) (hclosed : ∀ rest, list (")" :: rest) = .ok (s.args, rest))
    (h : Ends tokens s.j) :
    Gives tokens (closing tokens message s) (list (tokens.drop s.j)) := by
  unfold closing
  obtain hnone | hclose := h
  · have hlength := List.getElem?_eq_none_iff.mp hnone
    rw [if_neg (by omega), List.drop_eq_nil_of_le hlength, hnil]
    exact .refused message
  · obtain ⟨hlt, -⟩ := List.getElem?_eq_some_iff.mp hclose
    rw [if_pos hlt, drop_eq_cons hclose, hclosed]
    exact .value s.args hlt

end loops

/-- The arguments of a status call agree in both readings. -/
theorem gives_status_args (h : Tracks tokens fuel eval evalAtom)
    (hconsumes : Consumes tokens eval) (fn : String) {turns n : Nat} {s : Args}
    (hturns : tokens.length - s.j < turns) (hn : tokens.length - s.j ≤ n)
    (hfuel : tokens.length - s.j ≤ fuel) :
    Gives tokens
      (loop .unfinished (args_step
        (status_arg tokens fn) eval) turns s >>= closing tokens s!"E1106: {fn}() missing ')'")
      (callArgs evalAtom fn n s.first s.args (tokens.drop s.j)) := by
  induction turns generalizing s n with
  | zero => omega
  | succ turns ih =>
    by_cases hends : Ends tokens s.j
    · rw [loop_of_closed (status_arg_of_end hends), ok_bind]
      exact gives_closing (by simp only [callArgs]) (by simp [callArgs]) hends
    · obtain ⟨tok, htok, hne, hlt⟩ := exists_of_not_ends hends
      obtain ⟨n, rfl⟩ : ∃ more, n = more + 1 := ⟨n - 1, by omega⟩
      have harg : status_arg tokens fn s = _ := status_arg_of_token htok hne
      -- an atom is evaluated, and the loop goes on behind it
      have hatom : ∀ k, s.j ≤ k → status_arg tokens fn s = .ok (.atom k) →
          Gives tokens (loop .unfinished (args_step (status_arg tokens fn) eval) (turns + 1) s >>=
              closing tokens s!"E1106: {fn}() missing ')'")
            (evalAtom (tokens.drop k) >>=
              fun x => callArgs evalAtom fn n false (s.args ++ [x.1]) x.2) := by
        intro k hk hnext
        rw [loop_of_atom hnext, bind_assoc]
        refine (h k (by omega)).bind fun a j hvalue hj => ?_
        have := (hconsumes k a j hvalue).1
        exact ih (n := n) (s := ⟨s.args ++ [a], false, j⟩) (by simp only; omega)
          (by simp only; omega) (by simp only; omega)
      rw [drop_eq_cons htok, callArgs]
      · by_cases hsep : s.args.isEmpty = false ∧ tok ≠ ","
        · rw [if_pos hsep] at harg
          rw [loop_of_refused harg, if_pos (by simp [hsep.1, hsep.2])]
          exact .refused _
        rw [if_neg hsep] at harg
        rw [if_neg (by simpa using hsep)]
        by_cases hcomma : tok = ","
        · subst hcomma
          simp only [if_true] at harg ⊢
          by_cases hend : Ends tokens (s.j + 1)
          · rw [if_pos hend] at harg
            rw [loop_of_refused harg]
            obtain hnone | hclose := hend
            · rw [List.drop_eq_nil_of_le (List.getElem?_eq_none_iff.mp hnone)]
              exact .refused _
            · rw [drop_eq_cons hclose]
              exact .refused _
          · rw [if_neg hend] at harg
            obtain ⟨t, ht, hclose, -⟩ := exists_of_not_ends hend
            have hgives := hatom (s.j + 1) (Nat.le_succ _) harg
            rw [drop_eq_cons ht] at hgives ⊢
            simp only [hclose, and_false, if_false, bne_self_eq_false, Bool.and_false,
              Bool.false_and, Bool.false_eq_true]
            exact hgives
        · rw [if_neg hcomma] at harg
          simp only [hcomma, if_false, false_and, bne_iff_ne.mpr hcomma, Bool.and_true]
          by_cases hbare : s.first = true ∧ isBareKey tok = true
          · rw [if_pos hbare] at harg
            rw [loop_of_bare harg, if_pos (by simp [hbare.1, hbare.2])]
            exact ih (n := n) (s := ⟨s.args ++ [.val (.str tok)], false, s.j + 1⟩)
              (by simp only; omega) (by simp only; omega)
              (by simp only; omega)
          · rw [if_neg hbare] at harg
            have hgives := hatom s.j (Nat.le_refl _) harg
            rw [drop_eq_cons htok] at hgives
            rw [if_neg (by simpa using hbare)]
            exact hgives
      · simp [hne]

theorem gives_bool_args (h : Tracks tokens fuel eval evalAtom)
    (hconsumes : Consumes tokens eval) (fn : String) {turns n : Nat} {s : Args}
    (hturns : tokens.length - s.j < turns) (hn : tokens.length - s.j ≤ n)
    (hfuel : tokens.length - s.j ≤ fuel) :
    Gives tokens (loop .unfinished
      (args_step (bool_arg tokens fn) eval) turns s >>= closing tokens s!"E1113: {fn}() missing ')'")
      (boolArgs evalAtom fn n s.args (tokens.drop s.j)) := by
  induction turns generalizing s n with
  | zero => omega
  | succ turns ih =>
    by_cases hends : Ends tokens s.j
    · rw [loop_of_closed (bool_arg_of_end hends), ok_bind]
      exact gives_closing (by simp only [boolArgs]) (by simp [boolArgs]) hends
    · obtain ⟨tok, htok, hne, hlt⟩ := exists_of_not_ends hends
      obtain ⟨n, rfl⟩ : ∃ more, n = more + 1 := ⟨n - 1, by omega⟩
      have harg : bool_arg tokens fn s = _ := bool_arg_of_token htok hne
      have hatom : ∀ k, s.j ≤ k → bool_arg tokens fn s = .ok (.atom k) →
          Gives tokens (loop .unfinished (args_step (bool_arg tokens fn) eval) (turns + 1) s >>=
              closing tokens s!"E1113: {fn}() missing ')'")
            (evalAtom (tokens.drop k) >>=
              fun x => boolArgs evalAtom fn n (s.args ++ [x.1]) x.2) := by
        intro k hk hnext
        rw [loop_of_atom hnext, bind_assoc]
        refine (h k (by omega)).bind fun a j hvalue hj => ?_
        have := (hconsumes k a j hvalue).1
        exact ih (n := n) (s := ⟨s.args ++ [a], false, j⟩) (by simp only; omega)
          (by simp only; omega) (by simp only; omega)
      rw [drop_eq_cons htok, boolArgs]
      · by_cases hsep : s.args.isEmpty = false ∧ tok ≠ ","
        · rw [if_pos hsep] at harg
          rw [loop_of_refused harg, if_pos (by simp [hsep.1, hsep.2])]
          exact .refused _
        rw [if_neg hsep] at harg
        rw [if_neg (by simpa using hsep)]
        by_cases hcomma : tok = ","
        · rw [if_pos hcomma] at harg ⊢
          exact hatom (s.j + 1) (Nat.le_succ _) harg
        · rw [if_neg hcomma] at harg ⊢
          rw [← drop_eq_cons htok]
          exact hatom s.j (Nat.le_refl _) harg
      · simp [hne]

/-- A literal, or the comparison it starts, agrees in both. -/
theorem gives_literal (t : String) {idx : Nat} (h : tokens[idx]? = some t) :
    Gives tokens (literalOrComparison ctx.json tokens t idx)
      (executor.literalOrComparison t (tokens.drop (idx + 1)) ctx) := by
  obtain ⟨hlt, -⟩ := List.getElem?_eq_some_iff.mp h
  unfold literalOrComparison executor.literalOrComparison
  cases _parse_literal t with
  | some v => exact .value v hlt
  | none =>
    simp only
    by_cases hthree : idx + 2 < tokens.length
    · obtain ⟨op, hop, hindex⟩ := index_of_lt (show idx + 1 < tokens.length by omega)
      obtain ⟨rhsTok, hrhs, hindex'⟩ := index_of_lt hthree
      rw [if_pos hthree, hindex, hindex', drop_eq_cons hop, drop_eq_cons hrhs]
      simp only [ok_bind]
      by_cases hcompare : comparisonOps.contains op = true
      · rw [if_pos hcompare, if_pos hcompare]
        cases _parse_literal rhsTok with
        | none => exact .refused _
        | some rhs =>
          simp only [resolve_value_path_json, compareValues_json]
          cases executor._resolve_value_path t ctx with
          | error m => exact .refused m
          | ok lhs =>
            change Gives tokens (ofText (executor.compareValues op lhs rhs) >>= _)
              (executor.compareValues op lhs rhs >>= _)
            cases executor.compareValues op lhs rhs with
            | error m => exact .refused m
            | ok result => exact .value _ hthree
      · rw [if_neg hcompare, if_neg hcompare]
        exact .refused _
    · rw [if_neg hthree]
      cases hrest : tokens.drop (idx + 1) with
      | nil => exact .refused _
      | cons op more =>
        cases more with
        | nil => exact .refused _
        | cons rhsTok after =>
          have hlength := congrArg List.length hrest
          simp only [List.length_drop, List.length_cons] at hlength
          omega

theorem gives_group (h : Tracks tokens fuel eval evalAtom) {idx : Nat}
    (hfuel : tokens.length - (idx + 1) ≤ fuel) :
    Gives tokens (group tokens eval idx)
      (evalAtom (tokens.drop (idx + 1)) >>= fun x =>
        match x.2 with
        | ")" :: after => .ok (x.1, after)
        | _ => .error "E1103: missing matching ')'") := by
  unfold group
  refine (h (idx + 1) hfuel).bind fun v j _ _ => ?_
  simp only [stands_at_eq, ok_bind, decide_eq_true_eq]
  cases htok : tokens[j]? with
  | none =>
    rw [if_neg (by simp), List.drop_eq_nil_of_le (List.getElem?_eq_none_iff.mp htok)]
    exact .refused _
  | some tok =>
    obtain ⟨hlt, -⟩ := List.getElem?_eq_some_iff.mp htok
    rw [drop_eq_cons htok]
    by_cases hclose : tok = ")"
    · rw [if_pos (by rw [hclose]), hclose]
      exact .value v hlt
    · rw [if_neg (by simpa using hclose)]
      split
      · next heq => exact absurd (List.cons.inj heq).1 hclose
      · exact .refused _

/-- The look behind the arguments comes before the look at their values. -/
theorem closing_bind (message : String) (x : Eval Args) (f : List CondVal → Eval CondVal) :
    (x >>= fun s => if s.j < tokens.length then (f s.args >>= fun v => pure (v, s.j + 1))
      else value_error message) =
      (x >>= closing tokens message) >>= fun r => f r.1 >>= fun v => pure (v, r.2) := by
  cases x with
  | error e => rfl
  | ok s =>
    simp only [ok_bind, closing]
    split_ifs <;> rfl

theorem gives_value {x : executor.Eval CondVal} {j : Nat} (h : j ≤ tokens.length) :
    Gives tokens (ofText x >>= fun v => pure (v, j)) (x >>= fun v => .ok (v, tokens.drop j)) := by
  cases x with
  | error m => exact .refused m
  | ok v => exact .value v h

theorem gives_status_predicate (h : Tracks tokens fuel eval evalAtom)
    (hconsumes : Consumes tokens eval) (fn : String) {idx : Nat} (hidx : idx < tokens.length)
    (hfuel : tokens.length - (idx + 2) ≤ fuel) :
    Gives tokens (status_predicate ctx.json tokens eval fn idx)
      (callArgs evalAtom fn (tokens.length - (idx + 1)) true [] (tokens.drop (idx + 2)) >>= fun x =>
        executor.statusCall fn x.1 ctx >>= fun v => .ok (v, x.2)) := by
  have hargs : Gives tokens
    (call_args tokens (status_arg tokens fn) eval idx >>= closing tokens s!"E1106: {fn}() missing ')'")
      (callArgs evalAtom fn (tokens.length - (idx + 1)) true [] (tokens.drop (idx + 2))) :=
    gives_status_args h hconsumes fn (s := ⟨[], true, idx + 2⟩) (by simp only; omega)
      (by simp only; omega) hfuel
  unfold status_predicate
  rw [closing_bind _ _ fun args => statusCall fn args ctx.json]
  refine hargs.bind fun args j _ hj => ?_
  rw [statusCall_json]
  exact gives_value hj

theorem gives_bool_operator (h : Tracks tokens fuel eval evalAtom)
    (hconsumes : Consumes tokens eval) (fn : String) {idx : Nat} (hidx : idx < tokens.length)
    (hfuel : tokens.length - (idx + 2) ≤ fuel) :
    Gives tokens (bool_operator tokens eval fn idx)
      (boolArgs evalAtom fn (tokens.length - (idx + 1)) [] (tokens.drop (idx + 2)) >>= fun x =>
        boolCall fn x.1 >>= fun v => .ok (v, x.2)) := by
  have hargs : Gives tokens
    (call_args tokens (bool_arg tokens fn) eval idx >>= closing tokens s!"E1113: {fn}() missing ')'")
      (boolArgs evalAtom fn (tokens.length - (idx + 1)) [] (tokens.drop (idx + 2))) :=
    gives_bool_args h hconsumes fn (s := ⟨[], true, idx + 2⟩) (by simp only; omega)
      (by simp only; omega) hfuel
  unfold bool_operator
  rw [closing_bind _ _ fun args => ofText (boolCall fn args)]
  exact hargs.bind fun args j _ hj => gives_value hj

/-- One level of the nesting. -/
theorem gives_atom_body {frames : Nat} {evalExpr : Nat → Eval (CondVal × Nat)}
    (hatom : Tracks tokens fuel eval (executor._eval_atom ctx fuel))
    (hexpr : Tracks tokens fuel evalExpr (executor._eval_atom ctx fuel))
    (hconsumes : Consumes tokens eval) (hconsumes' : Consumes tokens evalExpr) :
    Tracks tokens (fuel + 1) (atom_body fullmatch ctx.json tokens frames eval evalExpr)
      (executor._eval_atom ctx (fuel + 1)) := by
  intro idx hfuel
  cases ht : tokens[idx]? with
  | none =>
    rw [atom_body_of_none ht, List.drop_eq_nil_of_le (List.getElem?_eq_none_iff.mp ht)]
    exact .refused _
  | some t =>
    obtain ⟨hlt, -⟩ := List.getElem?_eq_some_iff.mp ht
    have hhead : (tokens.drop (idx + 1)).head? = tokens[idx + 1]? := List.head?_drop ..
    rw [atom_body_of_token ht, drop_eq_cons ht, executor._eval_atom, hhead, List.tail_drop,
      List.length_drop]
    have hstatus_iff :
        ["success", "failed", "skipped", "cancelled", "status"].contains t = true ∧
        tokens[idx + 1]? = some "(" ↔
        t ∈ status_names ∧ tokens[idx + 1]? = some "(" :=
      and_congr_left' List.contains_iff_mem
    have hbool_iff : ["AND", "OR", "NOT"].contains t = true ∧ tokens[idx + 1]? = some "(" ↔
        t ∈ bool_names ∧ tokens[idx + 1]? = some "(" :=
      and_congr_left' List.contains_iff_mem
    by_cases hgroup : t = "("
    · rw [if_pos hgroup, if_pos hgroup]
      exact gives_group hexpr (by omega)
    rw [if_neg hgroup, if_neg hgroup]
    by_cases hstatus : t ∈ status_names ∧ tokens[idx + 1]? = some "("
    · rw [if_pos hstatus, if_pos (hstatus_iff.mpr hstatus)]
      exact (gives_status_predicate hatom hconsumes t hlt (by omega)).call _ _
    rw [if_neg hstatus, if_neg (mt hstatus_iff.mp hstatus)]
    by_cases hbool : t ∈ bool_names ∧ tokens[idx + 1]? = some "("
    · rw [if_pos hbool, if_pos (hbool_iff.mpr hbool)]
      exact gives_bool_operator hexpr hconsumes' t hlt (by omega)
    rw [if_neg hbool, if_neg (mt hbool_iff.mp hbool)]
    by_cases helse : t = "__else__"
    · rw [if_pos helse, if_pos helse]
      exact .value CondVal.els hlt
    rw [if_neg helse, if_neg helse]
    exact (gives_literal t ht).call _ _

/-- The evaluation by index, with any number of frames, by induction on these. -/
theorem gives_eval (fullmatch : Nat → Nat) (ctx : EdgeCtx) (tokens : List String) (frames : Nat) :
    (∀ fuel, Tracks tokens fuel
      (_eval_atom fullmatch ctx.json tokens frames) (executor._eval_atom ctx fuel)) ∧
      ∀ fuel, Tracks tokens fuel (_eval_expr fullmatch ctx.json tokens frames)
        (executor._eval_atom ctx fuel) := by
  induction frames with
  | zero =>
    constructor
    · intro fuel k _
      rw [_eval_atom]
      exact .cut _
    · intro fuel k _
      rw [_eval_expr]
      exact .cut _
  | succ frames ih =>
    obtain ⟨hatom, hexpr⟩ := ih
    obtain ⟨hconsumes, hconsumes'⟩ := consumes_eval fullmatch ctx.json tokens frames
    constructor
    · intro fuel k hfuel
      rw [_eval_atom]
      cases fuel with
      | succ fuel => exact gives_atom_body (hatom fuel) (hexpr fuel) hconsumes hconsumes' k hfuel
      | zero =>
        have hend : tokens.length ≤ k := by omega
        rw [atom_body_of_none (List.getElem?_eq_none_iff.mpr hend), List.drop_eq_nil_of_le hend]
        exact .refused _
    · intro fuel k hfuel
      rw [_eval_expr]
      exact hatom fuel k hfuel

/-- The evaluation of a condition, as Python runs it, gives what the plain one gives, or
it runs out of frames. -/
theorem cutShort_evaluate (fullmatch : Nat → Nat) (frames : Nat) (condition_str : String)
    (ctx : EdgeCtx) :
    CutShort .RecursionError (evaluate_edge_condition fullmatch frames condition_str ctx.json)
      (ofText (executor.evaluate_edge_condition condition_str ctx)) := by
  unfold evaluate_edge_condition executor.evaluate_edge_condition
  simp only
  by_cases hblank : (strip condition_str.toList).isEmpty = true
  · rw [if_pos hblank, if_pos hblank]
    exact .inr rfl
  rw [if_neg hblank, if_neg hblank]
  by_cases helse : strip condition_str.toList = "__else__".toList
  · rw [if_pos helse, if_pos helse]
    exact .inr rfl
  rw [if_neg helse, if_neg helse, tokenize_eq]
  unfold call
  by_cases hframes : 1 ≤ frames
  · rw [if_pos hframes]
    cases executor._tokenize (strip condition_str.toList) with
    | error m => exact .inr rfl
    | ok tokens =>
      change CutShort _ (if tokens.isEmpty then _ else _) (ofText (if tokens.isEmpty then _ else _))
      by_cases hnone : tokens.isEmpty = true
      · rw [if_pos hnone, if_pos hnone]
        exact .inr rfl
      rw [if_neg hnone, if_neg hnone]
      have hgives := (gives_eval fullmatch ctx tokens frames).2 tokens.length 0 (by omega)
      rw [List.drop_zero] at hgives
      revert hgives
      generalize _eval_expr fullmatch ctx.json tokens frames 0 = x
      generalize executor._eval_atom ctx tokens.length tokens = y
      rintro (_ | @⟨v, j, hj⟩ | m)
      · exact .inl rfl
      · have hend : (tokens.drop j).isEmpty = true ↔ j = tokens.length := by
          rw [List.isEmpty_iff, List.drop_eq_nil_iff]
          omega
        change CutShort _ (if j = tokens.length then _ else _)
          (ofText (if (tokens.drop j).isEmpty = true then _ else _))
        simp only [hend]
        split_ifs
        · exact .inr rfl
        · exact .inr rfl
      · exact .inr rfl
  · rw [if_neg hframes]
    exact .inl rfl

end agreement

end raising

end taurus.engine.executor
