import Taurus.Engine.Properties.PlainEvaluation

namespace taurus.engine.executor.raising

open taurus.lib taurus.lib.loops taurus.python

/-- The evaluation of the atom at the first index comes to an atom at the second, with that many
more calls open: two for a group or an argument of an operator, one for an argument of a status
predicate. -/
inductive Enters (fullmatch : Nat → Nat) (ctx : Dict String Json) (tokens : List String) :
    Nat → Nat → Nat → Prop
  | self (idx : Nat) : Enters fullmatch ctx tokens idx idx 0
  | group {idx j depth : Nat} (h : tokens[idx]? = some "(")
    (inner : Enters fullmatch ctx tokens (idx + 1) j depth) :
    Enters fullmatch ctx tokens idx j (depth + 2)
  | status_argument {idx k j depth frames : Nat} {fn : String} {s : Args}
    (hfn : tokens[idx]? = some fn)
    (hname : fn ∈ status_names) (hparen : tokens[idx + 1]? = some "(")
    (hcomes : Comes (args_step (status_arg tokens fn) (_eval_atom fullmatch ctx tokens frames))
      ⟨[], true, idx + 2⟩ s)
    (hatom : status_arg tokens fn s = .ok (.atom k))
    (inner : Enters fullmatch ctx tokens k j depth) :
    Enters fullmatch ctx tokens idx j (depth + 1)
  | bool_argument {idx k j depth frames : Nat} {fn : String} {s : Args}
    (hfn : tokens[idx]? = some fn)
    (hname : fn ∈ bool_names) (hparen : tokens[idx + 1]? = some "(")
    (hcomes : Comes (args_step (bool_arg tokens fn) (_eval_expr fullmatch ctx tokens frames))
      ⟨[], true, idx + 2⟩ s)
    (hatom : bool_arg tokens fn s = .ok (.atom k)) (inner : Enters fullmatch ctx tokens k j depth) :
    Enters fullmatch ctx tokens idx j (depth + 2)

/-- The atom is read as a constant or a comparison. -/
structure PlainAtom (tokens : List String) (j : Nat) (t : String) : Prop where
  here : tokens[j]? = some t
  no_group : t ≠ "("
  no_status : ¬(t ∈ status_names ∧ tokens[j + 1]? = some "(")
  no_operator : ¬(t ∈ bool_names ∧ tokens[j + 1]? = some "(")
  no_else : t ≠ "__else__"

/-- The frames that the atom takes beyond its own, for calls that evaluate no other atom. -/
inductive Takes (fullmatch : Nat → Nat) (tokens : List String) (j : Nat) : Nat → Prop
  | own : Takes fullmatch tokens j 0
  | literal {t : String} (h : PlainAtom tokens j t) : Takes fullmatch tokens j 1
  | key {fn : String} (hfn : tokens[j]? = some fn) (hname : fn ∈ status_names)
    (hparen : tokens[j + 1]? = some "(") :
    Takes fullmatch tokens j (key_frames fullmatch tokens (j + 2))

/-- The calls that evaluating the tokens needs fit into the frames that are left: two for the
outermost atom, those that are open when the evaluation comes to an atom, and what this takes. -/
def TokensFit (fullmatch : Nat → Nat) (frames : Nat) (tokens : List String)
    (ctx : Dict String Json) : Prop :=
  ∀ j depth more, Enters fullmatch ctx tokens 0 j depth → Takes fullmatch tokens j more →
  depth + more + 1 < frames

/-- The calls for a text that is evaluated fit into the frames that are left: one for the tokenizer,
and those for the tokens. -/
def Fits (fullmatch : Nat → Nat) (frames : Nat) (condition_str : String)
    (ctx : Dict String Json) : Prop :=
  strip condition_str.toList ≠ [] → strip condition_str.toList ≠ "__else__".toList →
    0 < frames ∧ ∀ tokens, _tokenize (strip condition_str.toList) = .ok tokens → tokens ≠ [] →
      TokensFit fullmatch frames tokens ctx

/-- Every call inside an atom begins behind its first token, a call that returns has consumed a
token at least, and so has every turn of an argument loop. -/
structure ConsumesTokens (fullmatch : Nat → Nat) (ctx : Dict String Json)
    (tokens : List String) : Prop where
  calls : ∀ idx j depth, Enters fullmatch ctx tokens idx j depth → depth ≠ 0 →
    idx < j ∧ j ≤ tokens.length
  returns : ∀ frames idx v j, _eval_atom fullmatch ctx tokens frames idx = .ok (v, j) →
    idx < j ∧ j ≤ tokens.length
  status_turns : ∀ frames fn s s', args_step (status_arg tokens fn)
    (_eval_atom fullmatch ctx tokens frames) s = .ok (.inl s') →
    s.j < s'.j
  bool_turns : ∀ frames fn s s', args_step (bool_arg tokens fn)
    (_eval_expr fullmatch ctx tokens frames) s = .ok (.inl s') →
    s.j < s'.j

variable {fullmatch : Nat → Nat} {ctx : Dict String Json} {tokens : List String}
  {eval eval' : Nat → Eval (CondVal × Nat)}

section loops

variable {next : Args → Eval Arg} {idx : Nat} {s : Args}

/-- An argument loop that ends cleanly evaluates the arguments it comes to cleanly. -/
theorem clean_of_comes (hnext : ∀ s, Found tokens s.j (next s)) (heval : Consumes tokens eval)
    (hclean : Clean (call_args tokens next eval idx))
    (h : Comes (args_step next eval) ⟨[], true, idx + 2⟩ s) {k : Nat}
    (hatom : next s = .ok (.atom k)) : Clean (eval k) := by
  intro e he
  have hstep : args_step next eval s = .error e := by
    rw [args_step_atom hatom, he]
    rfl
  exact hclean e (loop_error_of_comes (advances_args hnext heval (idx + 2)) h
    (Nat.le_refl _) hstep (by omega))

/-- It comes to the same states as one with other frames. -/
theorem comes_of_clean (hnext : ∀ s, Found tokens s.j (next s)) (heval : Consumes tokens eval)
    (hagree : Agree eval eval') (hclean : Clean (call_args tokens next eval idx))
    (h : Comes (args_step next eval') ⟨[], true, idx + 2⟩ s) :
    Comes (args_step next eval) ⟨[], true, idx + 2⟩ s := by
  induction h with
  | start => exact .start
  | @turn s' s'' _ hstep ih =>
    refine .turn ih ?_
    rw [← hstep]
    cases harg : next s' with
    | error e =>
      rw [args_step, args_step, harg]
      rfl
    | ok arg =>
      cases arg with
      | closed =>
        rw [args_step, args_step, harg]
        rfl
      | bare key j =>
        rw [args_step, args_step, harg]
        rfl
      | atom k =>
        have hk := clean_of_comes hnext heval hclean ih harg
        have hk' : eval' k ≠ .error .RecursionError := by
          intro hcut
          rw [args_step_atom harg, hcut] at hstep
          cases hstep
        rw [args_step_atom harg, args_step_atom harg,
          hagree k (fun hcut => not_clean_recursion (hcut ▸ hk)) hk']

end loops

section needed

/-- An expression is clean when its atom is, with one frame less. -/
theorem clean_eval_expr {frames k : Nat} (h : Clean (_eval_expr fullmatch ctx tokens frames k)) :
    ∃ rest, frames = rest + 1 ∧ Clean (_eval_atom fullmatch ctx tokens rest k) := by
  cases frames with
  | zero =>
    rw [_eval_expr] at h
    exact absurd h not_clean_recursion
  | succ rest =>
    rw [_eval_expr] at h
    exact ⟨rest, rfl, h⟩

theorem status_name_ne {fn : String} (h : fn ∈ status_names) : fn ≠ "(" := by
  rintro rfl
  exact absurd h (by decide)

theorem bool_name_ne {fn : String} (h : fn ∈ bool_names) : fn ≠ "(" ∧ fn ∉ status_names := by
  have hall : ∀ fn ∈ bool_names, fn ≠ "(" ∧ fn ∉ status_names := by decide
  exact hall fn h

/-- An evaluation that ends cleanly comes to all its atoms with frames left, and
evaluates them cleanly. -/
theorem Enters.clean {idx j depth : Nat} (h : Enters fullmatch ctx tokens idx j depth)
    {frames : Nat} (hclean : Clean (_eval_atom fullmatch ctx tokens frames idx)) :
    ∃ rest, frames = rest + depth ∧ Clean (_eval_atom fullmatch ctx tokens rest j) := by
  induction h generalizing frames with
  | self idx => exact ⟨frames, rfl, hclean⟩
  | group h _ ih =>
    cases frames with
    | zero =>
      rw [_eval_atom] at hclean
      exact absurd hclean not_clean_recursion
    | succ frames =>
      rw [_eval_atom, atom_body_of_token h, if_pos rfl] at hclean
      obtain ⟨rest, rfl, hinner⟩ := clean_eval_expr hclean.of_bind
      obtain ⟨rest, rfl, hatom⟩ := ih hinner
      exact ⟨rest, by omega, hatom⟩
  | @status_argument idx k j depth frames' fn s hfn hname hparen hcomes hatom _ ih =>
    cases frames with
    | zero =>
      rw [_eval_atom] at hclean
      exact absurd hclean not_clean_recursion
    | succ frames =>
      rw [_eval_atom, atom_body_of_token hfn, if_neg (status_name_ne hname),
        if_pos ⟨hname, hparen⟩] at hclean
      have hcall := (clean_call hclean).2.of_bind
      have hconsumes := (consumes_eval fullmatch ctx tokens frames).1
      have hsame :=
        comes_of_clean (found_status_arg fn) hconsumes (agree_eval frames frames').1 hcall hcomes
      obtain ⟨rest, rfl, hinner⟩ :=
        ih (clean_of_comes (found_status_arg fn) hconsumes hcall hsame hatom)
      exact ⟨rest, by omega, hinner⟩
  | @bool_argument idx k j depth frames' fn s hfn hname hparen hcomes hatom _ ih =>
    cases frames with
    | zero =>
      rw [_eval_atom] at hclean
      exact absurd hclean not_clean_recursion
    | succ frames =>
      obtain ⟨hne, hstatus⟩ := bool_name_ne hname
      rw [_eval_atom, atom_body_of_token hfn, if_neg hne, if_neg fun h => hstatus h.1,
        if_pos ⟨hname, hparen⟩] at hclean
      have hcall := hclean.of_bind
      have hconsumes := (consumes_eval fullmatch ctx tokens frames).2
      have hsame :=
        comes_of_clean (found_bool_arg fn) hconsumes (agree_eval frames frames').2 hcall hcomes
      obtain ⟨rest, rfl, hexpr⟩ :=
        clean_eval_expr (clean_of_comes (found_bool_arg fn) hconsumes hcall hsame hatom)
      obtain ⟨rest, rfl, hinner⟩ := ih hexpr
      exact ⟨rest, by omega, hinner⟩

/-- A clean evaluation has had the frames for what the atom itself takes. -/
theorem Takes.lt_of_clean {j more : Nat} (h : Takes fullmatch tokens j more) {frames : Nat}
    (hclean : Clean (_eval_atom fullmatch ctx tokens frames j)) : more < frames := by
  cases frames with
  | zero =>
    rw [_eval_atom] at hclean
    exact absurd hclean not_clean_recursion
  | succ frames =>
    rw [_eval_atom] at hclean
    cases h with
    | own => omega
    | literal h =>
      rw [atom_body_of_token h.here, if_neg h.no_group, if_neg h.no_status, if_neg h.no_operator,
        if_neg h.no_else] at hclean
      have := (clean_call hclean).1
      omega
    | key hfn hname hparen =>
      rw [atom_body_of_token hfn, if_neg (status_name_ne hname), if_pos ⟨hname, hparen⟩] at hclean
      have := (clean_call hclean).1
      omega

end needed

section enough

variable {statuses outputs : Dict String Json} {idx : Nat}

theorem get_of_obj {d : Json} {kvs : Dict String Json} (h : d = .obj kvs) (k : String) :
    ∃ v, get (or_empty d) k = .ok v := by
  subst h
  unfold or_empty
  split_ifs
  · exact ⟨_, rfl⟩
  · exact ⟨_, rfl⟩

/-- A predicate on objects is clean. -/
theorem clean_statusCall (hs : getJson ctx "node_statuses" = .obj statuses) (fn : String)
    (args : List CondVal) :
    Clean (statusCall fn args ctx) := by
  unfold statusCall
  split
  · next key more =>
    obtain ⟨st, hst⟩ := get_of_obj hs key
    rw [hst, ok_bind]
    split
    · exact within_ite _ (fun _ => within_ok _) fun _ => clean_value_error _
    · split
      · split
        · exact within_ok _
        · exact clean_value_error _
      · exact clean_value_error _
  · exact clean_value_error _

theorem clean_resolve_value_path (hs : getJson ctx "node_statuses" = .obj statuses)
    (ho : getJson ctx "node_outputs" = .obj outputs) (path : String) :
    Clean (_resolve_value_path path ctx) := by
  unfold _resolve_value_path
  refine within_ite _ (fun _ => clean_value_error _) fun _ => ?_
  split
  · next hnil =>
    rw [List.map_eq_nil_iff] at hnil
    exact absurd hnil (splitOn_ne_nil _ _)
  · exact clean_ofText _
  · exact clean_ofText _
  · next node_key steps _ _ _ =>
    refine within_ite _ (fun _ => clean_value_error _) fun _ => ?_
    obtain ⟨v, hv⟩ := get_of_obj hs node_key
    rw [hv]
    exact within_ok v
  · next node_key steps _ _ _ =>
    obtain ⟨v, hv⟩ := get_of_obj ho node_key
    rw [hv]
    exact within_ok _
  · exact clean_value_error _

/-- The TypeError of an order between incompatible types is caught. -/
theorem clean_compareValues (op : String) (lhs : Json) (rhs : CondVal) :
    Clean (compareValues op lhs rhs) := by
  have hcompare : ∀ e, compare op lhs rhs = .error e → e = .TypeError := by
    intro e he
    unfold compare at he
    simp only at he
    split at he
    · cases he
    · cases he
    all_goals
      split at he
      · cases he
      · exact (Except.error.inj he).symm
  unfold compareValues
  intro e he
  split at he
  · exact clean_value_error _ e he
  · next hother =>
    obtain rfl := hcompare e he
    exact absurd he hother

theorem clean_literalOrComparison (hs : getJson ctx "node_statuses" = .obj statuses)
    (ho : getJson ctx "node_outputs" = .obj outputs) (t : String) (idx : Nat) :
    Clean (literalOrComparison ctx tokens t idx) := by
  unfold literalOrComparison
  split
  · exact within_ok _
  · refine within_ite _ (fun hlt => ?_) fun _ => clean_value_error _
    obtain ⟨op, -, hop⟩ := index_of_lt (show idx + 1 < tokens.length by omega)
    obtain ⟨rhsTok, -, hrhs⟩ := index_of_lt hlt
    rw [hop, ok_bind]
    refine within_ite _ (fun _ => ?_) fun _ => clean_value_error _
    rw [hrhs, ok_bind]
    split
    · exact clean_value_error _
    · refine (clean_resolve_value_path hs ho t).bind fun lhs _ => ?_
      exact (clean_compareValues _ _ _).bind fun result _ => within_ok _

/-- An argument loop whose atoms are evaluated cleanly ends cleanly, in the turns it is given. -/
theorem clean_call_args {next : Args → Eval Arg} (hnext : ∀ s, Found tokens s.j (next s))
    (heval : Consumes tokens eval)
    (h : ∀ s k, Comes (args_step next eval) ⟨[], true, idx + 2⟩ s → next s = .ok (.atom k) →
      Clean (eval k)) :
    Clean (call_args tokens next eval idx) := by
  have hadvances : Advances (args_step next eval) (Comes (args_step next eval) ⟨[], true, idx + 2⟩)
      (fun s => tokens.length - s.j) := by
    intro s s' hs hstep
    exact ⟨.turn hs hstep, (advances_args hnext heval 0 s s' (Nat.zero_le _) hstep).2⟩
  refine loop_spec hadvances (fun s b _ _ => within_ok b) ?_ .start (by omega)
  intro s e hs hstep
  cases harg : next s with
  | error e' =>
    rw [args_step, harg] at hstep
    obtain rfl := Except.error.inj hstep
    have hfound := hnext s
    rw [harg] at hfound
    cases hfound
    exact clean_value_error _
  | ok arg =>
    cases arg with
    | closed =>
      rw [args_step, harg] at hstep
      cases hstep
    | bare key j =>
      rw [args_step, harg] at hstep
      cases hstep
    | atom k =>
      have hk := h s k hs harg
      rw [args_step_atom harg] at hstep
      have hbind : Clean (eval k >>=
        fun x => (pure (.inl ⟨s.args ++ [x.1], false, x.2⟩) : Eval (Args ⊕ Args))) :=
        hk.bind fun _ _ => within_ok _
      rw [hstep] at hbind
      exact fun e' he' => hbind e' (by rw [← Except.error.inj he'])

/-- Frames for all atoms it comes to are enough for a clean end. -/
theorem clean_of_enters (hs : getJson ctx "node_statuses" = .obj statuses)
    (ho : getJson ctx "node_outputs" = .obj outputs) (frames : Nat) :
    (∀ idx, (∀ j depth more, Enters fullmatch ctx tokens idx j depth →
      Takes fullmatch tokens j more → depth + more < frames) →
      Clean (_eval_atom fullmatch ctx tokens frames idx)) ∧
    ∀ idx, (∀ j depth more, Enters fullmatch ctx tokens idx j depth →
      Takes fullmatch tokens j more →
      depth + more + 1 < frames) → Clean (_eval_expr fullmatch ctx tokens frames idx) := by
  induction frames with
  | zero =>
    constructor
    · exact fun idx h => absurd (h idx 0 0 (.self idx) .own) (by omega)
    · exact fun idx h => absurd (h idx 0 0 (.self idx) .own) (by omega)
  | succ frames ih =>
    obtain ⟨hatom, hexpr⟩ := ih
    refine ⟨fun idx h => ?_, fun idx h => ?_⟩
    · rw [_eval_atom]
      cases ht : tokens[idx]? with
      | none =>
        rw [atom_body_of_none ht]
        exact clean_value_error _
      | some t =>
        rw [atom_body_of_token ht]
        refine within_ite _ (fun hparen => ?_) fun hgroup =>
          within_ite _ (fun hcall => ?_) fun hstatus =>
          within_ite _ (fun hcall => ?_) fun hoperator =>
            within_ite _ (fun _ => within_ok _) fun helse => ?_
        · subst hparen
          refine (hexpr (idx + 1) fun j depth more hinner htakes => ?_).bind fun x _ => ?_
          · have := h j _ more (.group ht hinner) htakes
            omega
          · change Clean (stands_at tokens ")" x.2 >>= _)
            rw [stands_at_eq, ok_bind]
            exact within_ite _ (fun _ => within_ok _) fun _ => clean_value_error _
        · have hloop : Clean (call_args tokens (status_arg tokens t)
            (fun k => _eval_atom fullmatch ctx tokens frames k) idx) := by
            refine clean_call_args (found_status_arg t)
              (consumes_eval fullmatch ctx tokens frames).1 fun s k hcomes hk => ?_
            refine hatom k fun j depth more hinner htakes => ?_
            have := h j _ more (.status_argument ht hcall.1 hcall.2 hcomes hk hinner) htakes
            omega
          have hkey := h idx 0 _ (.self idx) (.key ht hcall.1 hcall.2)
          rw [call_of_le (by omega)]
          refine hloop.bind fun s _ => within_ite _ (fun _ => ?_) fun _ => clean_value_error _
          exact (clean_statusCall hs t s.args).bind fun v _ => within_ok _
        · have hloop : Clean (call_args tokens (bool_arg tokens t)
            (fun k => _eval_expr fullmatch ctx tokens frames k) idx) := by
            refine clean_call_args (found_bool_arg t) (consumes_eval fullmatch ctx tokens frames).2
              fun s k hcomes hk => ?_
            refine hexpr k fun j depth more hinner htakes => ?_
            have := h j _ more (.bool_argument ht hcall.1 hcall.2 hcomes hk hinner) htakes
            omega
          refine hloop.bind fun s _ => within_ite _ (fun _ => ?_) fun _ => clean_value_error _
          exact (clean_ofText (boolCall t s.args)).bind fun v _ => within_ok _
        · have hliteral := h idx 0 1 (.self idx) (.literal ⟨ht, hgroup, hstatus, hoperator, helse⟩)
          rw [call_of_le (by omega)]
          exact clean_literalOrComparison hs ho t idx
    · rw [_eval_expr]
      exact hatom idx fun j depth more hinner htakes =>
        by have := h j depth more hinner htakes; omega

end enough

section progress

/-- The atoms that the evaluation comes to lie further on, two calls for a token at most. -/
theorem Enters.bounds {idx j depth : Nat} (h : Enters fullmatch ctx tokens idx j depth) :
    (idx = j ∧ depth = 0) ∨ (idx < j ∧ j ≤ tokens.length ∧ depth ≤ 2 * (j - idx)) := by
  have hfound : ∀ {next : Args → Eval Arg} {eval : Nat → Eval (CondVal × Nat)}
    {idx k : Nat} {s : Args},
      (∀ s, Found tokens s.j (next s)) → Consumes tokens eval →
      Comes (args_step next eval) ⟨[], true, idx + 2⟩ s →
      next s = .ok (.atom k) → idx + 2 ≤ k ∧ k ≤ tokens.length := by
    intro next eval idx k s hnext heval hcomes hk
    have hstart := hcomes.inv (advances_args hnext heval (idx + 2)) (Nat.le_refl _)
    have hs := hnext s
    rw [hk] at hs
    cases hs with
    | here hlt => exact ⟨hstart, by omega⟩
    | behind hlt => exact ⟨by omega, by omega⟩
  induction h with
  | self idx => exact .inl ⟨rfl, rfl⟩
  | group h _ ih =>
    obtain ⟨hlt, -⟩ := List.getElem?_eq_some_iff.mp h
    omega
  | @status_argument idx k j depth frames fn s hfn hname hparen hcomes hatom _ ih =>
    have := hfound (found_status_arg fn) (consumes_eval fullmatch ctx tokens frames).1 hcomes hatom
    omega
  | @bool_argument idx k j depth frames fn s hfn hname hparen hcomes hatom _ ih =>
    have := hfound (found_bool_arg fn) (consumes_eval fullmatch ctx tokens frames).2 hcomes hatom
    omega

/-- A turn moves on. -/
theorem turn_advances {next : Args → Eval Arg} (hnext : ∀ s, Found tokens s.j (next s))
    (heval : Consumes tokens eval) {s s' : Args} (h : args_step next eval s = .ok (.inl s')) :
    s.j < s'.j := by
  have hless : tokens.length - s'.j < tokens.length - s.j :=
    (advances_args hnext heval 0 s s' (Nat.zero_le _) h).2
  omega

theorem consumes_tokens (fullmatch : Nat → Nat) (ctx : Dict String Json) (tokens : List String) :
    ConsumesTokens fullmatch ctx tokens where
  calls := fun idx j depth h hne => by have := h.bounds; omega
  returns := fun frames => (consumes_eval fullmatch ctx tokens frames).1
  status_turns := fun frames fn _ _ h =>
    turn_advances (found_status_arg fn) (consumes_eval fullmatch ctx tokens frames).1 h
  bool_turns := fun frames fn _ _ h =>
    turn_advances (found_bool_arg fn) (consumes_eval fullmatch ctx tokens frames).2 h

end progress

section evaluation

variable {statuses outputs : Dict String Json}

/-- An expression is clean exactly if its calls fit. -/
theorem clean_eval_expr_iff (hs : getJson ctx "node_statuses" = .obj statuses)
    (ho : getJson ctx "node_outputs" = .obj outputs) (frames : Nat) :
    Clean (_eval_expr fullmatch ctx tokens frames 0) ↔ TokensFit fullmatch frames tokens ctx := by
  constructor
  · intro hclean j depth more h htakes
    obtain ⟨rest, rfl, hatom⟩ := clean_eval_expr hclean
    obtain ⟨rest, rfl, hinner⟩ := h.clean hatom
    have := htakes.lt_of_clean hinner
    omega
  · exact (clean_of_enters hs ho frames).2 0

/-- The evaluation of a condition ends cleanly exactly if its calls fit into the frames. -/
theorem clean_evaluate_iff (fullmatch : Nat → Nat)
    (hs : getJson ctx "node_statuses" = .obj statuses)
    (ho : getJson ctx "node_outputs" = .obj outputs) (frames : Nat) (condition_str : String) :
    Clean (evaluate_edge_condition fullmatch frames condition_str ctx) ↔
      Fits fullmatch frames condition_str ctx := by
  unfold evaluate_edge_condition Fits
  simp only
  split_ifs with hempty helse
  · exact iff_of_true (within_ok _) fun hne => absurd (List.isEmpty_iff.mp hempty) hne
  · exact iff_of_true (within_ok _) fun _ hother => absurd helse hother
  · have hne : strip condition_str.toList ≠ [] := fun hnil => hempty (List.isEmpty_iff.mpr hnil)
    by_cases hframes : 0 < frames
    · rw [call_of_le hframes]
      cases htokens : _tokenize (strip condition_str.toList) with
      | error e =>
        refine iff_of_true ?_ fun _ _ => ⟨hframes, fun tokens htokens' => ?_⟩
        · have hclean := clean_ofText (executor._tokenize (strip condition_str.toList))
          rw [← tokenize_eq, htokens] at hclean
          exact within_error (hclean e rfl)
        · cases htokens'
      | ok tokens =>
        rw [ok_bind]
        split_ifs with hnone
        · refine iff_of_true (within_ok _) fun _ _ => ⟨hframes,
            fun tokens' htokens' hsome => absurd ?_ hsome⟩
          rw [← Except.ok.inj htokens']
          exact List.isEmpty_iff.mp hnone
        · have hexpr := @clean_eval_expr_iff fullmatch ctx tokens statuses outputs hs ho frames
          constructor
          · intro hclean _ _
            refine ⟨hframes, fun tokens' htokens' _ => ?_⟩
            obtain rfl := Except.ok.inj htokens'
            exact hexpr.mp hclean.of_bind
          · intro h
            refine (hexpr.mpr ((h hne helse).2 tokens rfl
              fun hnil => hnone (by rw [hnil]; rfl))).bind fun x _ => ?_
            exact within_ite _ (fun _ => within_ok _) fun _ => clean_value_error _
    · rw [call_of_lt (by omega)]
      exact iff_of_false not_clean_recursion fun h => hframes (h hne helse).1

theorem key_frames_le {m : Nat} (h : ∀ j, fullmatch j ≤ m) (j : Nat) :
    key_frames fullmatch tokens j ≤ m := by
  unfold key_frames
  split
  · omega
  · split_ifs
    · omega
    · exact h j

theorem Takes.le {j more m : Nat} (h : Takes fullmatch tokens j more)
    (hmatch : ∀ j, fullmatch j ≤ m) : more ≤ m + 1 := by
  cases h with
  | own => omega
  | literal => omega
  | key =>
    have := @key_frames_le fullmatch tokens m hmatch (j + 2)
    omega

/-- Two frames for every token, those of a match and three more are always enough. -/
theorem fits_of_frames {frames m : Nat} {condition_str : String} (hmatch : ∀ j, fullmatch j ≤ m)
    (h : ∀ tokens, _tokenize (strip condition_str.toList) = .ok tokens →
      2 * tokens.length + m + 2 < frames)
    (hframes : 0 < frames) : Fits fullmatch frames condition_str ctx := by
  refine fun _ _ => ⟨hframes, fun tokens htokens _ j depth more henters htakes => ?_⟩
  have := h tokens htokens
  have := henters.bounds
  have := htakes.le hmatch
  omega

end evaluation

/-- For every text and every context whose statuses and outputs are objects: the evaluation ends
with a value or a ValueError exactly if its calls fit into the frames that the recursion limit
leaves, and all its calls and turns consume tokens. -/
theorem evaluation_clean_iff (fullmatch : Nat → Nat) (frames : Nat) (condition_str : String)
    (ctx : Dict String Json) {statuses outputs : Dict String Json}
    (hs : getJson ctx "node_statuses" = .obj statuses)
    (ho : getJson ctx "node_outputs" = .obj outputs) :
    (Clean (evaluate_edge_condition fullmatch frames condition_str ctx) ↔
      Fits fullmatch frames condition_str ctx) ∧
      ∀ tokens, ConsumesTokens fullmatch ctx tokens :=
  ⟨clean_evaluate_iff fullmatch hs ho frames condition_str, consumes_tokens fullmatch ctx⟩

/-- A context in which nothing has run yet. -/
def empty_ctx : Dict String Json := [("node_statuses", .obj []), ("node_outputs", .obj [])]

/-- `re.fullmatch` and `re._compile`, which finds the pattern in its cache. -/
def cached (_ : Nat) : Nat := 2

theorem success_clean : (Clean (evaluate_edge_condition cached 1000 "success('build')" empty_ctx) ↔
      Fits cached 1000 "success('build')" empty_ctx) ∧
        ∀ tokens, ConsumesTokens cached empty_ctx tokens :=
  evaluation_clean_iff cached 1000 "success('build')" empty_ctx rfl rfl

section nested

/-- `depth` opening parentheses, and as many closing ones, around some tokens. -/
def nested_tokens (depth : Nat) (inner : List String) : List String :=
  List.replicate depth "(" ++ (inner ++ List.replicate depth ")")

/-- Tokens without blanks between them. -/
def joined (tokens : List String) : String := String.ofList (tokens.flatMap String.toList)

theorem spells_joined (ts : List String) : Spells ts (joined ts).toList := by
  rw [joined, String.toList_ofList]
  induction ts with
  | nil => exact .done (by simp)
  | cons t ts ih =>
    have h : Spells (t :: ts) ([] ++ (t.toList ++ ts.flatMap String.toList)) := .token (by simp) ih
    exact h

/-- A text that spells tokens is read as these. -/
theorem tokenize_spelled {ts : List String} {text : String} (h : Spells ts text.toList)
    (htokens : ∀ t ∈ ts, IsToken t) (hfits : ts.IsChain executor.Fits) :
    _tokenize (strip text.toList) = .ok ts := by
  rw [tokenize_eq, executor._tokenize, (h.strip htokens).tokenizeLoop htokens hfits (Nat.le_refl _)]
  rfl

/-- Below each opening parenthesis the next one is evaluated with two more calls open. -/
theorem enters_nested {depth idx : Nat} {inner : List String} (h : idx ≤ depth) :
    Enters fullmatch ctx (nested_tokens depth inner) (depth - idx) depth (2 * idx) := by
  induction idx with
  | zero => exact .self depth
  | succ idx ih =>
    have hparen : (nested_tokens depth inner)[depth - (idx + 1)]? = some "(" := by
      rw [nested_tokens, List.getElem?_append_left (by rw [List.length_replicate]; omega),
        List.getElem?_replicate, if_pos (by omega)]
    have hnext : depth - (idx + 1) + 1 = depth - idx := by omega
    exact .group hparen (hnext ▸ ih (by omega))

/-- So many parentheses do not fit, whatever they stand around. -/
theorem not_fits_nested {depth frames : Nat} {inner : List String} {text : String}
    (hdepth : 0 < depth) (h : _tokenize (strip text.toList) = .ok (nested_tokens depth inner))
    (hframes : frames ≤ 2 * depth) :
    ¬Fits fullmatch frames text ctx := by
  intro hfits
  have hparen : "(" ∈ nested_tokens depth inner :=
    List.mem_append_left _ (List.mem_replicate.mpr ⟨by omega, rfl⟩)
  have hsome : strip text.toList ≠ [] := by
    intro hnil
    rw [hnil] at h
    rw [← Except.ok.inj h] at hparen
    cases hparen
  have hother : strip text.toList ≠ "__else__".toList := by
    intro heq
    have helse : _tokenize "__else__".toList = .ok ["__else__"] := by
      rw [tokenize_eq]
      decide
    rw [heq, helse] at h
    rw [← Except.ok.inj h] at hparen
    exact absurd hparen (by decide)
  have henters := @enters_nested fullmatch ctx depth depth inner (Nat.le_refl depth)
  rw [Nat.sub_self] at henters
  have := (hfits hsome hother).2 _ h (List.ne_nil_of_mem hparen) depth (2 * depth) 0 henters .own
  omega

end nested

/-- Five hundred balanced pairs of parentheses are too many for a recursion limit of a thousand. -/
theorem nested_not_clean :
    ¬Clean (evaluate_edge_condition cached 1000 (joined (nested_tokens 500 [])) empty_ctx) := by
  have hs : getJson empty_ctx "node_statuses" = .obj [] := rfl
  have ho : getJson empty_ctx "node_outputs" = .obj [] := rfl
  rw [clean_evaluate_iff cached hs ho]
  have hmark : ∀ t ∈ nested_tokens 500 [], t ∈ ["(", ")", ","] := by
    intro t ht
    obtain ht | ht := List.mem_append.mp ht
    · rw [List.eq_of_mem_replicate ht]
      decide
    · rw [List.eq_of_mem_replicate ht]
      decide
  have htokens : ∀ t ∈ nested_tokens 500 [], IsToken t := fun t ht =>
    isToken_mark (List.mem_append_left ["==", "!=", "<=", ">="] (hmark t ht))
  have hfits : (nested_tokens 500 []).IsChain executor.Fits :=
    List.Pairwise.isChain (List.pairwise_of_forall_mem_list
      fun t _ u hu => fits_of_mark t (hmark u hu))
  exact not_fits_nested (by omega) (tokenize_spelled (spells_joined _) htokens hfits) (by omega)

end taurus.engine.executor.raising
