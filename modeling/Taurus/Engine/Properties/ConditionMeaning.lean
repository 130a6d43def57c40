import Taurus.Engine.Executor.Readback
import Taurus.Engine.Properties.ConditionTotality

namespace taurus.engine.executor

open taurus.lib taurus.python

variable {ctx : EdgeCtx}

/-- The truth values of conditions. -/
inductive Truth where
  | yes
  | no
  | els
  deriving DecidableEq

namespace Truth

def ofBool (b : Bool) : Truth := if b then yes else no

/-- The value a condition other than a literal shows. -/
def val : Truth → CondVal
  | yes => .bool true
  | no => .bool false
  | els => .els

/-- The else token has no negation. -/
def neg? : Truth → Option Truth
  | yes => some no
  | no => some yes
  | els => none

/-- A false part decides, then an else token. -/
def conj (ts : List Truth) : Truth := if no ∈ ts then no else if els ∈ ts then els else yes

/-- A true part decides, then an else token. -/
def disj (ts : List Truth) : Truth := if yes ∈ ts then yes else if els ∈ ts then els else no

end Truth

/-- The truth of a value. -/
def CondVal.truth : CondVal → Truth
  | .els => .els
  | v => .ofBool v.truthy

/-- The value below `v`: null where a key is missing; only objects can be drilled into. -/
def drill : Json → List String → Option Json
  | v, [] => some v
  | .obj kvs, s :: steps =>
    match Dict.get? kvs s with
    | none => some .null
    | some v => drill v steps
  | _, _ :: _ => none

/-- The member or the element of an output, if there is one. -/
def child? : Json → String → Option Json
  | .obj kvs, s => Dict.get? kvs s
  | .arr xs, s => (int? s.toList).bind fun i => xs[i.toNat]?
  | _, _ => none

/-- What a path looks at; an output has null at every place it does not reach. -/
def Path.value (ctx : EdgeCtx) : Path → Option Json
  | .workflow steps => drill (.obj ctx.workflow) (steps.map Step.text)
  | .trigger steps => drill (.obj ctx.trigger) (steps.map Step.text)
  | .status node =>
    some (((Dict.get? ctx.node_statuses node.text).map fun s => Json.int s.toInt).getD .null)
  | .output node steps =>
    some (((Dict.get? ctx.node_outputs node.text).bind fun out =>
      (steps.map Step.text).foldlM child? (.obj out)).getD .null)

/-- Whether the comparison holds; none if the operands cannot be compared. -/
def Op.holds : Op → Json → Json → Option Bool
  | .eq, a, b => some (a.eqLiteral b)
  | .ne, a, b => some (!a.eqLiteral b)
  | .lt, a, b => a.lt? b
  | .gt, a, b => b.lt? a
  | .le, a, b => a.le? b
  | .ge, a, b => b.le? a

/-- The node of the key has the status. -/
def has_status (ctx : EdgeCtx) (key : Key) (st : Status) : Truth :=
  .ofBool (Dict.get? ctx.node_statuses key.text == some st)

mutual

/-- What a condition says in a context; none where it says nothing. -/
def Cond.truth (ctx : EdgeCtx) : Cond → Option Truth
  | .literal l => some (.ofBool l.value.truthy)
  | .predicate p key => some (has_status ctx key p.status)
  | .status key st _ => some (has_status ctx key st)
  | .compare path op l => ((path.value ctx).bind fun v => op.holds v l.value).map .ofBool
  | .not c => (c.truth ctx).bind Truth.neg?
  | .all cs => (truths ctx cs).map .conj
  | .any cs => (truths ctx cs).map .disj
  | .paren c => c.truth ctx
  | .otherwise => some .els

def truths (ctx : EdgeCtx) : List Cond → Option (List Truth)
  | [] => some []
  | c :: cs => (c.truth ctx).bind fun t => (truths ctx cs).map (t :: ·)

end

/-- The value that shows the truth of a condition: a literal shows itself. -/
def Cond.shown : Cond → Truth → CondVal
  | .literal l, _ => .val l.value
  | .paren c, t => c.shown t
  | _, t => t.val

/-- A truth value is read back. -/
theorem truth_val (t : Truth) : t.val.truth = t := by cases t <;> rfl

/-- What a condition shows has its truth. -/
theorem Cond.shown_truth {t : Truth} : ∀ {c : Cond}, c.truth ctx = some t → (c.shown t).truth = t
  | .literal l, h => by
    obtain rfl := Option.some.inj h
    rfl
  | .paren c, h => Cond.shown_truth (c := c) h
  | .predicate .., _ | .status .., _ | .compare .., _ | .not _, _ | .all _, _ | .any _,
    _ | .otherwise, _ => truth_val t

theorem toOption_bind {α β : Type} (x : Eval α) (f : α → Eval β) :
    (x >>= f).toOption = x.toOption.bind fun a => (f a).toOption := by
  cases x <;> rfl

section paths

/-- Walking down an object is drilling. -/
theorem walkDict_drill (code : String) (v : Json) (steps : List String) :
    (walkDict code v steps).toOption = drill v steps := by
  fun_induction walkDict code v steps with
  | case1 v =>
    rw [drill.eq_def]
    cases v <;> rfl
  | case2 kvs s steps hnone => simp [drill, hnone, Except.toOption]
  | case3 kvs s steps v hsome ih => simp [drill, hsome, ih]
  | case4 v s steps hobj =>
    rw [drill.eq_def]
    cases v with
    | obj kvs => exact absurd rfl (hobj kvs)
    | _ => rfl

/-- A part of a path has no sign, so it is no negative number. -/
theorem int?_step {s : Step} {i : Int} (h : int? s.text.toList = some i) : 0 ≤ i := by
  have hspace : ∀ c ∈ s.text.toList, isspace c = false := fun c hc =>
    isspace_false_of_isIdentChar (isIdentChar_of_isStepChar (s.step c hc))
  unfold int? short_int? at h
  rw [strip_number_of_forall hspace] at h
  split_ifs at h
  unfold signed? at h
  split at h
  · next heq => exact absurd (s.step '-' (by simp [heq])) (by decide)
  all_goals
    obtain ⟨n, -, rfl⟩ := Option.map_eq_some_iff.mp h
    exact Int.natCast_nonneg n

theorem walkOutput_null (steps : List String) : walkOutput .null steps = .null := by
  cases steps <;> rfl

/-- Walking down an output takes children, or gives null. -/
theorem walkOutput_child (v : Json) (steps : List Step) :
    walkOutput v (steps.map Step.text) = ((steps.map Step.text).foldlM child? v).getD .null := by
  induction steps generalizing v with
  | nil => cases v <;> rfl
  | cons s steps ih =>
    rw [List.map_cons, List.foldlM_cons]
    have hnext : ∀ w : Option Json, walkOutput (w.getD .null) (steps.map Step.text) =
        (w.bind fun w => (steps.map Step.text).foldlM child? w).getD .null := by
      rintro (_ | w)
      · exact walkOutput_null _
      · exact ih w
    cases v with
    | obj kvs =>
      rw [walkOutput, getJson]
      exact hnext _
    | arr xs =>
      have hindex : walkOutput (.arr xs) (s.text :: steps.map Step.text) =
          walkOutput ((child? (.arr xs) s.text).getD .null) (steps.map Step.text) := by
        rw [walkOutput]
        simp only [child?]
        cases hint : int? s.text.toList with
        | none => exact (walkOutput_null _).symm
        | some i =>
          have hnonneg : ¬i < 0 := by have := int?_step hint; omega
          simp only [Option.bind_some, if_neg hnonneg]
          cases xs[i.toNat]? with
          | none => exact (walkOutput_null _).symm
          | some w => rfl
      rw [hindex]
      exact hnext _
    | _ => rfl

/-- The value path of a comparison is resolved to what it looks at. -/
theorem resolve_path (p : Path) : (_resolve_value_path p.token ctx).toOption = p.value ctx := by
  obtain ⟨c, cs, hchars, -, -⟩ := p.chars_eq
  have hne : p.token ≠ "" := by
    intro heq
    have hnil := congrArg String.toList heq
    rw [Path.token, String.toList_ofList, hchars] at hnil
    cases hnil
  unfold _resolve_value_path
  rw [if_neg hne, words_path]
  cases p with
  | workflow steps => exact walkDict_drill _ _ _
  | trigger steps => exact walkDict_drill _ _ _
  | status node =>
    obtain ⟨hworkflow, htrigger⟩ := node.not_root
    cases hstatus : Dict.get? ctx.node_statuses node.text <;>
      simp [Path.words, Path.value, hstatus, Except.toOption]
  | output node steps =>
    obtain ⟨hworkflow, htrigger⟩ := node.not_root
    cases hout : Dict.get? ctx.node_outputs node.text <;>
      simp [Path.words, Path.value, hout, Except.toOption, walkOutput_child]

end paths

section meaning

/-- A comparison is the relation of the values. -/
theorem compareValues_holds (op : Op) (a b : Json) :
    (compareValues op.token a (.val b)).toOption = op.holds a b := by
  cases op with
  | eq => rfl
  | ne => rfl
  | lt =>
    cases h : a.lt? b <;>
      simp [compareValues, CondVal.above?, Op.token, Op.holds, h, Except.toOption]
  | gt =>
    cases h : b.lt? a <;>
      simp [compareValues, CondVal.below?, Op.token, Op.holds, h, Except.toOption]
  | le =>
    cases h : a.le? b <;>
      simp [compareValues, CondVal.at_least?, Op.token, Op.holds, h, Except.toOption]
  | ge =>
    cases h : b.le? a <;>
      simp [compareValues, CondVal.at_most?, Op.token, Op.holds, h, Except.toOption]

theorem bool_val (b : Bool) : CondVal.bool b = (Truth.ofBool b).val := by cases b <;> rfl

/-- `AND` of values: false if one is, else the token if one is, else what it starts from. -/
theorem andValue_eq (r : CondVal) (vs : List CondVal) :
    andValue r vs =
      if .no ∈ vs.map CondVal.truth then .bool false
      else if .els ∈ vs.map CondVal.truth then .els else r := by
  induction vs generalizing r with
  | nil => simp [andValue]
  | cons v vs ih =>
    cases v with
    | els => simp [andValue, ih, CondVal.truth]
    | val w =>
      rw [andValue]
      · cases hw : (CondVal.val w).truthy <;> simp [hw, ih, CondVal.truth, Truth.ofBool]
      · simp
    | float x =>
      rw [andValue]
      · cases hx : (CondVal.float x).truthy <;> simp [hx, ih, CondVal.truth, Truth.ofBool]
      · simp

/-- `OR` is true if an argument is, else the token if one is. -/
theorem orValue_eq (r : CondVal) (vs : List CondVal) :
    orValue r vs =
      if .yes ∈ vs.map CondVal.truth then .bool true
      else if .els ∈ vs.map CondVal.truth then .els else r := by
  induction vs generalizing r with
  | nil => simp [orValue]
  | cons v vs ih =>
    cases v with
    | els => simp [orValue, ih, CondVal.truth]
    | val w =>
      rw [orValue]
      · cases hw : (CondVal.val w).truthy <;> simp [hw, ih, CondVal.truth, Truth.ofBool]
      · simp
    | float x =>
      rw [orValue]
      · cases hx : (CondVal.float x).truthy <;> simp [hx, ih, CondVal.truth, Truth.ofBool]
      · simp

/-- `AND` is the conjunction of truth values. -/
theorem and_conj (vs : List CondVal) :
    boolCall "AND" vs = .ok (Truth.conj (vs.map CondVal.truth)).val := by
  unfold boolCall
  rw [if_neg (by decide), if_pos rfl, andValue_eq, Truth.conj]
  split_ifs <;> rfl

/-- `OR` is their disjunction. -/
theorem or_disj (vs : List CondVal) :
    boolCall "OR" vs = .ok (Truth.disj (vs.map CondVal.truth)).val := by
  unfold boolCall
  rw [if_neg (by decide), if_neg (by decide), orValue_eq, Truth.disj]
  split_ifs <;> rfl

/-- `NOT` is the negation, and fails on the token. -/
theorem not_neg (v : CondVal) : (boolCall "NOT" [v]).toOption = v.truth.neg?.map Truth.val := by
  cases v with
  | els => rfl
  | val w =>
    cases hw : (CondVal.val w).truthy <;>
      simp [boolCall, CondVal.truth, hw, Truth.ofBool, Truth.neg?, Truth.val, Except.toOption]
  | float x =>
    cases hx : (CondVal.float x).truthy <;>
      simp [boolCall, CondVal.truth, hx, Truth.ofBool, Truth.neg?, Truth.val, Except.toOption]

/-- A predicate asks for the status of its key. -/
theorem statusCall_predicate (p : StatusPredicate) (key : Key) :
    statusCall p.token [.val (.str key.text)] ctx = .ok (has_status ctx key p.status).val := by
  rw [has_status, ← bool_val]
  cases p <;> rfl

theorem statusCall_status (key : Key) (st : Status) :
    statusCall "status" [.val (.str key.text), .val (.str (status_name st).text)] ctx =
      .ok (has_status ctx key st).val := by
  rw [has_status, ← bool_val]
  cases st <;> rfl

mutual

/-- What was written and read back evaluates to what it says, and to nothing where it
says nothing. -/
theorem Cond.run_tree (ctx : EdgeCtx) :
    ∀ c : Cond, (c.tree.run ctx).toOption = (c.truth ctx).map c.shown
  | .literal l => rfl
  | .predicate p key => by
    have hargs : runs ctx [.const (.val (.str key.text))] = .ok [.val (.str key.text)] := rfl
    rw [Cond.tree, Tree.run, hargs, Cond.truth]
    exact congrArg Except.toOption (statusCall_predicate p key)
  | .status key st q => by
    have hargs : runs ctx [.const (.val (.str key.text)), .const
      (.val (.str (status_name st).text))] =
        .ok [.val (.str key.text), .val (.str (status_name st).text)] := rfl
    rw [Cond.tree, Tree.run, hargs, Cond.truth]
    exact congrArg Except.toOption (statusCall_status key st)
  | .compare path op l => by
    rw [Cond.tree, Tree.run, toOption_bind, resolve_path, Cond.truth]
    cases path.value ctx with
    | none => rfl
    | some v =>
      simp only [Option.bind_some, toOption_bind, compareValues_holds]
      cases op.holds v l.value with
      | none => rfl
      | some b => exact congrArg some (bool_val b)
  | .not c => by
    have harg := c.run_tree ctx
    rw [Cond.tree, Tree.run, toOption_bind, Cond.truth]
    simp only [runs, toOption_bind, harg]
    cases htruth : c.truth ctx with
    | none => rfl
    | some t =>
      have hnot := not_neg (c.shown t)
      rw [Cond.shown_truth htruth] at hnot
      exact hnot
  | .all cs => by
    rw [Cond.tree, Tree.run, toOption_bind, Cond.truth, ← runs_treesOf ctx cs]
    simp only [and_conj]
    cases runs ctx (treesOf cs) <;> rfl
  | .any cs => by
    rw [Cond.tree, Tree.run, toOption_bind, Cond.truth, ← runs_treesOf ctx cs]
    simp only [or_disj]
    cases runs ctx (treesOf cs) <;> rfl
  | .paren c => by
    rw [Cond.tree, Cond.truth]
    exact c.run_tree ctx
  | .otherwise => rfl

/-- Arguments have the truth values of their conditions. -/
theorem runs_treesOf (ctx : EdgeCtx) : ∀ cs : List Cond,
    (runs ctx (treesOf cs)).toOption.map (List.map CondVal.truth) = truths ctx cs
  | [] => rfl
  | c :: cs => by
    have hc := c.run_tree ctx
    have hcs := runs_treesOf ctx cs
    rw [treesOf, runs, toOption_bind, hc, truths, ← hcs]
    cases htruth : c.truth ctx with
    | none => rfl
    | some t =>
      simp only [Option.map_some, Option.bind_some, toOption_bind]
      cases runs ctx (treesOf cs) with
      | error m => rfl
      | ok vs => simp [Except.toOption, Cond.shown_truth htruth]

end

/-- The plain evaluation of a text that spells a condition. -/
theorem evaluate_spelled (c : Cond) (ctx : EdgeCtx) {text : String}
    (h : Spells c.tokens text.toList) :
    (evaluate_edge_condition text ctx).toOption = (c.truth ctx).map c.shown := by
  rw [evaluate_edge_condition_eq, readCondition_spelled h]
  exact c.run_tree ctx

/-- An evaluation whose calls fit into the frames that the recursion limit leaves is
the plain one. -/
theorem evaluate_of_fits {fullmatch : Nat → Nat} {frames : Nat} {text : String} {ctx : EdgeCtx}
    (h : raising.Fits fullmatch frames text ctx.json) :
    raising.evaluate_edge_condition fullmatch frames text ctx.json =
      raising.ofText (evaluate_edge_condition text ctx) := by
  have hclean := (raising.clean_evaluate_iff fullmatch
    (show getJson ctx.json "node_statuses" = .obj _ from rfl) rfl frames text).mpr h
  apply (raising.cutShort_evaluate fullmatch frames text ctx).eq
  intro hcut
  rw [hcut] at hclean
  exact raising.not_clean_recursion hclean

/-- A text that spells a condition, and whose calls fit into the frames that the recursion limit
leaves, evaluates to what the condition says in the context, with the truth that it says, and raises
a ValueError exactly if it says nothing. -/
theorem spelled_condition_meaning (fullmatch : Nat → Nat) (frames : Nat) (c : Cond) (ctx : EdgeCtx)
    {text : String} (h : Spells c.tokens text.toList)
    (hfits : raising.Fits fullmatch frames text ctx.json) :
    (∀ t, c.truth ctx = some t →
        raising.evaluate_edge_condition fullmatch frames text ctx.json = .ok (c.shown t) ∧
          (c.shown t).truth = t) ∧
      ((∃ m, raising.evaluate_edge_condition fullmatch frames text ctx.json =
        .error (.ValueError m)) ↔ c.truth ctx = none) := by
  have hplain := evaluate_spelled c ctx h
  rw [evaluate_of_fits hfits]
  cases htruth : c.truth ctx with
  | none =>
    rw [htruth] at hplain
    cases hevaluate : evaluate_edge_condition text ctx with
    | error m => exact ⟨by simp, iff_of_true ⟨m, rfl⟩ rfl⟩
    | ok v =>
      rw [hevaluate] at hplain
      cases hplain
  | some t =>
    rw [htruth] at hplain
    cases hevaluate : evaluate_edge_condition text ctx with
    | error m =>
      rw [hevaluate] at hplain
      cases hplain
    | ok v =>
      rw [hevaluate] at hplain
      obtain rfl := Option.some.inj hplain
      refine ⟨?_, iff_of_false (by rintro ⟨m, ⟨⟩⟩) (by simp)⟩
      rintro t ⟨⟩
      exact ⟨rfl, Cond.shown_truth htruth⟩

/-- `NOT ( failed(build) )` -/
def notFailed : Cond := .not (.predicate .failed (.bare "build" (by decide)))

theorem notFailed_spelled : Spells notFailed.tokens "NOT ( failed(build) )".toList :=
  @Spells.token [] "NOT" _ _ (by simp) <| @Spells.token [' '] "(" _ _ (by decide) <|
    @Spells.token [' '] "failed" _ _ (by decide) <| @Spells.token [] "(" _ _ (by simp) <|
      @Spells.token [] "build" _ _ (by simp) <| @Spells.token [] ")" _ _ (by simp) <|
        @Spells.token [' '] ")" _ _ (by decide) <| .done (by simp)

/-- A context in which a node has failed with a number for its output. -/
def failedContext : EdgeCtx where
  workflow := []
  trigger := []
  node_statuses := [("build", .FAILED)]
  node_outputs := [("build", [("exit_code", .int 5)])]

theorem notFailed_meaning :
    (∀ t, notFailed.truth failedContext = some t →
        raising.evaluate_edge_condition raising.cached 1000 "NOT ( failed(build) )" failedContext.json = .ok (notFailed.shown t) ∧
          (notFailed.shown t).truth = t) ∧
      ((∃ m, raising.evaluate_edge_condition raising.cached 1000 "NOT ( failed(build) )" failedContext.json =
        .error (.ValueError m)) ↔ notFailed.truth failedContext = none) := by
  refine spelled_condition_meaning raising.cached 1000 notFailed failedContext notFailed_spelled ?_
  refine raising.fits_of_frames (fun _ => Nat.le_refl 2) (fun tokens htokens => ?_) (by omega)
  have hread : raising._tokenize (strip "NOT ( failed(build) )".toList) =
      .ok ["NOT", "(", "failed", "(", "build", ")", ")"] := by
    decide +kernel
  rw [hread] at htokens
  obtain rfl := Except.ok.inj htokens
  decide

/-- `true` in so many parentheses. -/
def deep : Nat → Cond
  | 0 => .literal (.bool true false)
  | n + 1 => .paren (deep n)

theorem deep_tokens (n : Nat) : (deep n).tokens = raising.nested_tokens n ["true"] := by
  induction n with
  | zero => rfl
  | succ n ih =>
    rw [deep, Cond.tokens, ih, raising.nested_tokens, raising.nested_tokens, List.replicate_succ,
      List.replicate_succ']
    simp

/-- Parentheses change no truth. -/
theorem deep_truth (n : Nat) (ctx : EdgeCtx) : (deep n).truth ctx = some .yes := by
  induction n with
  | zero => rfl
  | succ n ih => exact ih

/-- A number of more digits than `int` reads is no literal, and nothing else. -/
theorem long_number_refused (ds : Digits) (h : max_str_digits < ds.chars.length) (ctx : EdgeCtx) :
    ∃ m, evaluate_edge_condition (String.ofList ds.chars) ctx = .error m := by
  have hnone : _parse_literal (String.ofList ds.chars) = none := by
    have hcount : ds.chars.countP isdecimal = ds.chars.length := List.countP_eq_length.mpr ds.digits
    have hparse := parse_digits false ds
    rw [if_neg (by decide), int?, hcount, if_neg (by omega)] at hparse
    exact hparse
  have hreserved : String.ofList ds.chars ∉ reserved := number_not_reserved false ds
  have htoken : ∀ t ∈ [String.ofList ds.chars], IsToken t := by
    intro t ht
    rw [List.mem_singleton.mp ht]
    exact isToken_number false ds
  have hspells : Spells [String.ofList ds.chars] (String.ofList ds.chars).toList := by
    have hjoined := raising.spells_joined [String.ofList ds.chars]
    rwa [raising.joined, List.flatMap_singleton, String.ofList_toList] at hjoined
  have htokens : _tokenize (strip (String.ofList ds.chars).toList) = .ok [String.ofList ds.chars] :=
    (hspells.strip htoken).tokenizeLoop htoken (List.isChain_singleton _) (Nat.le_refl _)
  have hread : readAtom 1 [String.ofList ds.chars] =
      .error ⟨[], s!"E1119: unrecognized token {String.ofList ds.chars}"⟩ := by
    rw [readAtom_unreserved hreserved]
    simp only [readLiteral, hnone]
  have hcondition : readCondition (String.ofList ds.chars) =
      .error ⟨[], s!"E1119: unrecognized token {String.ofList ds.chars}"⟩ := by
    unfold readCondition
    simp only
    split_ifs with hblank helse
    · rw [List.isEmpty_iff.mp hblank] at htokens
      cases htokens
    · rw [helse] at htokens
      have hword : String.ofList ds.chars = "__else__" :=
        (List.cons.inj (Except.ok.inj htokens)).1.symm
      exact absurd (by rw [hword]; decide) hreserved
    · rw [htokens]
      simp only [List.isEmpty_cons, Bool.false_eq_true, if_false, List.length_singleton, hread]
  rw [evaluate_edge_condition_eq, hcondition]
  exact ⟨_, rfl⟩

/-- So many ones. -/
def ones (n : Nat) (h : n ≠ 0) : Digits where
  chars := List.replicate n '1'
  nonempty := by simpa using h
  digits := by
    intro c hc
    rw [List.eq_of_mem_replicate hc]
    decide

/-- Drilling into the number has no value, and yet the condition on it does not raise; five hundred
pairs of parentheses around a literal are too many, and so are 4301 digits for a literal. -/
theorem drilled_output_defined :
    ((drill (.obj [("exit_code", .int 5)]) ["exit_code", "signal"]).isNone = true ∧
      (evaluate_edge_condition "build.output.exit_code.signal == null" failedContext).toOption.map CondVal.truth = some .yes) ∧
    ((deep 500).truth failedContext = some .yes ∧
      raising.evaluate_edge_condition raising.cached 1000
        (raising.joined (deep 500).tokens) failedContext.json =
        .error .RecursionError) ∧
    ∃ m, evaluate_edge_condition
      (String.ofList (ones 4301 (by decide)).chars) failedContext = .error m := by
  refine ⟨by decide +kernel, ⟨deep_truth 500 _, ?_⟩, ?_⟩
  · have hread :=
      raising.tokenize_spelled (raising.spells_joined (deep 500).tokens) (deep 500).isToken
        (deep 500).fits
    rw [deep_tokens] at hread ⊢
    have hnot : ¬raising.Clean (raising.evaluate_edge_condition raising.cached 1000
        (raising.joined (raising.nested_tokens 500 ["true"])) failedContext.json) := by
      rw [raising.clean_evaluate_iff raising.cached
        (show getJson failedContext.json "node_statuses" = .obj _ from rfl) rfl]
      exact raising.not_fits_nested (by omega) hread (by omega)
    obtain hcut | hplain := raising.cutShort_evaluate raising.cached 1000
      (raising.joined (raising.nested_tokens 500 ["true"])) failedContext
    · exact hcut
    · rw [hplain] at hnot
      exact absurd (raising.clean_ofText _) hnot
  · apply long_number_refused
    rw [ones, List.length_replicate, max_str_digits]
    omega

end meaning

end taurus.engine.executor
