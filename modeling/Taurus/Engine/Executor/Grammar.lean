import Taurus.Engine.Executor.Evaluation
import Taurus.Engine.Executor.Parse

/-! The grammar of conditions, over tokens, and the reader that follows it. -/

namespace taurus.engine.executor

open taurus.lib taurus.python raising

/-- The tokens that are no value path, whatever stands behind them. -/
def marks : List String := ["(", ")", ",", "__else__"]

mutual

/-- The tokens are a condition that is read as the tree. -/
inductive Reads : List String → Tree → Prop
  | group {ts : List String} {t : Tree} (h : Reads ts t) : Reads ("(" :: (ts ++ [")"])) t
  | predicate {fn : String} {ts : List String} {args : List Tree} (hfn : fn ∈ status_names)
    (h : ReadsArgs true true ts args) :
    Reads (fn :: "(" :: (ts ++ [")"])) (.call fn args)
  | operator {fn : String} {ts : List String} {args : List Tree} (hfn : fn ∈ bool_names)
    (h : ReadsArgs false true ts args) :
    Reads (fn :: "(" :: (ts ++ [")"])) (.bool fn args)
  | otherwise : Reads ["__else__"] .els
  | literal {tok : String} {v : CondVal} (h : _parse_literal tok = some v) : Reads [tok] (.const v)
  | compare {path op tok : String} {rhs : CondVal} (hpath : path ∉ marks)
    (hvalue : _parse_literal path = none)
    (hop : op ∈ comparisonOps) (hrhs : _parse_literal tok = some rhs) :
    Reads [path, op, tok] (.compare path op rhs)

/-- The tokens are arguments of a call, from the first one on or behind others: one without a comma
comes only first, and only a predicate has a bare key. -/
inductive ReadsArgs : Bool → Bool → List String → List Tree → Prop
  | done (keyed first : Bool) : ReadsArgs keyed first [] []
  | bare {tok : String} {ts : List String} {args : List Tree} (h : isBareKey tok = true)
    (more : ReadsArgs true false ts args) :
    ReadsArgs true true (tok :: ts) (.const (.val (.str tok)) :: args)
  | here {keyed : Bool} {ts us : List String} {t : Tree} {args : List Tree} (h : Reads ts t)
    (hkey : keyed = true → ∀ tok ∈ ts.head?, isBareKey tok = false)
    (more : ReadsArgs keyed false us args) :
    ReadsArgs keyed true (ts ++ us) (t :: args)
  | comma {keyed first : Bool} {ts us : List String} {t : Tree} {args : List Tree} (h : Reads ts t)
    (more : ReadsArgs keyed false us args) : ReadsArgs keyed first ("," :: (ts ++ us)) (t :: args)

end

variable {fuel : Nat} {tok : String} {ts rest : List String} {t : Tree}

section heads

/-- The tokens that start something other than a literal or a comparison, or nothing at all. -/
def reserved : List String :=
  [")", ",", "(", "success", "failed", "skipped", "cancelled", "status", "AND", "OR",
    "NOT", "__else__"]

theorem reserved_no_literal (h : tok ∈ reserved) : _parse_literal tok = none := by
  have hall : ∀ t ∈ reserved, (_parse_literal t).isNone = true := by decide +kernel
  exact Option.isNone_iff_eq_none.mp (hall tok h)

/-- A literal is not reserved. -/
theorem not_reserved_of_literal {v : CondVal} (h : _parse_literal tok = some v) :
    tok ∉ reserved := by
  intro hmem
  rw [reserved_no_literal hmem] at h
  cases h

/-- A condition does not start with a closing parenthesis or a comma. -/
theorem Reads.head (h : Reads ts t) : ∃ tok more, ts = tok :: more ∧ tok ≠ ")" ∧ tok ≠ "," := by
  cases h with
  | group h => exact ⟨_, _, rfl, by decide⟩
  | predicate hfn h =>
    have hall : ∀ fn ∈ status_names, fn ≠ ")" ∧ fn ≠ "," := by decide
    exact ⟨_, _, rfl, hall _ hfn⟩
  | operator hfn h =>
    have hall : ∀ fn ∈ bool_names, fn ≠ ")" ∧ fn ≠ "," := by decide
    exact ⟨_, _, rfl, hall _ hfn⟩
  | otherwise => exact ⟨_, _, rfl, by decide⟩
  | literal h =>
    have hnot := not_reserved_of_literal h
    simp only [reserved, List.mem_cons, not_or] at hnot
    exact ⟨_, _, rfl, hnot.1, hnot.2.1⟩
  | compare hpath hvalue hop hrhs =>
    simp only [marks, List.mem_cons, not_or] at hpath
    exact ⟨_, _, rfl, hpath.2.1, hpath.2.2.1⟩

theorem isBareKey_mark (h : tok = ")" ∨ tok = ",") : isBareKey tok = false := by
  obtain rfl | rfl := h
  · decide
  · decide

end heads

section completeness

/-- A group is read as what stands in it. -/
theorem readAtom_group (h : readAtom fuel (ts ++ ")" :: rest) = .ok (t, ")" :: rest)) :
    readAtom (fuel + 1) ("(" :: (ts ++ [")"]) ++ rest) = .ok (t, rest) := by
  rw [List.cons_append, List.append_assoc, List.singleton_append, readAtom, if_pos rfl, h]
  rfl

/-- A predicate is read with its arguments. -/
theorem readAtom_call {fn : String} (hfn : fn ∈ status_names) {args : List Tree}
    {more after : List String}
    (h : readCallArgs (readAtom fuel) fn (more.length + 1) true [] more = .ok (args, after)) :
    readAtom (fuel + 1) (fn :: "(" :: more) = .ok (.call fn args, after) := by
  have hopen : fn ≠ "(" := by
    rintro rfl
    exact absurd hfn (by decide)
  rw [readAtom, if_neg hopen, if_pos ⟨List.contains_iff_mem.mpr hfn, rfl⟩]
  simp only [List.tail_cons, List.length_cons, h]

/-- An operator is read with its arguments. -/
theorem readAtom_bool {fn : String} (hfn : fn ∈ bool_names) {args : List Tree}
    {more after : List String}
    (h : readBoolArgs (readAtom fuel) fn (more.length + 1) [] more = .ok (args, after)) :
    readAtom (fuel + 1) (fn :: "(" :: more) = .ok (.bool fn args, after) := by
  have hall : ∀ fn ∈ bool_names, fn ≠ "(" ∧
      fn ∉ ["success", "failed", "skipped", "cancelled", "status"] := by decide
  obtain ⟨hopen, hcall⟩ := hall fn hfn
  rw [readAtom, if_neg hopen, if_neg fun h => hcall (List.contains_iff_mem.mp h.1),
    if_pos ⟨List.contains_iff_mem.mpr hfn, rfl⟩]
  simp only [List.tail_cons, List.length_cons, h]

/-- What is no parenthesis, no call and no else token is a literal or a comparison. -/
theorem readAtom_plain (hgroup : tok ≠ "(")
    (hcall : rest.head? = some "(" → tok ∉ status_names ∧ tok ∉ bool_names)
    (helse : tok ≠ "__else__") : readAtom (fuel + 1) (tok :: rest) = readLiteral tok rest := by
  rw [readAtom, if_neg hgroup, if_neg fun h => (hcall h.2).1 (List.contains_iff_mem.mp h.1),
    if_neg fun h => (hcall h.2).2 (List.contains_iff_mem.mp h.1), if_neg helse]

/-- Any other token begins a literal or a comparison. -/
theorem readAtom_unreserved (h : tok ∉ reserved) :
    readAtom (fuel + 1) (tok :: rest) = readLiteral tok rest := by
  have hall : ∀ t ∈ ["(", "__else__"] ++ status_names ++ bool_names, t ∈ reserved := by decide
  have hnot : ∀ t ∈ ["(", "__else__"] ++ status_names ++ bool_names, tok ≠ t := by
    rintro t ht rfl
    exact h (hall tok ht)
  apply readAtom_plain (hnot "(" (by decide)) _ (hnot "__else__" (by decide))
  exact fun _ => ⟨fun hmem => hnot tok (by simp [hmem]) rfl,
    fun hmem => hnot tok (by simp [hmem]) rfl⟩

/-- A literal is read as itself. -/
theorem readAtom_literal {v : CondVal} (h : _parse_literal tok = some v) :
    readAtom (fuel + 1) (tok :: rest) = .ok (.const v, rest) := by
  rw [readAtom_unreserved (not_reserved_of_literal h)]
  simp only [readLiteral, h]

/-- A comparison is read from three tokens. -/
theorem readAtom_compare {path op : String} {rhs : CondVal} (hpath : path ∉ marks)
    (hvalue : _parse_literal path = none) (hop : op ∈ comparisonOps)
    (hrhs : _parse_literal tok = some rhs) :
    readAtom (fuel + 1) (path :: op :: tok :: rest) = .ok (.compare path op rhs, rest) := by
  simp only [marks, List.mem_cons, not_or] at hpath
  have hparen : op ≠ "(" := by
    rintro rfl
    exact absurd hop (by decide)
  rw [readAtom_plain hpath.1 (by simpa using fun heq => absurd heq hparen) hpath.2.2.2.1]
  simp only [readLiteral, hvalue, List.contains_iff_mem.mpr hop, if_true, hrhs]

variable {fn : String} {n : Nat} {args : List Tree}

/-- An argument behind a comma. -/
theorem readCallArgs_comma {first : Bool} (htok : tok ≠ ")")
    (h : readAtom fuel (tok :: ts) = .ok (t, rest)) :
    readCallArgs (readAtom fuel) fn (n + 1) first args ("," :: tok :: ts) =
      readCallArgs (readAtom fuel) fn n false (args ++ [t]) rest := by
  rw [readCallArgs]
  · simp [htok, h]
  · decide

/-- The first argument, without a comma. -/
theorem readCallArgs_here (hclose : tok ≠ ")") (hcomma : tok ≠ ",") (hbare : isBareKey tok = false)
    (h : readAtom fuel (tok :: ts) = .ok (t, rest)) :
    readCallArgs (readAtom fuel) fn (n + 1) true [] (tok :: ts) =
      readCallArgs (readAtom fuel) fn n false [t] rest := by
  rw [readCallArgs]
  · simp [hcomma, hbare, h]
  · simp [hclose]

/-- A bare key is read as a text. -/
theorem readCallArgs_bare (hbare : isBareKey tok = true) :
    readCallArgs (readAtom fuel) fn (n + 1) true [] (tok :: ts) =
      readCallArgs (readAtom fuel) fn n false [.const (.val (.str tok))] ts := by
  have hmark : tok ≠ ")" ∧ tok ≠ "," := by
    refine ⟨fun heq => ?_, fun heq => ?_⟩
    · rw [isBareKey_mark (.inl heq)] at hbare
      cases hbare
    · rw [isBareKey_mark (.inr heq)] at hbare
      cases hbare
  rw [readCallArgs]
  · simp [hmark.2, hbare]
  · simp [hmark.1]

/-- An argument behind a comma. -/
theorem readBoolArgs_comma (h : readAtom fuel ts = .ok (t, rest)) :
    readBoolArgs (readAtom fuel) fn (n + 1) args ("," :: ts) =
      readBoolArgs (readAtom fuel) fn n (args ++ [t]) rest := by
  rw [readBoolArgs]
  · simp [h]
  · decide

/-- The first argument. -/
theorem readBoolArgs_here (hclose : tok ≠ ")") (hcomma : tok ≠ ",")
    (h : readAtom fuel (tok :: ts) = .ok (t, rest)) :
    readBoolArgs (readAtom fuel) fn (n + 1) [] (tok :: ts) =
      readBoolArgs (readAtom fuel) fn n [t] rest := by
  rw [readBoolArgs]
  · simp [hcomma, h]
  · simp [hclose]

mutual

/-- A condition is read, whatever follows it. -/
theorem Reads.read : ∀ {ts : List String} {t : Tree}, Reads ts t → ∀ {fuel : Nat}
    (rest : List String), ts.length ≤ fuel →
    readAtom fuel (ts ++ rest) = .ok (t, rest)
  | _, _, .group h, 0, rest, hfuel | _, _, .predicate _ h, 0, rest, hfuel | _, _, .operator _ h, 0, rest, hfuel => by
    simp at hfuel
  | _, _, .otherwise, 0, rest, hfuel | _, _, .literal _, 0, rest, hfuel | _, _, .compare .., 0,
    rest, hfuel => by
    simp at hfuel
  | _, _, .group h, fuel + 1, rest, hfuel => by
    rw [List.length_cons, List.length_append] at hfuel
    exact readAtom_group (h.read _ (by omega))
  | _, _, .predicate hfn h, fuel + 1, rest, hfuel => by
    simp only [List.length_cons, List.length_append] at hfuel
    rw [List.cons_append, List.cons_append, List.append_assoc, List.singleton_append]
    apply readAtom_call hfn
    exact h.read_call rfl (fun _ => rfl) rest (by omega) (by rw [List.length_append]; omega)
  | _, _, .operator hfn h, fuel + 1, rest, hfuel => by
    simp only [List.length_cons, List.length_append] at hfuel
    rw [List.cons_append, List.cons_append, List.append_assoc, List.singleton_append]
    apply readAtom_bool hfn
    exact h.read_bool rfl (fun _ => rfl) rest (by omega) (by rw [List.length_append]; omega)
  | _, _, .otherwise, fuel + 1, rest, hfuel => rfl
  | _, _, .literal h, fuel + 1, rest, hfuel => readAtom_literal h
  | _, _, .compare hpath hvalue hop hrhs, fuel + 1, rest, hfuel =>
    readAtom_compare hpath hvalue hop hrhs

/-- Arguments of the grammar are read by a predicate. -/
theorem ReadsArgs.read_call {fn : String} :
    ∀ {keyed first : Bool} {ts : List String} {more : List Tree}, ReadsArgs keyed first ts more →
      keyed = true → ∀ {fuel n : Nat} {args : List Tree}, (first = true → args = []) →
      ∀ (rest : List String), ts.length ≤ fuel → ts.length ≤ n →
        readCallArgs (readAtom fuel) fn n first args (ts ++ ")" :: rest) = .ok (args ++ more, rest)
  | _, _, _, _, .done _ _, hkeyed, fuel, n, args, hfirst, rest, hfuel, hn => by
    rw [List.nil_append, readCallArgs, List.append_nil]
  | _, _, _, _, .bare h more, hkeyed, fuel, n, args, hfirst, rest, hfuel, hn => by
    rw [List.length_cons] at hfuel hn
    obtain ⟨n, rfl⟩ : ∃ m, n = m + 1 := ⟨n - 1, by omega⟩
    rw [hfirst rfl, List.cons_append, readCallArgs_bare h]
    exact more.read_call rfl (by simp) rest (by omega) (by omega)
  | _, _, _, _, @ReadsArgs.here _ ts us _ _ h hkey more, hkeyed, fuel, n, args, hfirst, rest,
    hfuel, hn => by
    obtain ⟨tok, toks, hts, hclose, hcomma⟩ := h.head
    rw [List.length_append] at hfuel hn
    have hread : readAtom fuel (ts ++ (us ++ ")" :: rest)) = .ok (_, us ++ ")" :: rest) :=
      h.read _ (by omega)
    rw [hts, List.length_cons] at hn
    obtain ⟨n, rfl⟩ : ∃ m, n = m + 1 := ⟨n - 1, by omega⟩
    rw [hts, List.cons_append] at hread
    rw [hfirst rfl, List.append_assoc, hts, List.cons_append,
      readCallArgs_here hclose hcomma (hkey hkeyed tok (by rw [hts]; rfl)) hread]
    exact more.read_call hkeyed (by simp) rest (by omega) (by omega)
  | _, _, _, _, @ReadsArgs.comma _ _ ts us _ _ h more, hkeyed, fuel, n, args, hfirst, rest,
    hfuel, hn => by
    obtain ⟨tok, toks, hts, hclose, hcomma⟩ := h.head
    rw [List.length_cons, List.length_append] at hfuel hn
    have hread : readAtom fuel (ts ++ (us ++ ")" :: rest)) = .ok (_, us ++ ")" :: rest) :=
      h.read _ (by omega)
    obtain ⟨n, rfl⟩ : ∃ m, n = m + 1 := ⟨n - 1, by omega⟩
    rw [hts, List.cons_append] at hread
    rw [List.cons_append, List.append_assoc, hts, List.cons_append, readCallArgs_comma hclose hread,
      more.read_call hkeyed (by simp) rest (by omega) (by omega), List.append_assoc,
      List.singleton_append]

theorem ReadsArgs.read_bool {fn : String} :
    ∀ {keyed first : Bool} {ts : List String} {more : List Tree}, ReadsArgs keyed first ts more →
      keyed = false → ∀ {fuel n : Nat} {args : List Tree}, (first = true → args = []) →
      ∀ (rest : List String), ts.length ≤ fuel → ts.length ≤ n →
        readBoolArgs (readAtom fuel) fn n args (ts ++ ")" :: rest) = .ok (args ++ more, rest)
  | _, _, _, _, .done _ _, hkeyed, fuel, n, args, hfirst, rest, hfuel, hn => by
    rw [List.nil_append, readBoolArgs, List.append_nil]
  | _, _, _, _, @ReadsArgs.here _ ts us _ _ h hkey more, hkeyed, fuel, n, args, hfirst, rest,
    hfuel, hn => by
    obtain ⟨tok, toks, hts, hclose, hcomma⟩ := h.head
    rw [List.length_append] at hfuel hn
    have hread : readAtom fuel (ts ++ (us ++ ")" :: rest)) = .ok (_, us ++ ")" :: rest) :=
      h.read _ (by omega)
    rw [hts, List.length_cons] at hn
    obtain ⟨n, rfl⟩ : ∃ m, n = m + 1 := ⟨n - 1, by omega⟩
    rw [hts, List.cons_append] at hread
    rw [hfirst rfl, List.append_assoc, hts, List.cons_append, readBoolArgs_here hclose hcomma hread]
    exact more.read_bool hkeyed (by simp) rest (by omega) (by omega)
  | _, _, _, _, @ReadsArgs.comma _ _ ts us _ _ h more, hkeyed, fuel, n, args, hfirst, rest,
    hfuel, hn => by
    rw [List.length_cons, List.length_append] at hfuel hn
    have hread : readAtom fuel (ts ++ (us ++ ")" :: rest)) = .ok (_, us ++ ")" :: rest) :=
      h.read _ (by omega)
    obtain ⟨n, rfl⟩ : ∃ m, n = m + 1 := ⟨n - 1, by omega⟩
    rw [List.cons_append, List.append_assoc, readBoolArgs_comma hread,
      more.read_bool hkeyed (by simp) rest (by omega) (by omega), List.append_assoc,
      List.singleton_append]

end

end completeness

section soundness

/-- No comparison operator stands behind a mark. -/
def NoMarks (ts : List String) : Prop :=
  ∀ path op, [path, op] <:+: ts → op ∈ comparisonOps → path ∉ marks

theorem NoMarks.within {us : List String} (h : NoMarks ts) (hwithin : us <:+: ts) : NoMarks us :=
  fun path op hmem => h path op (hmem.trans hwithin)

theorem NoMarks.tail {us : List String} (h : NoMarks (tok :: us)) : NoMarks us :=
  h.within (List.suffix_cons tok us).isInfix

/-- What is read at the head of the tokens is a condition. -/
def SoundReader (parseAtom : List String → Parse (Tree × List String)) : Prop :=
  ∀ ts t rest, NoMarks ts → parseAtom ts = .ok (t, rest) → ∃ used, ts = used ++ rest ∧ Reads used t

/-- What is read as a literal or a comparison is one. -/
theorem readLiteral_sound {after : List String} (hplain : NoMarks (tok :: rest))
    (h : readLiteral tok rest = .ok (t, after)) :
    ∃ used, tok :: rest = used ++ after ∧ Reads used t := by
  unfold readLiteral at h
  split at h
  · next v hv =>
    obtain ⟨rfl, rfl⟩ := Prod.mk.inj (Except.ok.inj h)
    exact ⟨[tok], rfl, .literal hv⟩
  · next hvalue =>
    split at h
    · next op rhsTok more =>
      split_ifs at h with hop
      split at h
      · cases h
      · next rhs hrhs =>
        obtain ⟨rfl, rfl⟩ := Prod.mk.inj (Except.ok.inj h)
        rw [List.contains_iff_mem] at hop
        have hpath : tok ∉ marks :=
          hplain tok op (List.prefix_append [tok, op] (rhsTok :: more)).isInfix hop
        exact ⟨[tok, op, rhsTok], rfl, .compare hpath hvalue hop hrhs⟩
    · cases h

variable {parseAtom : List String → Parse (Tree × List String)} {fn : String}

/-- What a predicate reads as arguments are arguments. -/
theorem readCallArgs_sound (hatom : SoundReader parseAtom) {n : Nat} {first : Bool}
    {args out : List Tree} {ts rest : List String} (hplain : NoMarks ts)
    (hfirst : first = args.isEmpty)
    (h : readCallArgs parseAtom fn n first args ts = .ok (out, rest)) :
    ∃ used more, ts = used ++ ")" :: rest ∧ out = args ++ more ∧
      ReadsArgs true first used more := by
  fun_induction readCallArgs parseAtom fn n first args ts with
  | case1 | case3 | case4 | case5 | case6 | case8 => cases h
  | case2 =>
    obtain ⟨rfl, rfl⟩ := Prod.mk.inj (Except.ok.inj h)
    exact ⟨[], [], rfl, by simp, .done _ _⟩
  | case7 fuel first args tok ts hclose hsep here first' t more hhere hend hbare ih =>
    obtain ⟨hhead, hkey⟩ := Bool.and_eq_true_iff.mp hbare
    obtain ⟨rfl, hcomma⟩ := Bool.and_eq_true_iff.mp hhead
    have hne : tok ≠ "," := bne_iff_ne.mp hcomma
    obtain ⟨rfl, rfl⟩ := List.cons.inj ((if_neg hne).symm.trans hhere)
    obtain ⟨used, out', rfl, rfl, hargs⟩ := ih hplain.tail (by simp) h
    exact ⟨tok :: used, _, rfl, List.append_assoc .., .bare hkey hargs⟩
  | case9 fuel first args tok ts hclose hsep here first' t more hhere hend hbare a after hatom' ih =>
    by_cases hcomma : tok = ","
    · subst hcomma
      have hrest : here = ts := if_pos rfl
      obtain ⟨used, rfl, hread⟩ := hatom ts a after hplain.tail (hrest ▸ hatom')
      obtain ⟨used', out', rfl, rfl, hargs⟩ :=
        ih (hplain.tail.within (List.suffix_append used after).isInfix) (by simp) h
      exact ⟨"," :: (used ++ used'), _, by simp, List.append_assoc .., .comma hread hargs⟩
    · -- the first argument stands without a comma, and is no bare key
      have hrest : here = tok :: ts := if_neg hcomma
      obtain ⟨used, hused, hread⟩ := hatom _ a after hplain (hrest ▸ hatom')
      rw [hused] at hplain
      obtain ⟨used', out', rfl, rfl, hargs⟩ :=
        ih (hplain.within (List.suffix_append used after).isInfix) (by simp) h
      have hempty : args = [] := by
        rw [← List.isEmpty_iff]
        by_contra hsome
        exact hsep (by simp [hsome, hcomma])
      subst hempty hfirst
      obtain ⟨rfl, -⟩ := List.cons.inj (hrest.symm.trans hhere)
      have hkey : isBareKey tok = false := by
        by_contra hkey
        apply hbare
        simp [first', hcomma, Bool.not_eq_false _ ▸ hkey]
      obtain ⟨hd, tl, rfl, -⟩ := hread.head
      obtain ⟨rfl, -⟩ := List.cons.inj hused
      refine ⟨(tok :: tl) ++ used', _,
        by rw [hused, List.append_assoc], rfl, .here hread (fun _ tok' htok => ?_) hargs⟩
      obtain rfl := Option.some.inj htok
      exact hkey

theorem readBoolArgs_sound (hatom : SoundReader parseAtom) {n : Nat} {args out : List Tree}
    {ts rest : List String} (hplain : NoMarks ts)
    (h : readBoolArgs parseAtom fn n args ts = .ok (out, rest)) :
    ∃ used more, ts = used ++ ")" :: rest ∧ out = args ++ more ∧
      ReadsArgs false args.isEmpty used more := by
  fun_induction readBoolArgs parseAtom fn n args ts with
  | case1 | case3 | case4 | case5 => cases h
  | case2 =>
    obtain ⟨rfl, rfl⟩ := Prod.mk.inj (Except.ok.inj h)
    exact ⟨[], [], rfl, by simp, .done _ _⟩
  | case6 fuel args tok ts hclose hsep a after hatom' ih =>
    have hsnoc : (args ++ [a]).isEmpty = false := by simp
    rw [hsnoc] at ih
    by_cases hcomma : tok = ","
    · rw [if_pos hcomma] at hatom'
      obtain ⟨used, rfl, hread⟩ := hatom ts a after hplain.tail hatom'
      obtain ⟨used', out', rfl, rfl, hargs⟩ :=
        ih (hplain.tail.within (List.suffix_append used after).isInfix) h
      exact ⟨"," :: (used ++ used'), _, by simp [hcomma], List.append_assoc .., .comma hread hargs⟩
    · rw [if_neg hcomma] at hatom'
      obtain ⟨used, hused, hread⟩ := hatom _ a after hplain hatom'
      rw [hused] at hplain
      obtain ⟨used', out', rfl, rfl, hargs⟩ :=
        ih (hplain.within (List.suffix_append used after).isInfix) h
      have hempty : args = [] := by
        rw [← List.isEmpty_iff]
        by_contra hsome
        exact hsep (by simp [hsome, hcomma])
      subst hempty
      exact ⟨used ++ used', _, by rw [hused, List.append_assoc], rfl, .here hread (by simp) hargs⟩

/-- What the reader reads is a condition, by induction on the nesting. -/
theorem readAtom_sound (fuel : Nat) : SoundReader (readAtom fuel) := by
  induction fuel with
  | zero =>
    intro ts t rest _ h
    cases ts <;> cases h
  | succ fuel ih =>
    intro ts t rest hplain h
    cases ts with
    | nil => cases h
    | cons tok more =>
      rw [readAtom] at h
      split_ifs at h with hgroup hcall hbool helse
      · subst hgroup
        split at h
        · cases h
        · next v after hread =>
          obtain ⟨rfl, rfl⟩ := Prod.mk.inj (Except.ok.inj h)
          obtain ⟨used, rfl, hinner⟩ := ih _ _ _ hplain.tail hread
          exact ⟨"(" :: (used ++ [")"]), by simp, .group hinner⟩
        · cases h
      · obtain ⟨hfn, hparen⟩ := hcall
        obtain ⟨more, rfl⟩ : ∃ more', more = "(" :: more' := List.head?_eq_some_iff.mp hparen
        split at h
        · cases h
        · next args after hread =>
          obtain ⟨rfl, rfl⟩ := Prod.mk.inj (Except.ok.inj h)
          obtain ⟨used, out, hused, rfl, hargs⟩ :=
            readCallArgs_sound ih hplain.tail.tail List.isEmpty_nil.symm hread
          exact ⟨tok :: "(" :: (used ++ [")"]),
            by simp [hused], .predicate (List.contains_iff_mem.mp hfn) hargs⟩
      · obtain ⟨hfn, hparen⟩ := hbool
        obtain ⟨more, rfl⟩ : ∃ more', more = "(" :: more' := List.head?_eq_some_iff.mp hparen
        split at h
        · cases h
        · next args after hread =>
          obtain ⟨rfl, rfl⟩ := Prod.mk.inj (Except.ok.inj h)
          obtain ⟨used, out, hused, rfl, hargs⟩ := readBoolArgs_sound ih hplain.tail.tail hread
          exact ⟨tok :: "(" :: (used ++ [")"]),
            by simp [hused], .operator (List.contains_iff_mem.mp hfn) hargs⟩
      · obtain ⟨rfl, rfl⟩ := Prod.mk.inj (Except.ok.inj h)
        exact ⟨["__else__"], by simp [helse], .otherwise⟩
      · exact readLiteral_sound hplain h

end soundness

section steps

mutual

/-- The parts of a condition in the order of their evaluation. -/
def Tree.steps : Tree → List Tree
  | .const v => [.const v]
  | .els => [.els]
  | .compare path op rhs => [.compare path op rhs]
  | .call fn args => stepsOf args ++ [.call fn args]
  | .bool fn args => stepsOf args ++ [.bool fn args]

def stepsOf : List Tree → List Tree
  | [] => []
  | t :: ts => t.steps ++ stepsOf ts

end

theorem stepsOf_append (ts us : List Tree) : stepsOf (ts ++ us) = stepsOf ts ++ stepsOf us := by
  induction ts with
  | nil => rfl
  | cons t ts ih => rw [List.cons_append, stepsOf, stepsOf, ih, List.append_assoc]

theorem stepsOf_singleton (t : Tree) : stepsOf [t] = t.steps := by
  rw [stepsOf, stepsOf, List.append_nil]

/-- The comparisons stand in the tokens. -/
def FromTokens (ts : List String) (parts : List Tree) : Prop :=
  ∀ path op rhs, Tree.compare path op rhs ∈ parts →
    [path, op] <:+: ts ∧ op ∈ comparisonOps ∧ _parse_literal path = none

theorem FromTokens.append {parts parts' : List Tree} (h : FromTokens ts parts)
    (h' : FromTokens ts parts') :
    FromTokens ts (parts ++ parts') :=
  fun path op rhs hmem => (List.mem_append.mp hmem).elim (h path op rhs) (h' path op rhs)

/-- Comparisons of a part stand in the whole. -/
theorem FromTokens.within {us : List String} {parts : List Tree} (h : FromTokens us parts)
    (hwithin : us <:+: ts) :
    FromTokens ts parts :=
  fun path op rhs hmem => (h path op rhs hmem).imp_left fun hstands => hstands.trans hwithin

/-- A part that is no comparison. -/
theorem fromTokens_singleton (ts : List String) (h : ∀ path op rhs, t ≠ .compare path op rhs) :
    FromTokens ts [t] := by
  intro path op rhs hmem
  exact absurd (List.mem_singleton.mp hmem).symm (h path op rhs)

/-- What was read, or was before it could not be read on, stands in the tokens, and
the rest behind it. -/
def Kept {α : Type} (parts : α → List Tree) (ts : List String) : Parse (α × List String) → Prop
  | .ok (a, rest) => rest <:+ ts ∧ FromTokens ts (parts a)
  | .error b => FromTokens ts (stepsOf b.before)

/-- What a literal reads stands in the tokens. -/
theorem kept_readLiteral (tok : String) (rest : List String) :
    Kept Tree.steps (tok :: rest) (readLiteral tok rest) := by
  have hnone : ∀ message, Kept Tree.steps (tok :: rest) (.error ⟨[], message⟩) := by
    intro message path op rhs hmem
    cases hmem
  unfold readLiteral
  split
  · exact ⟨List.suffix_cons tok rest, fromTokens_singleton _ (by simp)⟩
  · next hvalue =>
    split
    · next op rhsTok after =>
      split_ifs with hop
      · split
        · exact hnone _
        · next rhs hrhs =>
          refine ⟨(List.suffix_append [tok, op, rhsTok] after), ?_⟩
          intro path op' rhs' hmem
          obtain ⟨rfl, rfl, rfl⟩ := Tree.compare.inj (List.mem_singleton.mp hmem)
          exact ⟨(List.prefix_append [path, op'] (rhsTok :: after)).isInfix,
            List.contains_iff_mem.mp hop, hvalue⟩
      · exact hnone _
    · exact hnone _

variable {parseAtom : List String → Parse (Tree × List String)} {us : List String}

/-- Where the argument behind a token begins. -/
theorem suffix_behind (tok : String) (ts : List String) :
    (if tok = "," then ts else tok :: ts) <:+ tok :: ts := by
  split_ifs
  · exact List.suffix_cons tok ts
  · exact List.suffix_refl _

theorem kept_readCallArgs (hatom : ∀ ts, Kept Tree.steps ts (parseAtom ts)) (fn : String) (n : Nat)
    (first : Bool) (args : List Tree) (hargs : FromTokens us (stepsOf args)) (hsuffix : ts <:+ us) :
    Kept stepsOf us (readCallArgs parseAtom fn n first args ts) := by
  fun_induction readCallArgs parseAtom fn n first args ts with
  | case1 | case3 | case4 | case5 | case6 => exact hargs
  | case2 => exact ⟨(List.suffix_cons _ _).trans hsuffix, hargs⟩
  | case7 fuel first args tok ts hclose hsep here first' t more hhere hend hbare ih =>
    have hmore : t :: more <:+ us := hhere ▸ (suffix_behind tok ts).trans hsuffix
    apply ih _ ((List.suffix_cons t more).trans hmore)
    rw [stepsOf_append]
    exact hargs.append (fromTokens_singleton us (by simp))
  | case8 fuel first args tok ts hclose hsep here first' t more hhere hend hbare b hbroken =>
    have hkept := hatom here
    rw [hbroken] at hkept
    rw [Kept, Broken.after, stepsOf_append]
    exact hargs.append (hkept.within ((suffix_behind tok ts).trans hsuffix).isInfix)
  | case9 fuel first args tok ts hclose hsep here first' t more hhere hend hbare a after hatom' ih =>
    have hkept := hatom here
    rw [hatom'] at hkept
    obtain ⟨hafter, hparts⟩ := hkept
    have hhere : here <:+ us := (suffix_behind tok ts).trans hsuffix
    apply ih _ (hafter.trans hhere)
    rw [stepsOf_append, stepsOf_singleton]
    exact hargs.append (hparts.within hhere.isInfix)

theorem kept_readBoolArgs (hatom : ∀ ts, Kept Tree.steps ts (parseAtom ts)) (fn : String) (n : Nat)
    (args : List Tree) (hargs : FromTokens us (stepsOf args)) (hsuffix : ts <:+ us) :
    Kept stepsOf us (readBoolArgs parseAtom fn n args ts) := by
  fun_induction readBoolArgs parseAtom fn n args ts with
  | case1 | case3 | case4 => exact hargs
  | case2 => exact ⟨(List.suffix_cons _ _).trans hsuffix, hargs⟩
  | case5 fuel args tok ts hclose hsep b hbroken =>
    have hkept := hatom (if tok = "," then ts else tok :: ts)
    rw [hbroken] at hkept
    rw [Kept, Broken.after, stepsOf_append]
    exact hargs.append (hkept.within ((suffix_behind tok ts).trans hsuffix).isInfix)
  | case6 fuel args tok ts hclose hsep a after hatom' ih =>
    have hkept := hatom (if tok = "," then ts else tok :: ts)
    rw [hatom'] at hkept
    obtain ⟨hafter, hparts⟩ := hkept
    have hhere := (suffix_behind tok ts).trans hsuffix
    apply ih _ (hafter.trans hhere)
    rw [stepsOf_append, stepsOf_singleton]
    exact hargs.append (hparts.within hhere.isInfix)

/-- The reader reads parts from its tokens, also where it cannot read on. -/
theorem kept_readAtom (fuel : Nat) (ts : List String) : Kept Tree.steps ts (readAtom fuel ts) := by
  have hnone : ∀ (ts : List String) message, Kept Tree.steps ts (.error ⟨[], message⟩) := by
    intro ts message path op rhs hmem
    cases hmem
  induction fuel generalizing ts with
  | zero => cases ts <;> exact hnone _ _
  | succ fuel ih =>
    cases ts with
    | nil => exact hnone _ _
    | cons tok more =>
      have hmore : more <:+ tok :: more := List.suffix_cons tok more
      have htail : more.tail <:+ tok :: more := (List.tail_suffix more).trans hmore
      have hnil : FromTokens (tok :: more) (stepsOf []) := by
        intro path op rhs hmem
        cases hmem
      rw [readAtom]
      split_ifs
      · have hkept := ih more
        split
        · next b hb =>
          rw [hb] at hkept
          exact hkept.within hmore.isInfix
        · next v after hv =>
          rw [hv] at hkept
          exact ⟨(List.suffix_cons ")" after).trans (hkept.1.trans hmore),
            hkept.2.within hmore.isInfix⟩
        · next v after hclose hv =>
          rw [hv] at hkept
          rw [Kept, stepsOf_singleton]
          exact hkept.2.within hmore.isInfix
      · have hkept := kept_readCallArgs ih tok more.length true [] hnil htail
        split
        · next b hb =>
          rw [hb] at hkept
          exact hkept
        · next args after hargs =>
          rw [hargs] at hkept
          refine ⟨hkept.1, ?_⟩
          rw [Tree.steps]
          exact hkept.2.append (fromTokens_singleton _ (by simp))
      · have hkept := kept_readBoolArgs ih tok more.length [] hnil htail
        split
        · next b hb =>
          rw [hb] at hkept
          exact hkept
        · next args after hargs =>
          rw [hargs] at hkept
          refine ⟨hkept.1, ?_⟩
          rw [Tree.steps]
          exact hkept.2.append (fromTokens_singleton _ (by simp))
      · exact ⟨hmore, fromTokens_singleton _ (by simp)⟩
      · exact kept_readLiteral tok more

/-- The operators and the else tokens of the parts stand in the tokens, and no
literal is an else token. -/
structure NamedIn (ts : List String) (parts : List Tree) : Prop where
  operators : ∀ fn args, .bool fn args ∈ parts → fn ∈ ts
  otherwise : .els ∈ parts → "__else__" ∈ ts
  literals : ∀ v, .const v ∈ parts → v.isElse = false

theorem NamedIn.mono {parts : List Tree} (h : NamedIn ts parts) (hsub : ∀ t ∈ ts, t ∈ us) :
    NamedIn us parts where
  operators := fun fn args hmem => hsub fn (h.operators fn args hmem)
  otherwise := fun hmem => hsub _ (h.otherwise hmem)
  literals := h.literals

theorem NamedIn.append {parts parts' : List Tree} (h : NamedIn ts parts) (h' : NamedIn ts parts') :
    NamedIn ts (parts ++ parts') where
  operators :=
    fun fn args hmem => (List.mem_append.mp hmem).elim (h.operators fn args) (h'.operators fn args)
  otherwise := fun hmem => (List.mem_append.mp hmem).elim h.otherwise h'.otherwise
  literals := fun v hmem => (List.mem_append.mp hmem).elim (h.literals v) (h'.literals v)

theorem namedIn_const {v : CondVal} (ts : List String) (h : v.isElse = false) :
    NamedIn ts [.const v] where
  operators := by simp
  otherwise := by simp
  literals := by
    intro w hmem
    rw [Tree.const.inj (List.mem_singleton.mp hmem), h]

/-- No literal is the else token. -/
theorem parse_literal_not_else {v : CondVal} (h : _parse_literal tok = some v) :
    v.isElse = false := by
  unfold _parse_literal at h
  split at h
  · rw [← Option.some.inj h]
    rfl
  split at h
  · rw [← Option.some.inj h]
    rfl
  split at h
  · rw [← Option.some.inj h]
    rfl
  simp only at h
  split at h
  · split at h
    · rw [← Option.some.inj h]
      rfl
    split at h
    · obtain ⟨x, -, rfl⟩ := Option.map_eq_some_iff.mp h
      rfl
    · obtain ⟨n, -, rfl⟩ := Option.map_eq_some_iff.mp h
      rfl
  · cases h

mutual

/-- The parts of a condition stand in its tokens. -/
theorem Reads.named : ∀ {ts : List String} {t : Tree}, Reads ts t → NamedIn ts t.steps
  | _, _, .group h => h.named.mono fun t ht => by simp [ht]
  | _, _, .predicate hfn h => by
    rw [Tree.steps]
    exact (h.named.mono fun t ht => by simp [ht]).append ⟨by simp, by simp, by simp⟩
  | _, _, .operator hfn h => by
    rw [Tree.steps]
    refine (h.named.mono fun t ht => by simp [ht]).append ⟨?_, by simp, by simp⟩
    intro fn args hmem
    obtain ⟨rfl, -⟩ := Tree.bool.inj (List.mem_singleton.mp hmem)
    exact List.mem_cons_self
  | _, _, .otherwise => ⟨by simp [Tree.steps], by simp, by simp [Tree.steps]⟩
  | _, _, .literal h => namedIn_const _ (parse_literal_not_else h)
  | _, _, .compare hpath hvalue hop hrhs =>
    ⟨by simp [Tree.steps], by simp [Tree.steps], by simp [Tree.steps]⟩

theorem ReadsArgs.named :
    ∀ {keyed first : Bool} {ts : List String} {args : List Tree}, ReadsArgs keyed first ts args →
    NamedIn ts (stepsOf args)
  | _, _, _, _, .done _ _ => ⟨by simp [stepsOf], by simp [stepsOf], by simp [stepsOf]⟩
  | _, _, _, _, .bare h more => by
    rw [stepsOf]
    exact (namedIn_const _ rfl).append (more.named.mono fun t ht => by simp [ht])
  | _, _, _, _, .here h hkey more => by
    rw [stepsOf]
    exact (h.named.mono fun t ht => by simp [ht]).append (more.named.mono fun t ht => by simp [ht])
  | _, _, _, _, .comma h more => by
    rw [stepsOf]
    exact (h.named.mono fun t ht => by simp [ht]).append (more.named.mono fun t ht => by simp [ht])

end

mutual

/-- The parts of a part are parts. -/
theorem Tree.steps_of_mem {s u : Tree} (hu : u ∈ s.steps) : ∀ {t : Tree}, s ∈ t.steps → u ∈ t.steps
  | .const v, hs | .els, hs | .compare path op rhs, hs => by
    rw [Tree.steps] at hs
    obtain rfl := List.mem_singleton.mp hs
    exact hu
  | .call fn args, hs | .bool fn args, hs => by
    rw [Tree.steps] at hs
    obtain hs | hs := List.mem_append.mp hs
    · exact List.mem_append_left _ (stepsOf_of_mem hu hs)
    · obtain rfl := List.mem_singleton.mp hs
      exact hu

/-- The parts of a part. -/
theorem stepsOf_of_mem {s u : Tree} (hu : u ∈ s.steps) :
    ∀ {ts : List Tree}, s ∈ stepsOf ts → u ∈ stepsOf ts
  | t :: ts, hs => by
    rw [stepsOf] at hs ⊢
    obtain hs | hs := List.mem_append.mp hs
    · exact List.mem_append_left _ (Tree.steps_of_mem hu hs)
    · exact List.mem_append_right _ (stepsOf_of_mem hu hs)

end

end steps

end taurus.engine.executor
