import Taurus.Engine.Executor.Grammar
import Taurus.Engine.Executor.Printing

namespace taurus.engine.executor

open taurus.lib taurus.python

mutual

/-- What is read from a written condition. -/
def Cond.tree : Cond → Tree
  | .literal l => .const (.val l.value)
  | .predicate p key => .call p.token [.const (.val (.str key.text))]
  | .status key st _ =>
    .call "status" [.const (.val (.str key.text)), .const (.val (.str (status_name st).text))]
  | .compare path op l => .compare path.token op.token (.val l.value)
  | .not c => .bool "NOT" [c.tree]
  | .all cs => .bool "AND" (treesOf cs)
  | .any cs => .bool "OR" (treesOf cs)
  | .paren c => c.tree
  | .otherwise => .els

def treesOf : List Cond → List Tree
  | [] => []
  | c :: cs => c.tree :: treesOf cs

end

section split

theorem not_mem_of_isStepChar {sep : Char} {w : List Char} (hsep : isStepChar sep = false)
    (h : ∀ c ∈ w, isStepChar c = true) : sep ∉ w := by
  intro hmem
  rw [h sep hmem] at hsep
  cases hsep

/-- The steps of a path are read back. -/
theorem splitOn_dotted {w : List Char} (h : '.' ∉ w) (steps : List Step) :
    splitOn '.' (w ++ dotted steps) = w :: steps.map fun s => s.text.toList := by
  induction steps generalizing w with
  | nil => rw [dotted, List.flatMap_nil, List.append_nil, List.map_nil, splitOn_none h]
  | cons s steps ih =>
    have hstep : '.' ∉ s.text.toList := not_mem_of_isStepChar (by decide) s.step
    have hrest := ih hstep
    rw [dotted, List.flatMap_cons, List.cons_append, splitOn_append h]
    rw [dotted] at hrest
    rw [hrest, List.map_cons]

end split

section literals

/-- Digits are read back. -/
theorem digitsNat?_digits (ds : Digits) : digitsNat? ds.chars = some ds.value := by
  have hunderscore : '_' ∉ ds.chars := fun hmem => absurd (ds.digits '_' hmem) (by decide)
  have hall : ds.chars.all isdecimal = true := List.all_eq_true.mpr ds.digits
  have hsome : ds.chars.isEmpty = false := by simpa using ds.nonempty
  simp [digitsNat?, splitOn_none hunderscore, hall, hsome, Digits.value]

theorem int?_digits (negative : Bool) (ds : Digits) (hshort : ds.chars.length ≤ max_str_digits) :
    int? (if negative then '-' :: ds.chars else ds.chars) =
      some (if negative then -(ds.value : Int) else ds.value) := by
  have hspace : ∀ c ∈ ds.chars, isspace c = false :=
    fun c hc => isspace_of_isdecimal (ds.digits c hc)
  have hdigits : ds.chars.countP isdecimal ≤ max_str_digits := (List.countP_le_length).trans hshort
  unfold int? short_int?
  cases negative with
  | true =>
    simp only [if_true]
    rw [List.countP_cons_of_neg (by decide), if_pos hdigits,
      strip_number_of_forall (List.forall_mem_cons.mpr ⟨by decide, hspace⟩), signed?,
      digitsNat?_digits]
    rfl
  | false =>
    have hsign : ∀ c ∈ ['-', '+'], ∀ rest, ds.chars ≠ c :: rest := by
      intro c hc rest heq
      have hdigit := ds.digits c (by simp [heq])
      rw [(by decide : ∀ c ∈ ['-', '+'], isdecimal c = false) c hc] at hdigit
      cases hdigit
    simp only [Bool.false_eq_true, if_false]
    rw [if_pos hdigits, strip_number_of_forall hspace, signed?, digitsNat?_digits]
    · rfl
    · exact hsign '-' (by simp)
    · exact hsign '+' (by simp)

/-- A number that starts with no digit is none. -/
theorem digitsNat?_none {c : Char} {cs : List Char} (h : isdecimal c = false) :
    digitsNat? (c :: cs) = none := by
  have hgroup : ∃ g gs, splitOn '_' (c :: cs) = g :: gs ∧ (g = [] ∨ ∃ w, g = c :: w) := by
    rw [splitOn]
    split_ifs
    · exact ⟨[], _, rfl, .inl rfl⟩
    · cases splitOn '_' cs with
      | nil => exact ⟨[c], [], rfl, .inr ⟨[], rfl⟩⟩
      | cons w ws => exact ⟨c :: w, ws, rfl, .inr ⟨w, rfl⟩⟩
  obtain ⟨g, gs, hsplit, hg⟩ := hgroup
  have hbad : (!g.isEmpty && g.all isdecimal) = false := by
    obtain rfl | ⟨w, rfl⟩ := hg
    · rfl
    · simp [h]
  simp [digitsNat?, hsplit, hbad]

section names

variable {c : Char} {cs : List Char}

/-- What is drawn around a name stays, as a name has no white space. -/
theorem strip_number_name (hplain : ∀ d ∈ c :: cs, isIdentChar d = true) :
    strip_number (c :: cs) = c :: cs :=
  strip_number_of_forall fun d hd => isspace_false_of_isIdentChar (hplain d hd)

theorem sign_ne (hc : isIdentStart c = true) : c ≠ '-' ∧ c ≠ '+' := by
  constructor
  · rintro rfl
    exact absurd hc (by decide)
  · rintro rfl
    exact absurd hc (by decide)

theorem isdecimal_of_isIdentStart (hc : isIdentStart c = true) : isdecimal c = false := by
  by_contra hdigit
  have hstart := isIdentStart_of_isdecimal (c := c) (by simpa using hdigit)
  rw [hc] at hstart
  cases hstart

/-- A name is no integer. -/
theorem int?_name (hc : isIdentStart c = true) (hplain : ∀ d ∈ c :: cs, isIdentChar d = true) :
    int? (c :: cs) = none := by
  have hnone := @digitsNat?_none c cs (isdecimal_of_isIdentStart hc)
  unfold int? short_int?
  split_ifs
  · rw [strip_number_name hplain, signed?, hnone]
    · rfl
    · rintro ds ⟨⟩
      exact (sign_ne hc).1 rfl
    · rintro ds ⟨⟩
      exact (sign_ne hc).2 rfl
  · rfl

theorem splitOn_head {sep : Char} (hc : c ≠ sep) (cs : List Char) :
    ∃ w ws, splitOn sep (c :: cs) = (c :: w) :: ws := by
  rw [splitOn, if_neg hc]
  cases splitOn sep cs with
  | nil => exact ⟨[], [], rfl⟩
  | cons w ws => exact ⟨w, ws, rfl⟩

/-- What begins with no digit is no number. -/
theorem mantissa?_none (hdigit : isdecimal c = false) (hdot : c ≠ '.') :
    mantissa? (c :: cs) = none := by
  obtain ⟨w, ws, hwords⟩ := splitOn_head hdot cs
  unfold mantissa?
  rw [hwords]
  rcases ws with _ | ⟨frac, _ | ⟨third, more⟩⟩ <;> simp [digitsNat?_none hdigit]

theorem decimal?_none (hdigit : isdecimal c = false) (hdot : c ≠ '.') :
    decimal? (c :: cs) = none := by
  have hwords : ∃ w ws, splitOn 'e' (c :: cs) = w :: ws ∧ mantissa? w = none := by
    by_cases he : c = 'e'
    · subst he
      exact ⟨[], splitOn 'e' cs, if_pos rfl, by decide⟩
    · obtain ⟨w, ws, hwords⟩ := splitOn_head he cs
      exact ⟨c :: w, ws, hwords, mantissa?_none hdigit hdot⟩
  obtain ⟨w, ws, hwords, hnone⟩ := hwords
  unfold decimal?
  rw [hwords]
  rcases ws with _ | ⟨e, _ | ⟨third, more⟩⟩ <;> simp [hnone]

/-- The small letter of a name's first character is no digit, no dot and no sign either. -/
theorem toLower_name (hc : isIdentStart c = true) :
    isdecimal c.toLower = false ∧ c.toLower ≠ '.' := by
  have hall : ∀ n < 123, isIdentStart (Char.ofNat n) = true →
      isdecimal (Char.ofNat n).toLower = false ∧ (Char.ofNat n).toLower ≠ '.' := by
    decide +kernel
  have hident : isIdentChar c = true := by
    simp only [isIdentStart, isIdentChar, Bool.or_eq_true, Char.isAlphanum] at hc ⊢
    obtain hc | hc := hc
    · exact .inl (.inl (.inl hc))
    · exact .inl (.inr hc)
  have hsmall : c.toNat < 123 := by
    have := isIdentChar_range hident
    omega
  have hsame := hall c.toNat hsmall
  rw [Char.ofNat_toNat] at hsame
  exact hsame hc

/-- A name with a dot is no float. -/
theorem float?_name (hc : isIdentStart c = true) (hplain : ∀ d ∈ c :: cs, isIdentChar d = true)
    (hdot : '.' ∈ c :: cs) :
    float? (c :: cs) = none := by
  have hlower : '.' ∈ (c :: cs).map Char.toLower := List.mem_map.mpr ⟨'.', hdot, by decide⟩
  have hword : ∀ word ∈ ["inf".toList, "infinity".toList, "nan".toList],
    (c :: cs).map Char.toLower ≠ word := by
    intro word hmem heq
    rw [heq] at hlower
    exact (by decide : ∀ word ∈ ["inf".toList, "infinity".toList,
      "nan".toList], '.' ∉ word) word hmem hlower
  have hnone : unsigned? (c :: cs) = none := by
    unfold unsigned?
    dsimp only
    rw [if_neg fun h => h.elim (hword _ (by simp)) (hword _ (by simp)), if_neg (hword _ (by simp)),
      List.map_cons, decimal?_none (toLower_name hc).1 (toLower_name hc).2]
    rfl
  unfold float?
  rw [strip_number_name hplain]
  split
  · next heq => exact absurd (List.cons.inj heq).1 (sign_ne hc).1
  · next heq => exact absurd (List.cons.inj heq).1 (sign_ne hc).2
  · exact hnone

end names

/-- The spellings of the constants. -/
def constants : List String := ["true", "True", "false", "False", "null", "None"]

theorem _parse_literal_of_not_constant {tok : String} (h : tok ∉ constants) {q l : Char}
    {body : List Char} (htok : tok.toList = q :: body) (hlast : (q :: body).getLast? = some l) :
    _parse_literal tok =
      if (q = '\'' ∨ q = '"') ∧ l = q ∧
        body ≠ [] then some (.val (.str (String.ofList body.dropLast)))
      else if '.' ∈ q :: body then (float? (q :: body)).map .float
      else (int? (q :: body)).map fun n => .val (.int n) := by
  simp only [constants, List.mem_cons, List.not_mem_nil, or_false, not_or] at h
  unfold _parse_literal
  simp only [h, or_self, if_false, htok, hlast]

/-- The first character tells a token from a constant. -/
theorem not_constant {tok : String} {c : Char} {cs : List Char} (htok : tok.toList = c :: cs)
    (hc : c ∉ ['t', 'T', 'f', 'F', 'n', 'N']) : tok ∉ constants := by
  intro hmem
  have hhead : ∀ t ∈ constants, ∃ d ∈ t.toList.head?, d ∈ ['t', 'T', 'f', 'F', 'n', 'N'] := by
    decide
  obtain ⟨d, hd, hstart⟩ := hhead tok hmem
  rw [htok] at hd
  obtain rfl := Option.some.inj hd
  exact hc hstart

/-- A quoted text is read back. -/
theorem parse_quoted_token (s : Quotable) (q : Quote) :
    _parse_literal (s.token q) = some (.val (.str s.text)) := by
  have htok : (s.token q).toList = q.char :: (s.text.toList ++ [q.char]) := String.toList_ofList
  have hlast : (q.char :: (s.text.toList ++ [q.char])).getLast? = some q.char := by
    rw [← List.cons_append, List.getLast?_concat]
  have hquote : q.char = '\'' ∨ q.char = '"' := by cases q <;> simp [Quote.char]
  have hconstant : s.token q ∉ constants := not_constant htok (by cases q <;> decide)
  rw [_parse_literal_of_not_constant hconstant htok hlast, if_pos ⟨hquote, rfl, by simp⟩,
    List.dropLast_concat, String.ofList_toList]

/-- A run of digits is read as an integer, if it is not too long for one. -/
theorem parse_digits (negative : Bool) (ds : Digits) :
    _parse_literal (String.ofList (if negative then '-' :: ds.chars else ds.chars)) =
      (int? (if negative then '-' :: ds.chars else ds.chars)).map fun n => .val (.int n) := by
  have hchars : ∀ c ∈ (if negative then '-' :: ds.chars else ds.chars),
    isdecimal c = true ∨ c = '-' := by
    intro c hc
    cases negative with
    | true => exact (List.mem_cons.mp hc).symm.imp_left (ds.digits c)
    | false => exact .inl (ds.digits c hc)
  have hne : (if negative then '-' :: ds.chars else ds.chars) ≠ [] := by
    cases negative with
    | true => simp
    | false => exact ds.nonempty
  obtain ⟨c, cs, heq⟩ := List.exists_cons_of_ne_nil hne
  rw [heq] at hchars ⊢
  have hfirst := hchars c List.mem_cons_self
  have hnot : ∀ d ∈ ['t', 'T', 'f', 'F', 'n', 'N', '\'', '"', '.'],
    ¬(isdecimal d = true ∨ d = '-') := by decide
  obtain ⟨l, hlast⟩ : ∃ l, (c :: cs).getLast? = some l :=
    ⟨_, List.getLast?_eq_some_getLast (by simp)⟩
  have hconstant : String.ofList (c :: cs) ∉ constants := by
    apply not_constant String.toList_ofList
    intro hmem
    exact hnot c (List.mem_append_left ['\'', '"', '.'] hmem) hfirst
  have hquote : ¬((c = '\'' ∨ c = '"') ∧ l = c ∧ cs ≠ []) := by
    rintro ⟨hc, -⟩
    exact hnot c (by rcases hc with rfl | rfl <;> decide) hfirst
  have hdot : '.' ∉ c :: cs := fun hmem => hnot '.' (by decide) (hchars '.' hmem)
  rw [_parse_literal_of_not_constant hconstant String.toList_ofList hlast,
    if_neg hquote, if_neg hdot]

theorem parse_literal_token (l : Literal) : _parse_literal l.token = some (.val l.value) := by
  cases l with
  | bool b capital => cases b <;> cases capital <;> rfl
  | null capital => cases capital <;> rfl
  | str s q => exact parse_quoted_token s q
  | int negative ds short =>
    rw [Literal.token, parse_digits, int?_digits negative ds short]
    rfl

end literals

section paths

/-- The words of a path. -/
def Path.words : Path → List String
  | .workflow steps => "workflow" :: steps.map Step.text
  | .trigger steps => "trigger" :: steps.map Step.text
  | .status node => [node.text, "status"]
  | .output node steps => node.text :: "output" :: steps.map Step.text

theorem NodeName.no_dot (n : NodeName) : '.' ∉ n.chars := by
  intro hmem
  obtain heq | hmem := List.mem_cons.mp hmem
  · exact absurd n.start (by rw [← heq]; decide)
  · exact absurd (n.step '.' hmem) (by decide)

theorem NodeName.not_root (n : NodeName) : n.text ≠ "workflow" ∧ n.text ≠ "trigger" := by
  have hchars : ∀ word, n.text = word → n.chars = word.toList := by
    rintro word rfl
    exact String.toList_ofList.symm
  exact ⟨fun heq => n.not_workflow (hchars _ heq), fun heq => n.not_trigger (hchars _ heq)⟩

theorem splitOn_path (p : Path) : splitOn '.' p.chars = p.words.map String.toList := by
  have hmap : ∀ steps : List Step, (steps.map fun s => s.text.toList) =
      (steps.map Step.text).map String.toList := by
    intro steps
    rw [List.map_map]
    rfl
  cases p with
  | workflow steps =>
    have hdot : '.' ∉ "workflow".toList := by decide
    have hsplit := splitOn_dotted hdot steps
    rw [hmap] at hsplit
    exact hsplit
  | trigger steps =>
    have hdot : '.' ∉ "trigger".toList := by decide
    have hsplit := splitOn_dotted hdot steps
    rw [hmap] at hsplit
    exact hsplit
  | status node =>
    have hsplit := splitOn_append node.no_dot "status".toList
    have hstatus : splitOn '.' "status".toList = ["status".toList] := splitOn_none (by decide)
    rw [hstatus] at hsplit
    simp only [Path.words, List.map_cons, List.map_nil, NodeName.text, String.toList_ofList]
    exact hsplit
  | output node steps =>
    have hsplit := splitOn_append node.no_dot ("output".toList ++ dotted steps)
    have hdot : '.' ∉ "output".toList := by decide
    rw [splitOn_dotted hdot, hmap] at hsplit
    simp only [Path.words, List.map_cons, NodeName.text, String.toList_ofList]
    exact hsplit

theorem words_path (p : Path) : (splitOn '.' p.token.toList).map String.ofList = p.words := by
  rw [Path.token, String.toList_ofList, splitOn_path, List.map_map]
  simp [Function.comp_def]

/-- A path is no word without a dot, but for the roots. -/
theorem path_ne_word (p : Path) {word : String} (hdot : '.' ∉ word.toList)
    (hroot : word ≠ "workflow" ∧ word ≠ "trigger") :
    p.token ≠ word := by
  rintro rfl
  have hwords := words_path p
  rw [splitOn_none hdot, List.map_singleton, String.ofList_toList] at hwords
  cases p with
  | workflow steps => exact hroot.1 (List.cons.inj hwords).1
  | trigger steps => exact hroot.2 (List.cons.inj hwords).1
  | status node => exact absurd (List.cons.inj hwords).2 (by simp)
  | output node steps => exact absurd (List.cons.inj hwords).2 (by simp)

/-- A path is no literal. -/
theorem parse_literal_path (p : Path) : _parse_literal p.token = none := by
  obtain ⟨c, cs, hchars, hc, hcs⟩ := p.chars_eq
  have htok : p.token.toList = c :: cs := String.toList_ofList.trans hchars
  have hplain : ∀ d ∈ c :: cs, isIdentChar d = true := by
    refine List.forall_mem_cons.mpr ⟨?_, hcs⟩
    simp only [isIdentStart, isIdentChar, Bool.or_eq_true, Char.isAlphanum] at hc ⊢
    obtain hc | hc := hc
    · exact .inl (.inl (.inl hc))
    · exact .inl (.inr hc)
  obtain ⟨l, hlast⟩ : ∃ l, (c :: cs).getLast? = some l :=
    ⟨_, List.getLast?_eq_some_getLast (by simp)⟩
  have hconstant : p.token ∉ constants := by
    have hall : ∀ t ∈ constants, '.' ∉ t.toList ∧ t ≠ "workflow" ∧ t ≠ "trigger" := by decide
    intro hmem
    exact path_ne_word p (hall _ hmem).1 (hall _ hmem).2 rfl
  have hquote : ¬((c = '\'' ∨ c = '"') ∧ l = c ∧ cs ≠ []) := by
    rintro ⟨rfl | rfl, -⟩
    · exact absurd hc (by decide)
    · exact absurd hc (by decide)
  rw [_parse_literal_of_not_constant hconstant htok hlast, if_neg hquote]
  split_ifs with hdot
  · rw [float?_name hc hplain hdot]
    rfl
  · rw [int?_name hc hplain]
    rfl

end paths

section reading

/-- The first character tells a token from the reserved ones. -/
theorem not_reserved_of_head {tok : String} {c : Char} {cs : List Char}
    (htok : tok.toList = c :: cs) (hc : isdecimal c = true ∨ c ∈ ['-', '\'', '"']) :
    tok ∉ reserved := by
  intro hmem
  have hhead : ∀ t ∈ reserved, ∃ d ∈ t.toList.head?,
    ¬(isdecimal d = true ∨ d ∈ ['-', '\'', '"']) := by decide
  obtain ⟨d, hd, hnot⟩ := hhead tok hmem
  rw [htok] at hd
  obtain rfl := Option.some.inj hd
  exact hnot hc

theorem number_not_reserved (negative : Bool) (ds : Digits) :
    String.ofList (if negative then '-' :: ds.chars else ds.chars) ∉ reserved := by
  obtain ⟨d, ds', hdigits⟩ := List.exists_cons_of_ne_nil ds.nonempty
  cases negative with
  | true => exact not_reserved_of_head String.toList_ofList (.inr (by decide))
  | false =>
    rw [if_neg (by decide), hdigits]
    exact not_reserved_of_head String.toList_ofList (.inl (ds.digits d (by simp [hdigits])))

/-- A path is no mark. -/
theorem path_not_mark (p : Path) : p.token ∉ marks := by
  have hall : ∀ t ∈ marks, '.' ∉ t.toList ∧ t ≠ "workflow" ∧ t ≠ "trigger" := by decide
  intro hmem
  exact path_ne_word p (hall _ hmem).1 (hall _ hmem).2 rfl

/-- A node key between quotes is no bare one. -/
theorem quoted_not_bare (s : Quotable) (q : Quote) : isBareKey (s.token q) = false := by
  have htok : (s.token q).toList = q.char :: (s.text.toList ++ [q.char]) := String.toList_ofList
  unfold isBareKey
  rw [htok]
  cases q <;> simp [Quote.char, isIdentStart]

/-- The key of a predicate is read as a text, bare or quoted. -/
theorem Key.reads (k : Key) {us : List String} {args : List Tree}
    (h : ReadsArgs true false us args) :
    ReadsArgs true true (k.token :: us) (.const (.val (.str k.text)) :: args) := by
  cases k with
  | bare name hname => exact .bare hname h
  | quoted s q =>
    have hbare : ∀ tok ∈ [s.token q].head?, isBareKey tok = false := by
      intro tok htok
      obtain rfl := Option.some.inj htok
      exact quoted_not_bare s q
    exact .here (.literal (parse_quoted_token s q)) (fun _ => hbare) h

mutual

/-- What a condition is written with is a condition of the grammar. -/
theorem Cond.reads : ∀ c : Cond, Reads c.tokens c.tree
  | .literal l => .literal (parse_literal_token l)
  | .predicate p key => by
    have hargs := key.reads (.done true false)
    exact .predicate (by cases p <;> decide) hargs
  | .status key st q => by
    have hname : Reads [(status_name st).token q] (.const (.val (.str (status_name st).text))) :=
      .literal (parse_quoted_token (status_name st) q)
    have hargs := key.reads (.comma hname (.done true false))
    exact .predicate (by decide) hargs
  | .compare path op l =>
    .compare (path_not_mark path) (parse_literal_path path) (by cases op <;> decide)
      (parse_literal_token l)
  | .not c => by
    have harg : ReadsArgs false true (c.tokens ++ []) [c.tree] :=
      .here c.reads (by simp) (.done false false)
    rw [List.append_nil] at harg
    exact .operator (by decide) harg
  | .all cs => .operator (by decide) (reads_args true cs)
  | .any cs => .operator (by decide) (reads_args true cs)
  | .paren c => .group c.reads
  | .otherwise => .otherwise

/-- Written arguments are arguments of the grammar. -/
theorem reads_args (first : Bool) :
    ∀ cs : List Cond, ReadsArgs false first (argTokens first cs) (treesOf cs)
  | [] => .done false first
  | c :: cs => by
    cases first with
    | true => exact .here c.reads (by simp) (reads_args false cs)
    | false => exact .comma c.reads (reads_args false cs)

end

/-- A text that spells a condition is read as the condition. -/
theorem readCondition_spelled {c : Cond} {text : String} (h : Spells c.tokens text.toList) :
    readCondition text = .ok c.tree := by
  have hspelled := h.strip c.isToken
  have htokens : _tokenize (strip text.toList) = .ok c.tokens :=
    hspelled.tokenizeLoop c.isToken c.fits le_rfl
  have hread := c.reads.read [] le_rfl
  rw [List.append_nil] at hread
  obtain ⟨t, ts, hsome, -⟩ := c.reads.head
  unfold readCondition
  simp only
  split_ifs with hblank helse
  · rw [List.isEmpty_iff.mp hblank] at htokens
    have hnone := Except.ok.inj htokens
    rw [hsome] at hnone
    cases hnone
  · -- the else token may also be taken before the tokenizer
    rw [helse] at htokens
    have htoken : c.tokens = ["__else__"] := (Except.ok.inj htokens).symm
    rw [htoken] at hread
    have htree : Tree.els = c.tree := congrArg Prod.fst (Except.ok.inj hread)
    rw [htree]
  · rw [htokens]
    simp only [hread]
    rw [hsome]
    rfl

end reading

end taurus.engine.executor
