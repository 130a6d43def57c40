import Taurus.Engine.Executor.Graphs
import Taurus.Engine.Executor.Readback
import Taurus.Engine.Executor.Condition
import Taurus.Engine.Runner.Passes

namespace taurus.engine.executor

open taurus.lib taurus.python

/-- The conditions that name the source of their edge by `__from__`. -/
inductive Shorthand where
  | predicate (p : StatusPredicate)
  | status (st : Status)

namespace Shorthand

/-- What stands before the key. -/
def head : Shorthand → String
  | predicate p => p.token
  | status _ => "status"

/-- What stands behind the key. -/
def tail : Shorthand → List Char
  | predicate _ => [')']
  | status st => ", '".toList ++ (status_name st).text.toList ++ "')".toList

/-- `success(__from__)` and the like, or `status(__from__, 'S')`. -/
def text (s : Shorthand) : String := String.ofList (s.head.toList ++ "(__from__".toList ++ s.tail)

/-- The status asked for. -/
def asks : Shorthand → Status
  | predicate p => p.status
  | status st => st

end Shorthand

section escaping

/-- A quote becomes a backslash and a quote. -/
def escape (key : List Char) : List Char :=
  key.flatMap fun c => if c = '\'' then ['\\', '\''] else [c]

theorem escape_append (xs ys : List Char) : escape (xs ++ ys) = escape xs ++ escape ys :=
  List.flatMap_append

theorem escape_cons {c : Char} (h : c ≠ '\'') (key : List Char) :
    escape (c :: key) = c :: escape key := by
  rw [escape, List.flatMap_cons, if_neg h]
  rfl

/-- A key without a quote is its own escape. -/
theorem escape_of_plain {key : List Char} (h : '\'' ∉ key) : escape key = key := by
  induction key with
  | nil => rfl
  | cons c key ih =>
    rw [List.mem_cons, not_or] at h
    rw [escape_cons (Ne.symm h.1), ih h.2]

theorem length_le_escape (key : List Char) : key.length ≤ (escape key).length := by
  induction key with
  | nil => exact le_rfl
  | cons c key ih =>
    by_cases hc : c = '\''
    · subst hc
      simp only [escape, List.flatMap_cons, if_true, List.length_append, List.length_cons] at ih ⊢
      omega
    · rw [escape_cons hc, List.length_cons, List.length_cons]
      omega

theorem replace_char (a : Char) (new s : List Char) :
    replace [a] new s = s.flatMap fun c => if c = a then new else [c] := by
  unfold replace
  induction s with
  | nil => rfl
  | cons c s ih =>
    rw [replaceFrom, List.flatMap_cons, startswith, afterPrefix, afterPrefix]
    by_cases hc : a = c
    · subst hc
      rw [if_pos rfl, if_pos rfl, Option.isSome_some, if_pos rfl, List.length_singleton, ih]
    · rw [if_neg hc, if_neg (Ne.symm hc), Option.isSome_none, if_neg Bool.false_ne_true, ih]
      rfl

/-- A cut through an escaped text is one of the text, or right behind a backslash. -/
theorem escape_split {key xs ys : List Char} (h : escape key = xs ++ ys) :
    (∃ before after, key = before ++ after ∧ xs = escape before ∧ ys = escape after) ∨
      xs.getLast? = some '\\' := by
  induction key generalizing xs with
  | nil =>
    obtain ⟨rfl, rfl⟩ := List.append_eq_nil_iff.mp h.symm
    exact Or.inl ⟨[], [], rfl, rfl, rfl⟩
  | cons c key ih =>
    cases xs with
    | nil => exact Or.inl ⟨[], c :: key, rfl, rfl, h.symm⟩
    | cons x xs =>
      by_cases hc : c = '\''
      · subst hc
        have hcons : '\\' :: '\'' :: escape key = x :: (xs ++ ys) := h
        obtain ⟨rfl, htail⟩ := List.cons.inj hcons
        cases xs with
        | nil => exact Or.inr rfl
        | cons x' xs =>
          obtain ⟨rfl, hkey⟩ := List.cons.inj htail
          obtain ⟨before, after, rfl, rfl, rfl⟩ | hlast := ih hkey
          · exact Or.inl ⟨'\'' :: before, after, rfl, rfl, rfl⟩
          · refine Or.inr ?_
            rw [List.getLast?_cons_cons, List.getLast?_cons, hlast]
            rfl
      · have hcons : c :: escape key = x :: (xs ++ ys) := by
          rw [← escape_cons hc, h, List.cons_append]
        obtain ⟨rfl, hkey⟩ := List.cons.inj hcons
        obtain ⟨before, after, rfl, rfl, rfl⟩ | hlast := ih hkey
        · exact Or.inl ⟨c :: before, after, rfl, (escape_cons hc before).symm, rfl⟩
        · refine Or.inr ?_
          rw [List.getLast?_cons, hlast]
          rfl

end escaping

section tokens

/-- No quote and no backslash. -/
def Plain (c : Char) : Prop := c ≠ '\'' ∧ c ≠ '\\'

theorem plain_of_isIdentChar {c : Char} (h : isIdentChar c = true) : Plain c := by
  constructor <;> rintro rfl <;> exact absurd h (by decide)

theorem plain_of_isdecimal {c : Char} (h : isdecimal c = true) : Plain c := by
  constructor <;> rintro rfl <;> exact absurd h (by decide)

/-- A span splits its text in two. -/
theorem span_split {p : Char → Bool} {cs body rest : List Char} (h : cs.span p = (body, rest)) :
    cs = body ++ rest ∧ ∀ c ∈ body, p c = true := by
  rw [List.span_eq_takeWhile_dropWhile] at h
  obtain ⟨rfl, rfl⟩ := Prod.mk.inj h
  exact ⟨List.takeWhile_append_dropWhile.symm, List.all_eq_true.mp List.all_takeWhile⟩

theorem untilQuote_split {q : Char} {cs body rest : List Char}
    (h : untilQuote q cs = some (body, rest)) :
    cs = body ++ q :: rest := by
  induction cs generalizing body with
  | nil => cases h
  | cons c cs ih =>
    rw [untilQuote] at h
    split_ifs at h with hc
    · obtain ⟨rfl, rfl⟩ := Prod.mk.inj (Option.some.inj h)
      rw [hc]
      rfl
    · obtain ⟨⟨body', rest'⟩, hbody, heq⟩ := Option.map_eq_some_iff.mp h
      obtain ⟨rfl, rfl⟩ := Prod.mk.inj heq
      rw [ih hbody]
      rfl

/-- The digits of a number behind its sign. -/
def signed (sign body : List Char) : Option (List Char × List Char) :=
  let (whole, rest) := body.span isdecimal
  if whole.isEmpty then none
  else match rest with
    | '.' :: rest' =>
      let (frac, rest'') := rest'.span isdecimal
      if frac.isEmpty then some (sign ++ whole, rest)
      else some (sign ++ whole ++ ('.' :: frac), rest'')
    | _ => some (sign ++ whole, rest)

theorem numberToken_signed (cs : List Char) :
    numberToken cs = signed [] cs ∨
      ∃ body, cs = '-' :: body ∧ numberToken cs = signed ['-'] body := by
  unfold numberToken
  split
  rename_i sign body hsign
  split at hsign
  · obtain ⟨rfl, rfl⟩ := Prod.mk.inj hsign
    exact Or.inr ⟨_, rfl, rfl⟩
  · obtain ⟨rfl, rfl⟩ := Prod.mk.inj hsign
    exact Or.inl rfl

/-- A signed number splits its text, and its characters are plain. -/
theorem signed_split {sign body tok rest : List Char} (hsign : ∀ c ∈ sign, Plain c)
    (h : signed sign body = some (tok, rest)) :
    sign ++ body = tok ++ rest ∧ tok ≠ [] ∧ ∀ c ∈ tok, Plain c := by
  unfold signed at h
  cases hwhole : body.span isdecimal with
  | mk whole after =>
    obtain ⟨rfl, hdigits⟩ := span_split hwhole
    simp only [hwhole] at h
    split_ifs at h with hempty
    have hne : whole ≠ [] := by simpa using hempty
    have hplain : ∀ c ∈ sign ++ whole, Plain c := by
      intro c hc
      obtain hc | hc := List.mem_append.mp hc
      · exact hsign c hc
      · exact plain_of_isdecimal (hdigits c hc)
    split at h
    · rename_i fraction
      cases hfrac : fraction.span isdecimal with
      | mk frac last =>
        obtain ⟨rfl, hfracs⟩ := span_split hfrac
        simp only [hfrac] at h
        split_ifs at h with hnofrac
        · obtain ⟨rfl, rfl⟩ := Prod.mk.inj (Option.some.inj h)
          exact ⟨by simp, by simp [hne], hplain⟩
        · obtain ⟨rfl, rfl⟩ := Prod.mk.inj (Option.some.inj h)
          refine ⟨by simp, by simp [hne], fun c hc => ?_⟩
          obtain hc | hc := List.mem_append.mp hc
          · exact hplain c hc
          · obtain rfl | hc := List.mem_cons.mp hc
            · constructor <;> decide
            · exact plain_of_isdecimal (hfracs c hc)
    · obtain ⟨rfl, rfl⟩ := Prod.mk.inj (Option.some.inj h)
      exact ⟨by simp, by simp [hne], hplain⟩

/-- A number is a part of the text without quotes. -/
theorem numberToken_split {cs tok rest : List Char} (h : numberToken cs = some (tok, rest)) :
    cs = tok ++ rest ∧ tok ≠ [] ∧ ∀ c ∈ tok, Plain c := by
  obtain heq | ⟨body, rfl, heq⟩ := numberToken_signed cs
  · rw [heq] at h
    simpa using signed_split (by simp) h
  · rw [heq] at h
    exact signed_split (by simp [Plain]) h

/-- A token is a part of the text: between quotes, or without quotes and backslashes. -/
theorem tokenAt_split {cs tok rest : List Char} (h : tokenAt cs = some (tok, rest)) :
    cs = tok ++ rest ∧ ((∃ body, tok = '\'' :: (body ++ ['\''])) ∨
      (∃ body, tok = '"' :: (body ++ ['"'])) ∨
      (tok ≠ [] ∧ ∀ c ∈ tok, Plain c)) := by
  unfold tokenAt at h
  split at h
  · cases h
  · obtain ⟨⟨body, after⟩, hbody, heq⟩ := Option.map_eq_some_iff.mp h
    obtain ⟨rfl, rfl⟩ := Prod.mk.inj heq
    exact ⟨by rw [untilQuote_split hbody]; simp, Or.inl ⟨body, rfl⟩⟩
  · obtain ⟨⟨body, after⟩, hbody, heq⟩ := Option.map_eq_some_iff.mp h
    obtain ⟨rfl, rfl⟩ := Prod.mk.inj heq
    exact ⟨by rw [untilQuote_split hbody]; simp, Or.inr (Or.inl ⟨body, rfl⟩)⟩
  case h_13 =>
    rename_i c cs _ _ _ _ _ _ _ _ _ _ _
    split_ifs at h with hident
    · cases hword : cs.span isIdentChar with
      | mk body after =>
        obtain ⟨rfl, hchars⟩ := span_split hword
        simp only [hword] at h
        obtain ⟨rfl, rfl⟩ := Prod.mk.inj (Option.some.inj h)
        refine ⟨rfl, Or.inr (Or.inr ⟨by simp, fun d hd => ?_⟩)⟩
        obtain rfl | hd := List.mem_cons.mp hd
        · exact plain_of_isIdentChar
            (by simp [isIdentChar, isIdentStart, Char.isAlphanum] at hident ⊢; tauto)
        · exact plain_of_isIdentChar (hchars d hd)
    · obtain ⟨hcs, hne, hplain⟩ := numberToken_split h
      exact ⟨hcs, Or.inr (Or.inr ⟨hne, hplain⟩)⟩
  -- the marks
  all_goals
    obtain ⟨rfl, rfl⟩ := Prod.mk.inj (Option.some.inj h)
    exact ⟨rfl, Or.inr (Or.inr ⟨by simp, by simp [Plain]⟩)⟩

/-- A token at the front of an escaped key ends within the key. -/
theorem tokenAt_escaped {tail : List Char} (hdouble : '"' ∉ tail) {c : Char}
    {key tok rest : List Char}
    (h : tokenAt (escape (c :: key) ++ '\'' :: tail) = some (tok, rest)) :
    ∃ before after, c :: key = before ++ after ∧ before ≠ [] ∧
      rest = escape after ++ '\'' :: tail := by
  obtain ⟨htext, hform⟩ := tokenAt_split h
  have hfirst : ∀ text, escape (c :: key) ++ '\'' :: tail ≠ '\'' :: text := by
    intro text heq
    by_cases hc : c = '\''
    · subst hc
      cases heq
    · rw [escape_cons hc, List.cons_append] at heq
      exact hc (List.cons.inj heq).1
  have hform : (∃ body, tok = '"' :: (body ++ ['"'])) ∨ (tok ≠ [] ∧ ∀ c ∈ tok, Plain c) := by
    obtain ⟨body, rfl⟩ | hform := hform
    · exact absurd htext (hfirst _)
    · exact hform
  have hne : tok ≠ [] := by
    obtain ⟨body, rfl⟩ | ⟨hne, _⟩ := hform
    · exact List.cons_ne_nil _ _
    · exact hne
  have hlast : tok.getLast? ≠ some '\\' := by
    intro hlast
    obtain ⟨body, rfl⟩ | ⟨_, hplain⟩ := hform
    · rw [← List.cons_append, List.getLast?_concat] at hlast
      exact absurd (Option.some.inj hlast) (by decide)
    · exact (hplain _ (List.mem_of_getLast? hlast)).2 rfl
  obtain ⟨more, rfl, hmore⟩ | ⟨more, hkey, rfl⟩ := List.append_eq_append_iff.mp htext
  · cases more with
    | nil => exact ⟨c :: key, [], (List.append_nil _).symm, List.cons_ne_nil _ _, hmore.symm⟩
    | cons d more =>
      obtain ⟨rfl, rfl⟩ := List.cons.inj hmore
      obtain ⟨body, hbody⟩ | ⟨_, hplain⟩ := hform
      · -- the closing quote would have to stand in the tail
        have hquote := congrArg List.getLast? hbody
        rw [← List.cons_append, List.getLast?_concat,
          List.getLast?_append_of_ne_nil _ (List.cons_ne_nil _ _)] at hquote
        obtain heq | hmem := List.mem_cons.mp (List.mem_of_getLast? hquote)
        · exact absurd heq (by decide)
        · exact absurd (List.mem_append_left rest hmem) hdouble
      · exact absurd rfl (hplain '\'' (List.mem_append_right _ List.mem_cons_self)).1
  · obtain ⟨before, after, hsplit, rfl, rfl⟩ | hbackslash := escape_split hkey
    · refine ⟨before, after, hsplit, ?_, rfl⟩
      rintro rfl
      exact hne rfl
    · exact absurd hbackslash hlast

/-- An escaped key that is not closed cannot be tokenized: its quotes stand behind backslashes,
which no token starts with, and the quote behind the key opens a text that does not end. -/
theorem tokenizeLoop_escaped {tail : List Char} (hdouble : '"' ∉ tail)
    (hopen : ∀ fuel, tail.length < fuel → ∃ m, tokenizeLoop fuel ('\'' :: tail) = .error m)
    (key : List Char) (fuel : Nat) (hfuel : (escape key ++ '\'' :: tail).length ≤ fuel) :
    ∃ m, tokenizeLoop fuel (escape key ++ '\'' :: tail) = .error m := by
  induction hlength : key.length using Nat.strong_induction_on generalizing key fuel with
  | _ length ih =>
    subst hlength
    cases key with
    | nil =>
      apply hopen
      rw [escape, List.flatMap_nil, List.nil_append, List.length_cons] at hfuel
      omega
    | cons c key =>
      obtain ⟨fuel, rfl⟩ : ∃ more, fuel = more + 1 := by
        refine ⟨fuel - 1, ?_⟩
        simp only [List.length_append, List.length_cons] at hfuel
        omega
      by_cases hspace : isspace c = true
      · have hc : c ≠ '\'' := by
          rintro rfl
          exact absurd hspace (by decide)
        rw [escape_cons hc, List.cons_append] at hfuel ⊢
        rw [tokenizeLoop, if_pos hspace]
        exact ih key.length (by simp) key fuel (by simpa using hfuel) rfl
      · obtain ⟨d, text, htext, hd⟩ : ∃ d text, escape (c :: key) ++ '\'' :: tail = d :: text ∧
            isspace d = false := by
          by_cases hc : c = '\''
          · subst hc
            exact ⟨'\\', '\'' :: (escape key ++ '\'' :: tail), rfl, by decide⟩
          · exact ⟨c, escape key ++ '\'' :: tail,
              by rw [escape_cons hc, List.cons_append], by simpa using hspace⟩
        rw [htext, tokenizeLoop, hd, if_neg Bool.false_ne_true]
        cases htok : tokenAt (d :: text) with
        | none => exact ⟨_, rfl⟩
        | some found =>
          obtain ⟨tok, rest⟩ := found
          rw [← htext] at htok
          obtain ⟨before, after, hsplit, hne, rfl⟩ := tokenAt_escaped hdouble htok
          have hpos := List.length_pos_of_ne_nil hne
          have hlonger := length_le_escape before
          rw [hsplit, escape_append] at hfuel
          simp only [List.length_append, List.length_cons] at hfuel
          obtain ⟨m, hm⟩ := ih after.length (by rw [hsplit, List.length_append]; omega) after fuel
            (by simp only [List.length_append, List.length_cons]; omega) rfl
          exact ⟨m, by simp only [hm, bind, Except.bind]⟩

end tokens

section evaluation

theorem strip_of_ends {cs : List Char} (hfirst : ∀ c ∈ cs.head?, isspace c = false)
    (hlast : ∀ c ∈ cs.getLast?, isspace c = false) : strip cs = cs := by
  have hkept : ∀ xs : List Char, (∀ c ∈ xs.head?, isspace c = false) →
      xs.dropWhile isspace = xs := by
    intro xs hxs
    cases xs with
    | nil => rfl
    | cons c xs => rw [List.dropWhile_cons, if_neg (by simp [hxs c rfl])]
  rw [strip, hkept cs hfirst, hkept cs.reverse (by rwa [List.head?_reverse]), List.reverse_reverse]

/-- The text around a key. -/
def Shorthand.around (s : Shorthand) (key : List Char) : List Char :=
  s.head.toList ++ '(' :: '\'' :: key ++ '\'' :: s.tail

namespace Shorthand

/-- The key takes the place of `__from__`. -/
theorem expanded (s : Shorthand) {key : String} (h : key ≠ "") :
    expand_from key s.text = String.ofList (s.around (escape key.toList)) := by
  have htext : isInfix "__from__".toList s.text.toList = true := by
    rw [text, String.toList_ofList]
    cases s with
    | predicate p => cases p <;> decide +kernel
    | status st => cases st <;> decide +kernel
  have hreplace : ∀ new : List Char, replace "__from__".toList new s.text.toList =
      s.head.toList ++ '(' :: new ++ s.tail := by
    intro new
    rw [text, String.toList_ofList]
    cases s with
    | predicate p => cases p <;> rfl
    | status st => cases st <;> rfl
  rw [expand_from, if_pos ⟨h, htext⟩]
  simp only [hreplace, replace_char]
  simp [around, escape]

/-- The function is a word. -/
theorem isToken_head (s : Shorthand) : IsToken s.head := by
  cases s with
  | predicate p =>
    cases p with
    | success => exact @isToken_word "success" 's' "uccess".toList rfl (by decide) (by decide)
    | failed => exact @isToken_word "failed" 'f' "ailed".toList rfl (by decide) (by decide)
    | skipped => exact @isToken_word "skipped" 's' "kipped".toList rfl (by decide) (by decide)
    | cancelled => exact @isToken_word "cancelled" 'c' "ancelled".toList rfl (by decide) (by decide)
  | status st => exact @isToken_word "status" 's' "tatus".toList rfl (by decide) (by decide)

/-- Nothing is stripped from a shorthand. -/
theorem strip_around (s : Shorthand) (key : List Char) : strip (s.around key) = s.around key := by
  obtain ⟨c, cs, hhead, hc⟩ := s.isToken_head.head
  obtain ⟨ds, htail⟩ : ∃ cs, s.tail = cs ++ [')'] := by
    cases s with
    | predicate p => exact ⟨[], rfl⟩
    | status st => exact ⟨", '".toList ++ (status_name st).text.toList ++ ['\''], by simp [tail]⟩
  apply strip_of_ends
  · intro d hd
    rw [around, hhead] at hd
    obtain rfl := Option.some.inj hd
    exact hc
  · intro d hd
    have hlast : s.around key = s.head.toList ++ '(' :: '\'' :: key ++ '\'' :: ds ++ [')'] := by
      simp [around, htail]
    rw [hlast, List.getLast?_concat] at hd
    obtain rfl := Option.some.inj hd
    decide

/-- The function and the opening parenthesis are two tokens. -/
theorem tokenizeLoop_head (s : Shorthand) (fuel : Nat) (rest : List Char) :
    tokenizeLoop (fuel + 2) (s.head.toList ++ '(' :: rest) =
      (tokenizeLoop fuel rest).map fun ts => s.head :: "(" :: ts := by
  have hfollows : Follows s.head ('(' :: rest) := fits_of_mark s.head (u := "(") (by decide)
  have hafter : Follows "(" rest := by
    have hfits := fits_after_mark (t := "(") (by decide) (String.ofList rest)
    rwa [Fits, String.toList_ofList] at hfits
  have hmark : tokenizeLoop (fuel + 1) ("(".toList ++ rest) =
      (tokenizeLoop fuel rest).map ("(" :: ·) :=
    tokenizeLoop_token (isToken_mark (by decide)) hafter fuel
  rw [tokenizeLoop_token s.isToken_head hfollows]
  have hparen : '(' :: rest = "(".toList ++ rest := rfl
  rw [hparen, hmark]
  cases tokenizeLoop fuel rest <;> rfl

/-- A quoted text is one token. -/
theorem tokenizeLoop_quoted {key : List Char} (h : '\'' ∉ key) (fuel : Nat) (rest : List Char) :
    tokenizeLoop (fuel + 1) ('\'' :: key ++ '\'' :: rest) =
      (tokenizeLoop fuel rest).map (String.ofList ('\'' :: (key ++ ['\''])) :: ·) := by
  have htoken : tokenAt ('\'' :: (key ++ '\'' :: rest)) = some ('\'' :: (key ++ ['\'']), rest) := by
    rw [tokenAt, untilQuote_body h]
    rfl
  rw [List.cons_append, tokenizeLoop, if_neg (by decide), htoken]
  rfl

/-- The tail opens a text that does not end. -/
theorem tail_open (s : Shorthand) (fuel : Nat) (h : s.tail.length < fuel) :
    ∃ m, tokenizeLoop fuel ('\'' :: s.tail) = .error m := by
  cases s with
  | predicate p =>
    obtain ⟨fuel, rfl⟩ : ∃ more, fuel = more + 1 := ⟨fuel - 1, by omega⟩
    exact ⟨_, rfl⟩
  | status st =>
    obtain ⟨fuel, rfl⟩ : ∃ more, fuel = more + 3 := by
      refine ⟨fuel - 3, ?_⟩
      simp only [tail, List.length_append] at h
      have : 2 ≤ (", '".toList).length := by decide
      have : 2 ≤ ("')".toList).length := by decide
      omega
    cases st <;> exact ⟨_, rfl⟩

theorem no_double (s : Shorthand) : '"' ∉ s.tail := by
  cases s with
  | predicate p => simp [tail]
  | status st => cases st <;> decide +kernel

/-- The tokens behind the key. -/
def tail_tokens : Shorthand → List String
  | predicate _ => [")"]
  | status st => [",", (status_name st).token .single, ")"]

/-- The tokens after the key. -/
theorem tokenizeLoop_tail (s : Shorthand) {fuel : Nat} (h : s.tail.length ≤ fuel) :
    tokenizeLoop fuel s.tail = .ok s.tail_tokens := by
  cases s with
  | predicate p =>
    obtain ⟨fuel, rfl⟩ : ∃ more, fuel = more + 1 :=
      ⟨fuel - 1, by simp only [tail, List.length_singleton] at h; omega⟩
    cases fuel <;> rfl
  | status st =>
    obtain ⟨fuel, rfl⟩ : ∃ more, fuel = more + 5 := by
      refine ⟨fuel - 5, ?_⟩
      have hlength : 5 ≤ (status st).tail.length := by cases st <;> decide +kernel
      omega
    cases st <;> rfl

/-- A key without a quote is the only argument, or the first of two. -/
theorem tokenize_of_plain (s : Shorthand) {key : List Char} (h : '\'' ∉ key) :
    _tokenize (s.around key) =
      .ok (s.head :: "(" :: String.ofList ('\'' :: (key ++ ['\''])) :: s.tail_tokens) := by
  have haround : s.around key = s.head.toList ++ '(' :: ('\'' :: key ++ '\'' :: s.tail) := by
    simp [around]
  obtain ⟨fuel, hfuel, hle⟩ : ∃ fuel, (s.around key).length = fuel + 1 + 2 ∧
      s.tail.length ≤ fuel := by
    refine ⟨(s.around key).length - 3, ?_, ?_⟩ <;>
    · simp only [haround, List.length_append, List.length_cons]
      omega
  rw [_tokenize, hfuel, haround, tokenizeLoop_head, tokenizeLoop_quoted h, tokenizeLoop_tail s hle]
  rfl

/-- A key with a quote makes a text that is no condition. -/
theorem tokenize_of_quote (s : Shorthand) {key : List Char} (h : '\'' ∈ key) :
    ∃ m, _tokenize (s.around (escape key)) = .error m := by
  obtain ⟨before, after, rfl, hbefore⟩ := List.eq_append_cons_of_mem h
  have hplain : '\'' ∉ before ++ ['\\'] := by simpa using hbefore
  have haround : s.around (escape (before ++ '\'' :: after)) =
      s.head.toList ++ '(' :: ('\'' :: (before ++ ['\\']) ++
      '\'' :: (escape after ++ '\'' :: s.tail)) := by
    have hafter : escape ('\'' :: after) = '\\' :: '\'' :: escape after := rfl
    rw [escape_append, escape_of_plain hbefore, hafter]
    simp [around]
  obtain ⟨fuel, hfuel, hle⟩ :
      ∃ fuel, (s.around (escape (before ++ '\'' :: after))).length = fuel + 1 + 2 ∧
      (escape after ++ '\'' :: s.tail).length ≤ fuel := by
    refine ⟨(s.around (escape (before ++ '\'' :: after))).length - 3, ?_, ?_⟩ <;>
    · simp only [haround, List.length_append, List.length_cons]
      omega
  obtain ⟨m, hm⟩ := tokenizeLoop_escaped s.no_double s.tail_open after fuel hle
  rw [_tokenize, hfuel, haround, tokenizeLoop_head, tokenizeLoop_quoted hplain, hm]
  exact ⟨m, rfl⟩

variable (ctx : EdgeCtx)

/-- The arguments of the call. -/
def arguments (s : Shorthand) (key : List Char) : List CondVal :=
  .val (.str (String.ofList key)) :: match s with
    | predicate _ => []
    | status st => [.val (.str (status_name st).text)]

/-- The key is read as a text. -/
theorem callArgs_key (fn : String) {key : List Char} {q : String}
    (hq : q.toList = '\'' :: (key ++ ['\''])) (fuel n : Nat) (rest : List String) :
    callArgs (_eval_atom ctx (fuel + 1)) fn (n + 1) true [] (q :: rest) =
      callArgs (_eval_atom ctx (fuel + 1)) fn n false [.val (.str (String.ofList key))] rest := by
  have hne : ∀ s : String, s.toList.head? ≠ some '\'' → q ≠ s := by
    rintro s hs rfl
    simp [hq] at hs
  have hbare : isBareKey q = false := by simp [isBareKey, hq, isIdentStart]
  rw [callArgs]
  · simp [hne ")" (by decide), hne "," (by decide), hbare, quoted_atom ctx fuel hq,
      bind, Except.bind]
  · exact fun heq => absurd heq (hne ")" (by decide))

/-- A second argument is read behind its comma. -/
theorem callArgs_name (fn : String) {name : List Char} {q : String}
    (hq : q.toList = '\'' :: (name ++ ['\''])) (a : CondVal) (fuel n : Nat) :
    callArgs (_eval_atom ctx (fuel + 1)) fn (n + 2) false [a] [",", q, ")"] =
      .ok ([a, .val (.str (String.ofList name))], []) := by
  have hne : ∀ s : String, s.toList.head? ≠ some '\'' → q ≠ s := by
    rintro s hs rfl
    simp [hq] at hs
  rw [callArgs]
  · simp [hne ")" (by decide), quoted_atom ctx fuel hq, bind, Except.bind, callArgs]
  · simp

/-- The arguments that these tokens give. -/
theorem callArgs_tail (s : Shorthand) (key : List Char) (fuel n : Nat) :
    callArgs (_eval_atom ctx (fuel + 1)) s.head (n + 3) true []
      (String.ofList ('\'' :: (key ++ ['\''])) :: s.tail_tokens) = .ok (s.arguments key, []) := by
  rw [callArgs_key ctx s.head String.toList_ofList]
  cases s with
  | predicate p => rfl
  | status st =>
    have hname : ((status_name st).token .single).toList =
        '\'' :: ((status_name st).text.toList ++ ['\'']) :=
      String.toList_ofList
    rw [tail_tokens, callArgs_name ctx _ hname, String.ofList_toList]
    rfl

/-- What the call answers for them. -/
theorem statusCall_arguments (s : Shorthand) (key : List Char) :
    statusCall s.head (s.arguments key) ctx =
      .ok (.bool (Dict.get? ctx.node_statuses (String.ofList key) == some s.asks)) := by
  cases s with
  | predicate p => cases p <;> rfl
  | status st => cases st <;> rfl

theorem around_nonempty (s : Shorthand) (key : List Char) :
    (s.around key).isEmpty = false ∧ s.around key ≠ "__else__".toList := by
  have hmem : '(' ∈ s.around key := by simp [around]
  constructor
  · rw [List.isEmpty_eq_false_iff]
    exact List.ne_nil_of_mem hmem
  · intro heq
    rw [heq] at hmem
    exact absurd hmem (by decide)

/-- A shorthand asks for the status of its key. -/
theorem eval_atom_tokens (s : Shorthand) (key : List Char) (fuel : Nat) :
    _eval_atom ctx (fuel + 2)
      (s.head :: "(" :: String.ofList ('\'' :: (key ++ ['\''])) :: s.tail_tokens) =
      .ok (.bool (Dict.get? ctx.node_statuses (String.ofList key) == some s.asks), []) := by
  have hparen : s.head ≠ "(" := by
    cases s with
    | predicate p => cases p <;> decide
    | status st => exact (by decide : "status" ≠ "(")
  have hfn : ["success", "failed", "skipped", "cancelled", "status"].contains s.head = true := by
    cases s with
    | predicate p => cases p <;> decide
    | status st =>
      exact (by decide : ["success", "failed", "skipped", "cancelled",
        "status"].contains "status" = true)
  obtain ⟨n, hn⟩ : ∃ n, s.tail_tokens.length = n + 1 := by
    cases s with
    | predicate p => exact ⟨0, rfl⟩
    | status st => exact ⟨2, rfl⟩
  rw [_eval_atom, if_neg hparen, if_pos ⟨hfn, rfl⟩]
  simp only [List.length_cons, hn, List.tail_cons, s.callArgs_tail ctx key fuel n,
    bind, Except.bind, s.statusCall_arguments ctx key]

/-- The condition asks for the status of the source, as long as its key has no quote. -/
theorem evaluate_expanded (s : Shorthand) {key : String} (h : key ≠ "") :
    (∃ m, evaluate_edge_condition (expand_from key s.text) ctx = .error m ∧ '\'' ∈ key.toList) ∨
      evaluate_edge_condition (expand_from key s.text) ctx =
        .ok (.bool (Dict.get? ctx.node_statuses key == some s.asks)) ∧ '\'' ∉ key.toList := by
  obtain ⟨hsome, helse⟩ := s.around_nonempty (escape key.toList)
  rw [s.expanded h, evaluate_edge_condition, String.toList_ofList, s.strip_around, hsome]
  simp only [helse, Bool.false_eq_true, if_false]
  by_cases hquote : '\'' ∈ key.toList
  · obtain ⟨m, hm⟩ := s.tokenize_of_quote hquote
    exact Or.inl ⟨m, by simp only [hm, bind, Except.bind], hquote⟩
  · refine Or.inr ⟨?_, hquote⟩
    rw [escape_of_plain hquote, s.tokenize_of_plain hquote]
    simp only [bind, Except.bind, List.isEmpty_cons, Bool.false_eq_true, if_false, List.length_cons,
      s.eval_atom_tokens ctx key.toList, String.ofList_toList, List.isEmpty_nil, if_true]

variable {ctx}

/-- An edge with a shorthand out of a terminal source is true when the source has the status and
its key no quote. -/
theorem fires_iff {status_of : String → Option Status} {strategy : String → Option String}
    {edges : List Edge} {e : Edge} {s : Shorthand} (he : e.condition = s.text)
    (hkey : e.from_key ≠ "") (hterm : (status_of e.from_key).any (·.terminal) = true) :
    edge_bool status_of (edge_raw status_of strategy ctx) edges e = true ↔
      '\'' ∉ e.from_key.toList ∧ Dict.get? ctx.node_statuses e.from_key = some s.asks := by
  obtain ⟨st, hst, hst'⟩ := (Option.any_eq_true _ _).mp hterm
  have hblank : e.blank = false := by
    rw [Edge.blank, he, s.expanded hkey, String.toList_ofList, s.strip_around]
    exact (s.around_nonempty _).1
  have hraw : edge_raw status_of strategy ctx e = edge_value ctx e := by
    rw [edge_raw_terminal hst hst', hblank, if_neg Bool.false_ne_true]
  rw [edge_bool, hraw, edge_value, he]
  obtain ⟨m, hm, hquote⟩ | ⟨hvalue, hplain⟩ := s.evaluate_expanded ctx hkey
  · simp [hm, hquote, CondVal.bool, CondVal.truthy, Json.truthy]
  · simp [hvalue, hplain, CondVal.bool, CondVal.truthy, Json.truthy]

end Shorthand

end evaluation

/-- On any nodes, edges, rows and context, an edge with the shorthand whose source is terminal is
true if and only if the source has the status, exactly when the key of the source has no single
quote or the source does not have the status; and so it is in the skip pass. -/
theorem shorthand_names_source_iff (s : Shorthand) (e : Edge) (he : e.condition = s.text)
    (hkey : e.from_key ≠ "") (ctx : EdgeCtx) :
    (∀ (nodes : List Node) (edges : List Edge) (rows_of : String → List NodeExec)
      (exec_fs : String), let views := node_views nodes rows_of exec_fs
      (view_status views e.from_key).any (·.terminal) = true →
        ((graph_edge_bool views edges ctx e = true ↔
        state_status views ctx e.from_key = some s.asks) ↔
          '\'' ∉ e.from_key.toList ∨ state_status views ctx e.from_key ≠ some s.asks)) ∧
    ∀ (dag : Dag) (rows : List NodeExec) (exec_fs : String),
      (Dict.get? ctx.node_statuses e.from_key).any (·.terminal) = true →
        ((runner.skip_fires dag rows ctx exec_fs e = true ↔
        Dict.get? ctx.node_statuses e.from_key = some s.asks) ↔
          '\'' ∉ e.from_key.toList ∨ Dict.get? ctx.node_statuses e.from_key ≠ some s.asks) := by
  constructor
  · intro nodes edges rows_of exec_fs views hterm
    rw [graph_edge_bool, graph_edge_raw, Shorthand.fires_iff he hkey hterm, get?_merged]
    tauto
  · intro dag rows exec_fs hterm
    rw [runner.skip_fires, Shorthand.fires_iff he hkey hterm]
    tauto

/-- A start node and the shorthand on the edge out of it. -/
def started (key : String) : List Node := [{ node_key := key, node_type := "start" }]

def after_start (key : String) : Edge where
  from_key := key
  to_key := "deploy"
  condition := "success(__from__)"

/-- Nothing is known yet. -/
def untold : EdgeCtx where
  workflow := []
  trigger := []
  node_statuses := []
  node_outputs := []

/-- A dash in the key does no harm. -/
theorem dashed_key_named :
    graph_edge_bool (node_views (started "begin-1") (fun _ => []) "fail_fast")
      [after_start "begin-1"] untold
        (after_start "begin-1") = true ↔
      state_status (node_views (started "begin-1") (fun _ => []) "fail_fast") untold "begin-1" =
        some .SUCCESS :=
  ((shorthand_names_source_iff (.predicate .success) (after_start "begin-1") rfl
    (by decide) untold).1
    (started "begin-1") [after_start "begin-1"] (fun _ => []) "fail_fast" (by decide)).mpr
      (Or.inl (by decide))

/-- The edge out of a successful node with an apostrophe in its key is false. -/
theorem apostrophe_not_named :
    ¬ (graph_edge_bool (node_views (started "don't") (fun _ => []) "fail_fast")
      [after_start "don't"] untold
        (after_start "don't") = true ↔
      state_status (node_views (started "don't") (fun _ => []) "fail_fast") untold "don't" =
        some .SUCCESS) := by
  have hquote : '\'' ∈ "don't".toList := by decide
  have hstatus : state_status
      (node_views (started "don't") (fun _ => []) "fail_fast") untold "don't" = some .SUCCESS := by
    decide
  intro h
  have hfires := h.mpr hstatus
  rw [graph_edge_bool, graph_edge_raw,
    Shorthand.fires_iff (s := .predicate .success) rfl (by decide) (by decide)] at hfires
  exact hfires.1 hquote

end taurus.engine.executor
