import Mathlib.Data.List.Chain
import Mathlib.Data.List.TakeDrop
import Mathlib.Data.List.TakeWhile
import Taurus.Engine.Executor.Parse

namespace taurus.engine.executor

open taurus.lib taurus.python

/-- A property of characters is decided over the text, also where `Char` is a `Fintype`. -/
instance decidableForallText {cs : List Char} {p : Char → Prop} [DecidablePred p] :
    Decidable (∀ c ∈ cs, p c) :=
  List.decidableBAll p cs

instance decidableForallChar {o : Option Char} {p : Char → Prop} [DecidablePred p] :
    Decidable (∀ c ∈ o, p c) :=
  Option.decidableForallMem o

instance decidableExistsChar {o : Option Char} {p : Char → Prop} [DecidablePred p] :
    Decidable (∃ c ∈ o, p c) :=
  Option.decidableExistsMem o

/-- A text that can stand between quotes. -/
structure Quotable where
  text : String
  single : '\'' ∉ text.toList
  double : '"' ∉ text.toList

/-- A run of decimal digits. -/
structure Digits where
  chars : List Char
  nonempty : chars ≠ []
  digits : ∀ c ∈ chars, isdecimal c = true

def Digits.value (ds : Digits) : Nat := ds.chars.foldl (fun n c => 10 * n + (digit? c).getD 0) 0

/-- The quotes around a text. -/
inductive Quote where
  | single
  | double

def Quote.char : Quote → Char
  | .single => '\''
  | .double => '"'

def Quotable.token (s : Quotable) (q : Quote) : String :=
  String.ofList (q.char :: (s.text.toList ++ [q.char]))

/-- A literal; the constants have a second, capitalized spelling, and an integer has no more
digits than `int` reads. -/
inductive Literal where
  | bool (b capital : Bool)
  | null (capital : Bool)
  | int (negative : Bool) (ds : Digits) (short : ds.chars.length ≤ max_str_digits)
  | str (s : Quotable) (q : Quote)

namespace Literal

def token : Literal → String
  | .bool true capital => if capital then "True" else "true"
  | .bool false capital => if capital then "False" else "false"
  | .null capital => if capital then "None" else "null"
  | .int negative ds _ => String.ofList (if negative then '-' :: ds.chars else ds.chars)
  | .str s q => s.token q

def value : Literal → Json
  | .bool b _ => .bool b
  | .null _ => .null
  | .int negative ds _ => .int (if negative then -ds.value else ds.value)
  | .str s _ => .str s.text

end Literal

/-- The key of a node: a bare name, or between quotes. -/
inductive Key where
  | bare (name : String) (h : isBareKey name = true)
  | quoted (k : Quotable) (q : Quote)

namespace Key

def token : Key → String
  | .bare name _ => name
  | .quoted k q => k.token q

def text : Key → String
  | .bare name _ => name
  | .quoted k _ => k.text

end Key

/-- A character of a path that is no dot. -/
def isStepChar (c : Char) : Bool := c.isAlphanum || c == '_'

/-- A part of a path after its first. -/
structure Step where
  text : String
  step : ∀ c ∈ text.toList, isStepChar c = true

/-- The node a path starts with. -/
structure NodeName where
  first : Char
  rest : List Char
  start : isIdentStart first = true
  step : ∀ c ∈ rest, isStepChar c = true
  not_workflow : first :: rest ≠ "workflow".toList
  not_trigger : first :: rest ≠ "trigger".toList

def NodeName.chars (n : NodeName) : List Char := n.first :: n.rest

def NodeName.text (n : NodeName) : String := String.ofList n.chars

/-- What a comparison looks at. -/
inductive Path where
  | workflow (steps : List Step)
  | trigger (steps : List Step)
  | status (node : NodeName)
  | output (node : NodeName) (steps : List Step)

/-- The steps of a path, each behind a dot. -/
def dotted (steps : List Step) : List Char := steps.flatMap fun s => '.' :: s.text.toList

def Path.chars : Path → List Char
  | .workflow steps => "workflow".toList ++ dotted steps
  | .trigger steps => "trigger".toList ++ dotted steps
  | .status node => node.chars ++ ".status".toList
  | .output node steps => node.chars ++ (".output".toList ++ dotted steps)

def Path.token (p : Path) : String := String.ofList p.chars

inductive Op where
  | eq
  | ne
  | lt
  | gt
  | le
  | ge

def Op.token : Op → String
  | .eq => "=="
  | .ne => "!="
  | .lt => "<"
  | .gt => ">"
  | .le => "<="
  | .ge => ">="

/-- The predicates of one argument. -/
inductive StatusPredicate where
  | success
  | failed
  | skipped
  | cancelled

namespace StatusPredicate

def token : StatusPredicate → String
  | .success => "success"
  | .failed => "failed"
  | .skipped => "skipped"
  | .cancelled => "cancelled"

def status : StatusPredicate → Status
  | .success => .SUCCESS
  | .failed => .FAILED
  | .skipped => .SKIPPED
  | .cancelled => .CANCELLED

end StatusPredicate

/-- The name of a status as `status` takes it. -/
def status_name : Status → Quotable
  | .PENDING => ⟨"PENDING", by decide, by decide⟩
  | .RUNNING => ⟨"RUNNING", by decide, by decide⟩
  | .SUCCESS => ⟨"SUCCESS", by decide, by decide⟩
  | .FAILED => ⟨"FAILED", by decide, by decide⟩
  | .SKIPPED => ⟨"SKIPPED", by decide, by decide⟩
  | .CANCELLED => ⟨"CANCELLED", by decide, by decide⟩

/-- A condition as it is written. -/
inductive Cond where
  | literal (l : Literal)
  | predicate (p : StatusPredicate) (key : Key)
  | status (key : Key) (st : Status) (q : Quote)
  | compare (path : Path) (op : Op) (l : Literal)
  | not (c : Cond)
  | all (cs : List Cond)
  | any (cs : List Cond)
  | paren (c : Cond)
  | otherwise

mutual

/-- The tokens of a condition. -/
def Cond.tokens : Cond → List String
  | .literal l => [l.token]
  | .predicate p key => [p.token, "(", key.token, ")"]
  | .status key st q => ["status", "(", key.token, ",", (status_name st).token q, ")"]
  | .compare path op l => [path.token, op.token, l.token]
  | .not c => "NOT" :: "(" :: (c.tokens ++ [")"])
  | .all cs => "AND" :: "(" :: (argTokens true cs ++ [")"])
  | .any cs => "OR" :: "(" :: (argTokens true cs ++ [")"])
  | .paren c => "(" :: (c.tokens ++ [")"])
  | .otherwise => ["__else__"]

/-- The tokens of arguments, with a comma before each but the first. -/
def argTokens (first : Bool) : List Cond → List String
  | [] => []
  | c :: cs => (if first then [] else [","]) ++ c.tokens ++ argTokens false cs

end

/-- The text spells the tokens, with any white space around them. -/
inductive Spells : List String → List Char → Prop
  | done {ws : List Char} (h : ∀ c ∈ ws, isspace c = true) : Spells [] ws
  | token {ws : List Char} {t : String} {ts : List String} {cs : List Char}
      (h : ∀ c ∈ ws, isspace c = true)
      (rest : Spells ts cs) : Spells (t :: ts) (ws ++ (t.toList ++ cs))

section lexing

/-- A character that a word or a number goes on over. -/
def isWordChar (c : Char) : Bool := isIdentChar c || isdecimal c

/-- What may follow a token directly: a word or a number goes on over letters and
digits, an angle over `=`. -/
def Follows (t : String) (next : List Char) : Prop :=
  ((∃ c ∈ t.toList.head?, isWordChar c = true ∨ c = '-') → ∀ c ∈ next.head?, isWordChar c = false) ∧
    (t = "<" ∨ t = ">" → ∀ c ∈ next.head?, c ≠ '=')

/-- A text the tokenizer reads as one token. -/
structure IsToken (t : String) : Prop where
  head : ∃ c cs, t.toList = c :: cs ∧ isspace c = false
  last : ∀ c ∈ t.toList.getLast?, isspace c = false
  lexes : ∀ next, Follows t next → tokenAt (t.toList ++ next) = some (t.toList, next)

/-- A run of characters ends where the next is another. -/
theorem span_append {p : Char → Bool} {body next : List Char} (hbody : ∀ c ∈ body, p c = true)
    (hnext : ∀ c ∈ next.head?, p c = false) : (body ++ next).span p = (body, next) := by
  rw [List.span_eq_takeWhile_dropWhile, List.takeWhile_append_of_pos hbody,
    List.dropWhile_append_of_pos hbody]
  cases next with
  | nil => simp
  | cons c cs =>
    have hc := hnext c rfl
    simp [hc]

theorem isIdentChar_range {c : Char} (h : isIdentChar c = true) :
    (48 ≤ c.toNat ∧ c.toNat ≤ 122) ∨ c.toNat = 46 := by
  delta isIdentChar Char.isAlphanum Char.isAlpha Char.isUpper Char.isLower at h
  simp only [Char.isDigit, Bool.or_eq_true,
    Bool.and_eq_true, decide_eq_true_eq, beq_iff_eq, UInt32.le_iff_toNat_le, ge_iff_le] at h
  have htoNat : c.toNat = c.val.toNat := rfl
  have hdigit : ('0'.val.toNat, '9'.val.toNat) = (48, 57) := rfl
  have hupper : ('A'.val.toNat, 'Z'.val.toNat) = (65, 90) := rfl
  have hlower : ('a'.val.toNat, 'z'.val.toNat) = (97, 122) := rfl
  simp only [Prod.mk.injEq] at hdigit hupper hlower
  obtain (((h | h) | h) | rfl) | rfl := h
  · omega
  · omega
  · omega
  · decide
  · decide

theorem isspace_false_of_isIdentChar {c : Char} (h : isIdentChar c = true) : isspace c = false := by
  have hrange := isIdentChar_range h
  simp only [isspace, Bool.or_eq_false_iff, Bool.and_eq_false_iff, decide_eq_false_iff_not,
    beq_eq_false_iff_ne]
  omega

theorem isspace_false_of_isWordChar {c : Char} (h : isWordChar c = true) : isspace c = false := by
  obtain h | h := Bool.or_eq_true_iff.mp h
  · exact isspace_false_of_isIdentChar h
  · exact isspace_of_isdecimal h

/-- A character that starts no quote, mark or operator. -/
theorem tokenAt_plain {c : Char} {cs : List Char}
    (h : c ∉ ['\'', '"', '(', ')', ',', '=', '!', '<', '>']) :
    tokenAt (c :: cs) =
      if isIdentStart c then some (c :: (cs.span isIdentChar).1, (cs.span isIdentChar).2)
      else numberToken (c :: cs) := by
  simp only [List.mem_cons, List.not_mem_nil, or_false, not_or] at h
  obtain ⟨h₁, h₂, h₃, h₄, h₅, h₆, h₇, h₈, h₉⟩ := h
  rw [tokenAt]
  all_goals intros
  all_goals contradiction

/-- A word of the tokenizer. -/
theorem isToken_word {t : String} {c : Char} {cs : List Char} (ht : t.toList = c :: cs)
    (hc : isIdentStart c = true) (hcs : ∀ d ∈ cs, isIdentChar d = true) : IsToken t := by
  have hstart : isIdentChar c = true := by
    simp only [isIdentStart, isIdentChar, Bool.or_eq_true, Char.isAlphanum] at hc ⊢
    obtain hc | hc := hc
    · exact .inl (.inl (.inl hc))
    · exact .inl (.inr hc)
  have hchars : ∀ d ∈ c :: cs, isIdentChar d = true := by
    intro d hd
    obtain rfl | hd := List.mem_cons.mp hd
    · exact hstart
    · exact hcs d hd
  refine ⟨⟨c, cs, ht, isspace_false_of_isIdentChar hstart⟩, ?_, ?_⟩
  · intro d hd
    rw [ht] at hd
    exact isspace_false_of_isIdentChar (hchars d (List.mem_of_mem_getLast? hd))
  · intro next hnext
    have hword := hnext.1 ⟨c, by simp [ht], .inl (by rw [isWordChar, hstart, Bool.true_or])⟩
    have hspan := span_append hcs fun d hd => (Bool.or_eq_false_iff.mp (hword d hd)).1
    rw [ht]
    have hplain : c ∉ ['\'', '"', '(', ')', ',', '=', '!', '<', '>'] := by
      intro hmem
      have hall :=
        (by decide : ∀ d ∈ ['\'', '"', '(', ')', ',', '=', '!', '<',
          '>'], isIdentStart d = false) c hmem
      rw [hc] at hall
      cases hall
    rw [List.cons_append, tokenAt_plain hplain, if_pos hc, hspan]

theorem isIdentStart_of_isDigit {c : Char} (h : c.isDigit = true) : isIdentStart c = false := by
  have hrange : 48 ≤ c.val.toNat ∧ c.val.toNat ≤ 57 := by
    simp only [Char.isDigit, Bool.and_eq_true, decide_eq_true_eq, UInt32.le_iff_toNat_le,
      ge_iff_le] at h
    exact h
  have hunderscore : c ≠ '_' := by
    rintro rfl
    exact absurd h (by decide)
  have hupper : ('A'.val.toNat, 'Z'.val.toNat) = (65, 90) := rfl
  have hlower : ('a'.val.toNat, 'z'.val.toNat) = (97, 122) := rfl
  simp only [Prod.mk.injEq] at hupper hlower
  delta isIdentStart Char.isAlpha Char.isUpper Char.isLower
  simp only [Bool.or_eq_false_iff, Bool.and_eq_false_iff,
    decide_eq_false_iff_not, beq_eq_false_iff_ne, UInt32.le_iff_toNat_le, ge_iff_le]
  refine ⟨⟨?_, ?_⟩, hunderscore⟩
  · omega
  · omega

theorem isIdentStart_of_isdecimal {c : Char} (h : isdecimal c = true) : isIdentStart c = false := by
  by_contra hstart
  have hident : isIdentChar c = true := by
    simp only [isIdentStart, isIdentChar, Bool.not_eq_false, Bool.or_eq_true,
      Char.isAlphanum] at hstart ⊢
    obtain hstart | hstart := hstart
    · exact .inl (.inl (.inl hstart))
    · exact .inl (.inr hstart)
  have hrange := isIdentChar_range hident
  exact hstart (isIdentStart_of_isDigit (isDigit_of_isdecimal (by omega) h))

/-- The characters a number starts with start nothing else. -/
theorem number_start {c : Char} (h : isdecimal c = true ∨ c = '-') :
    c ∉ ['\'', '"', '(', ')', ',', '=', '!', '<', '>'] ∧ isIdentStart c = false ∧
      isspace c = false := by
  refine ⟨fun hmem => ?_, ?_, ?_⟩
  · exact (by decide : ∀ d ∈ ['\'', '"', '(', ')', ',', '=', '!', '<',
      '>'], ¬(isdecimal d = true ∨ d = '-')) c hmem h
  · obtain h | rfl := h
    · exact isIdentStart_of_isdecimal h
    · decide
  · obtain h | rfl := h
    · exact isspace_of_isdecimal h
    · decide

/-- The digits of a number end before a character of no word. -/
theorem numberToken_digits (negative : Bool) (ds : Digits) {next : List Char}
    (h : ∀ c ∈ next.head?, isWordChar c = false) :
    numberToken ((if negative then '-' :: ds.chars else ds.chars) ++ next) =
      some (if negative then '-' :: ds.chars else ds.chars, next) := by
  have hspan : (ds.chars ++ next).span isdecimal = (ds.chars, next) :=
    span_append ds.digits fun c hc => (Bool.or_eq_false_iff.mp (h c hc)).2
  have hsome : ds.chars.isEmpty = false := by simpa using ds.nonempty
  have hdot : ∀ rest, next ≠ '.' :: rest := by
    rintro rest rfl
    exact absurd (h '.' rfl) (by decide)
  have hminus : ∀ rest, ds.chars ++ next ≠ '-' :: rest := by
    intro rest heq
    obtain ⟨d, ds', hchars⟩ := List.exists_cons_of_ne_nil ds.nonempty
    rw [hchars, List.cons_append] at heq
    have hdigit := ds.digits d (by simp [hchars])
    rw [(List.cons.inj heq).1] at hdigit
    exact absurd hdigit (by decide)
  unfold numberToken
  cases negative with
  | true =>
    simp only [if_true, List.cons_append, hspan, hsome, Bool.false_eq_true, if_false]
    rfl
  | false =>
    simp only [hspan, hsome, Bool.false_eq_true, if_false]
    rfl

/-- A number of the tokenizer. -/
theorem isToken_number (negative : Bool) (ds : Digits) :
    IsToken (String.ofList (if negative then '-' :: ds.chars else ds.chars)) := by
  obtain ⟨c, cs, hchars, hc⟩ : ∃ c cs, (if negative then '-' :: ds.chars else ds.chars) = c :: cs ∧
      (isdecimal c = true ∨ c = '-') := by
    obtain ⟨d, ds', hdigits⟩ := List.exists_cons_of_ne_nil ds.nonempty
    cases negative with
    | true => exact ⟨'-', _, rfl, .inr rfl⟩
    | false => exact ⟨d, ds', hdigits, .inl (ds.digits d (by simp [hdigits]))⟩
  obtain ⟨hplain, hstart, hspace⟩ := number_start hc
  refine ⟨⟨c, cs, by rw [String.toList_ofList, hchars], hspace⟩, ?_, ?_⟩
  · intro d hd
    rw [String.toList_ofList] at hd
    have hmem : d ∈ ds.chars ∨ d = '-' := by
      have hmem := List.mem_of_mem_getLast? hd
      split at hmem
      · exact (List.mem_cons.mp hmem).symm
      · exact .inl hmem
    exact (number_start (hmem.imp_left (ds.digits d))).2.2
  · intro next hnext
    have hhead :=
      hnext.1 ⟨c, by rw [String.toList_ofList, hchars]; rfl, hc.imp_left fun hc => by rw [isWordChar, hc, Bool.or_true]⟩
    have hnumber := numberToken_digits negative ds hhead
    rw [String.toList_ofList]
    rw [hchars] at hnumber ⊢
    rw [List.cons_append, tokenAt_plain hplain, hstart]
    exact hnumber

theorem untilQuote_body {q : Char} {body : List Char} (h : q ∉ body) (rest : List Char) :
    untilQuote q (body ++ q :: rest) = some (body, rest) := by
  induction body with
  | nil => simp [untilQuote]
  | cons c cs ih =>
    rw [List.mem_cons, not_or] at h
    simp [untilQuote, Ne.symm h.1, ih h.2]

/-- A quoted text is one token. -/
theorem isToken_quoted (s : Quotable) (q : Quote) : IsToken (s.token q) := by
  have hplain : q.char ∉ s.text.toList := by
    cases q with
    | single => exact s.single
    | double => exact s.double
  refine ⟨⟨q.char, s.text.toList ++ [q.char], String.toList_ofList, by cases q <;> decide⟩, ?_, ?_⟩
  · intro c hc
    rw [Quotable.token, String.toList_ofList, ← List.cons_append, List.getLast?_concat] at hc
    obtain rfl := Option.some.inj hc
    cases q <;> decide
  · intro next _
    have hbody := untilQuote_body hplain next
    rw [Quotable.token, String.toList_ofList, List.cons_append, List.append_assoc,
      List.singleton_append]
    cases q with
    | single =>
      rw [Quote.char] at hbody ⊢
      rw [tokenAt, hbody]
      rfl
    | double =>
      rw [Quote.char] at hbody ⊢
      rw [tokenAt, hbody]
      rfl

theorem isToken_mark {t : String}
    (h : t ∈ ["(", ")", ",", "==", "!=", "<=", ">="]) : IsToken t := by
  simp only [List.mem_cons, List.not_mem_nil, or_false] at h
  obtain rfl | rfl | rfl | rfl | rfl | rfl | rfl := h
  all_goals exact ⟨⟨_, _, rfl, by decide⟩, by decide, fun next _ => rfl⟩

theorem isToken_angle {t : String} (h : t = "<" ∨ t = ">") : IsToken t := by
  have hnext : ∀ next, Follows t next → ∀ cs, next ≠ '=' :: cs := by
    rintro next hnext cs rfl
    exact hnext.2 h '=' rfl rfl
  obtain rfl | rfl := h
  · refine ⟨⟨_, _, rfl, by decide⟩, by decide, fun next hfollows => ?_⟩
    have hne := hnext next hfollows
    show tokenAt ('<' :: next) = _
    rw [tokenAt]
    · rfl
    · exact hne
  · refine ⟨⟨_, _, rfl, by decide⟩, by decide, fun next hfollows => ?_⟩
    have hne := hnext next hfollows
    show tokenAt ('>' :: next) = _
    rw [tokenAt]
    · rfl
    · exact hne

theorem isIdentChar_of_isStepChar {c : Char} (h : isStepChar c = true) : isIdentChar c = true := by
  simp only [isStepChar, isIdentChar, Bool.or_eq_true] at h ⊢
  exact .inl h

theorem isToken_key (k : Key) : IsToken k.token := by
  cases k with
  | quoted k q => exact isToken_quoted k q
  | bare name h =>
    unfold isBareKey at h
    split at h
    · cases h
    · next c cs hchars =>
      simp only [Bool.and_eq_true, List.all_eq_true] at h
      exact isToken_word hchars h.1.1 fun d hd => isIdentChar_of_isStepChar (h.1.2 d hd)

theorem isIdentChar_of_mem_dotted {steps : List Step} {c : Char} (h : c ∈ dotted steps) :
    isIdentChar c = true := by
  obtain ⟨s, -, hc⟩ := List.mem_flatMap.mp h
  obtain rfl | hc := List.mem_cons.mp hc
  · decide
  · exact isIdentChar_of_isStepChar (s.step c hc)

/-- A path starts as a word and goes on as one. -/
theorem Path.chars_eq (p : Path) :
    ∃ c cs, p.chars = c :: cs ∧ isIdentStart c = true ∧ ∀ d ∈ cs, isIdentChar d = true := by
  have hworkflow : ∀ d ∈ "orkflow".toList, isIdentChar d = true := by decide
  have htrigger : ∀ d ∈ "rigger".toList, isIdentChar d = true := by decide
  have hstatus : ∀ d ∈ ".status".toList, isIdentChar d = true := by decide
  have houtput : ∀ d ∈ ".output".toList, isIdentChar d = true := by decide
  cases p with
  | workflow steps =>
    refine ⟨'w', "orkflow".toList ++ dotted steps, rfl, by decide, fun d hd => ?_⟩
    obtain hd | hd := List.mem_append.mp hd
    · exact hworkflow d hd
    · exact isIdentChar_of_mem_dotted hd
  | trigger steps =>
    refine ⟨'t', "rigger".toList ++ dotted steps, rfl, by decide, fun d hd => ?_⟩
    obtain hd | hd := List.mem_append.mp hd
    · exact htrigger d hd
    · exact isIdentChar_of_mem_dotted hd
  | status node =>
    refine ⟨node.first, node.rest ++ ".status".toList, rfl, node.start, fun d hd => ?_⟩
    obtain hd | hd := List.mem_append.mp hd
    · exact isIdentChar_of_isStepChar (node.step d hd)
    · exact hstatus d hd
  | output node steps =>
    refine ⟨node.first, node.rest ++ (".output".toList ++ dotted steps), rfl, node.start,
      fun d hd => ?_⟩
    obtain hd | hd := List.mem_append.mp hd
    · exact isIdentChar_of_isStepChar (node.step d hd)
    · obtain hd | hd := List.mem_append.mp hd
      · exact houtput d hd
      · exact isIdentChar_of_mem_dotted hd

theorem isToken_path (p : Path) : IsToken p.token := by
  obtain ⟨c, cs, hchars, hc, hcs⟩ := p.chars_eq
  exact isToken_word (String.toList_ofList.trans hchars) hc hcs

theorem isToken_literal (l : Literal) : IsToken l.token := by
  cases l with
  | bool b capital =>
    cases b <;> cases capital <;> exact isToken_word rfl (by decide) (by decide)
  | null capital => cases capital <;> exact isToken_word rfl (by decide) (by decide)
  | int negative ds _ => exact isToken_number negative ds
  | str s q => exact isToken_quoted s q

theorem isToken_op (op : Op) : IsToken op.token := by
  cases op with
  | lt => exact isToken_angle (.inl rfl)
  | gt => exact isToken_angle (.inr rfl)
  | _ => exact isToken_mark (by decide)

/-- The tokens of a condition keep apart without white space. -/
def Fits (t u : String) : Prop := Follows t u.toList

/-- A mark needs no space before it. -/
theorem fits_of_mark (t : String) {u : String} (h : u ∈ ["(", ")", ","]) : Fits t u := by
  simp only [List.mem_cons, List.not_mem_nil, or_false] at h
  constructor
  · intro _ c hc
    rcases h with rfl | rfl | rfl <;> obtain rfl := Option.some.inj hc <;> decide
  · intro _ c hc
    rcases h with rfl | rfl | rfl <;> obtain rfl := Option.some.inj hc <;> decide

theorem fits_after_mark {t : String} (h : t ∈ ["(", ")", ","]) (u : String) : Fits t u := by
  simp only [List.mem_cons, List.not_mem_nil, or_false] at h
  constructor
  · rintro ⟨c, hc, hword⟩
    rcases h with rfl | rfl | rfl <;> obtain rfl :=
      Option.some.inj hc <;> exact absurd hword (by decide)
  · intro hangle
    have hnot : ∀ t ∈ ["(", ")", ","], ¬(t = "<" ∨ t = ">") := by decide
    exact absurd hangle (hnot t (by simpa using h))

/-- A path and an operator keep apart. -/
theorem fits_path_op (p : Path) (op : Op) : Fits p.token op.token := by
  constructor
  · intro _ c hc
    cases op <;> obtain rfl := Option.some.inj hc <;> decide
  · intro hangle
    obtain ⟨c, cs, hchars, hc, -⟩ := p.chars_eq
    have htoken : p.token.toList = c :: cs := String.toList_ofList.trans hchars
    obtain heq | heq := hangle
    · rw [heq] at htoken
      obtain ⟨rfl, -⟩ := List.cons.inj htoken
      exact absurd hc (by decide)
    · rw [heq] at htoken
      obtain ⟨rfl, -⟩ := List.cons.inj htoken
      exact absurd hc (by decide)

theorem fits_op_literal (op : Op) (l : Literal) : Fits op.token l.token := by
  constructor
  · rintro ⟨c, hc, hword⟩
    cases op <;> obtain rfl := Option.some.inj hc <;> exact absurd hword (by decide)
  · intro _ c hc
    rintro rfl
    cases l with
    | bool b capital => cases b <;> cases capital <;> cases hc
    | null capital => cases capital <;> cases hc
    | int negative ds _ =>
      obtain ⟨d, ds', hdigits⟩ := List.exists_cons_of_ne_nil ds.nonempty
      rw [Literal.token, String.toList_ofList, hdigits] at hc
      cases negative with
      | true => cases hc
      | false =>
        obtain rfl := Option.some.inj hc
        exact absurd (ds.digits '=' (by simp [hdigits])) (by decide)
    | str s q =>
      rw [Literal.token, Quotable.token, String.toList_ofList] at hc
      cases q <;> cases hc

theorem isToken_between {ts : List String} (h : ∀ t ∈ ts, IsToken t) :
    ∀ t ∈ "(" :: (ts ++ [")"]), IsToken t := by
  intro t ht
  simp only [List.mem_cons, List.mem_append, List.not_mem_nil, or_false] at ht
  obtain rfl | ht | rfl := ht
  · exact isToken_mark (by decide)
  · exact h t ht
  · exact isToken_mark (by decide)

mutual

/-- All tokens of a condition are read as one. -/
theorem Cond.isToken : ∀ (c : Cond), ∀ t ∈ c.tokens, IsToken t
  | .literal l => by
    simpa [Cond.tokens] using isToken_literal l
  | .predicate p key => by
    have hname : IsToken p.token := by cases p <;> exact isToken_word rfl (by decide) (by decide)
    simpa [Cond.tokens] using
      ⟨hname, isToken_mark (by decide), isToken_key key, isToken_mark (by decide)⟩
  | .status key st q => by
    have hname : IsToken "status" := isToken_word rfl (by decide) (by decide)
    simpa [Cond.tokens] using
      ⟨hname, isToken_mark (by decide), isToken_key key, isToken_mark (by decide),
      isToken_quoted (status_name st) q, isToken_mark (by decide)⟩
  | .compare path op l => by
    simpa [Cond.tokens] using ⟨isToken_path path, isToken_op op, isToken_literal l⟩
  | .not c => by
    have hname : IsToken "NOT" := isToken_word rfl (by decide) (by decide)
    exact List.forall_mem_cons.mpr ⟨hname, isToken_between c.isToken⟩
  | .all cs => by
    have hname : IsToken "AND" := isToken_word rfl (by decide) (by decide)
    exact List.forall_mem_cons.mpr ⟨hname, isToken_between (isToken_args true cs)⟩
  | .any cs => by
    have hname : IsToken "OR" := isToken_word rfl (by decide) (by decide)
    exact List.forall_mem_cons.mpr ⟨hname, isToken_between (isToken_args true cs)⟩
  | .paren c => isToken_between c.isToken
  | .otherwise => by
    have hname : IsToken "__else__" := isToken_word rfl (by decide) (by decide)
    simpa [Cond.tokens] using hname

theorem isToken_args (first : Bool) : ∀ (cs : List Cond), ∀ t ∈ argTokens first cs, IsToken t
  | [] => by simp [argTokens]
  | c :: cs => by
    intro t ht
    simp only [argTokens, List.mem_append] at ht
    obtain (ht | ht) | ht := ht
    · cases first with
      | true => simp at ht
      | false =>
        obtain rfl := List.mem_singleton.mp ht
        exact isToken_mark (by decide)
    · exact c.isToken t ht
    · exact isToken_args false cs t ht

end

/-- Tokens between parentheses fit if they fit. -/
theorem fits_between {ts : List String} (h : ts.IsChain Fits) :
    ("(" :: (ts ++ [")"])).IsChain Fits := by
  rw [List.isChain_cons]
  refine ⟨fun u _ => fits_after_mark (by decide) u, h.append (List.isChain_singleton _) ?_⟩
  intro t _ u hu
  obtain rfl := Option.some.inj hu
  exact fits_of_mark t (by decide)

theorem fits_call (name : String) {ts : List String} (h : ts.IsChain Fits) :
    (name :: "(" :: (ts ++ [")"])).IsChain Fits := by
  rw [List.isChain_cons]
  refine ⟨fun u hu => ?_, fits_between h⟩
  obtain rfl := Option.some.inj hu
  exact fits_of_mark name (by decide)

mutual

/-- The tokens of a condition keep apart. -/
theorem Cond.fits : ∀ c : Cond, c.tokens.IsChain Fits
  | .literal l => List.isChain_singleton _
  | .predicate p key => fits_call p.token (List.isChain_singleton _)
  | .status key st q => by
    have hargs : [key.token, ",", (status_name st).token q].IsChain Fits := by
      rw [List.isChain_cons_cons, List.isChain_cons_cons]
      exact ⟨fits_of_mark _ (by decide), fits_after_mark (by decide) _, List.isChain_singleton _⟩
    exact fits_call "status" hargs
  | .compare path op l => by
    rw [Cond.tokens, List.isChain_cons_cons, List.isChain_cons_cons]
    exact ⟨fits_path_op path op, fits_op_literal op l, List.isChain_singleton _⟩
  | .not c => fits_call "NOT" c.fits
  | .all cs => fits_call "AND" (fits_args true cs)
  | .any cs => fits_call "OR" (fits_args true cs)
  | .paren c => fits_between c.fits
  | .otherwise => List.isChain_singleton _

theorem fits_args (first : Bool) : ∀ cs : List Cond, (argTokens first cs).IsChain Fits
  | [] => List.isChain_nil
  | c :: cs => by
    have hcomma : ((if first then [] else [","]) ++ c.tokens).IsChain Fits := by
      cases first with
      | true => exact c.fits
      | false => exact List.isChain_cons.mpr ⟨fun u _ => fits_after_mark (by decide) u, c.fits⟩
    rw [argTokens]
    apply hcomma.append (fits_args false cs)
    intro t _ u hu
    cases cs with
    | nil => cases hu
    | cons d ds =>
      obtain rfl := Option.some.inj hu
      exact fits_of_mark t (by decide)

end

end lexing

section spelling

variable {ts : List String} {cs : List Char}

theorem follows_of_space {t : String} {next : List Char} (h : ∀ c ∈ next.head?, isspace c = true) :
    Follows t next := by
  constructor
  · intro _ c hc
    by_contra hident
    have hspace := isspace_false_of_isWordChar (c := c) (by simpa using hident)
    rw [h c hc] at hspace
    cases hspace
  · rintro _ c hc rfl
    exact absurd (h '=' hc) (by decide)

/-- What is spelled behind a token does not prolong it. -/
theorem Spells.follows {t : String} (h : Spells ts cs) (htokens : ∀ u ∈ ts, IsToken u)
    (hfits : (t :: ts).IsChain Fits) :
    Follows t cs := by
  cases h with
  | done hspace => exact follows_of_space fun c hc => hspace c (List.mem_of_mem_head? hc)
  | @token ws u ts cs hspace rest =>
    cases ws with
    | cons w ws =>
      apply follows_of_space
      intro c hc
      obtain rfl := Option.some.inj hc
      exact hspace _ List.mem_cons_self
    | nil =>
      obtain ⟨d, ds, hchars, -⟩ := (htokens u List.mem_cons_self).head
      have hfit : Fits t u := (List.isChain_cons_cons.mp hfits).1
      have hhead : (u.toList ++ cs).head? = u.toList.head? := by rw [hchars]; rfl
      rwa [List.nil_append, Follows, hhead]

/-- White space is skipped. -/
theorem tokenizeLoop_spaces {ws : List Char} (h : ∀ c ∈ ws, isspace c = true) (fuel : Nat)
    (cs : List Char) :
    tokenizeLoop (ws.length + fuel) (ws ++ cs) = tokenizeLoop fuel cs := by
  induction ws with
  | nil => simp
  | cons w ws ih =>
    have hlength : (w :: ws).length + fuel = ws.length + fuel + 1 := by
      simp only [List.length_cons]; omega
    rw [hlength, List.cons_append, tokenizeLoop, if_pos (h w List.mem_cons_self)]
    exact ih fun c hc => h c (List.mem_cons_of_mem _ hc)

/-- A token is read where it cannot go on. -/
theorem tokenizeLoop_token {t : String} {next : List Char} (h : IsToken t) (hnext : Follows t next)
    (fuel : Nat) :
    tokenizeLoop (fuel + 1) (t.toList ++ next) = (tokenizeLoop fuel next).map (t :: ·) := by
  obtain ⟨c, cs, hchars, hspace⟩ := h.head
  have htoken := h.lexes next hnext
  rw [hchars, List.cons_append] at htoken ⊢
  rw [tokenizeLoop, hspace, htoken, ← hchars]
  simp only [Bool.false_eq_true, if_false, String.ofList_toList]
  cases tokenizeLoop fuel next <;> rfl

/-- The tokenizer reads back the tokens that are spelled. -/
theorem Spells.tokenizeLoop (h : Spells ts cs) (htokens : ∀ t ∈ ts, IsToken t)
    (hfits : ts.IsChain Fits) {fuel : Nat} (hfuel : cs.length ≤ fuel) :
    tokenizeLoop fuel cs = .ok ts := by
  induction h generalizing fuel with
  | @done ws hspace =>
    have hspaces := tokenizeLoop_spaces hspace (fuel - ws.length) []
    rw [List.append_nil, Nat.add_sub_cancel' hfuel] at hspaces
    rw [hspaces]
    cases fuel - ws.length <;> rfl
  | @token ws t ts cs hspace rest ih =>
    obtain ⟨c, ds, hchars, -⟩ := (htokens t List.mem_cons_self).head
    simp only [List.length_append, hchars, List.length_cons] at hfuel
    obtain ⟨more, rfl⟩ : ∃ more, fuel = ws.length + (more + 1) := ⟨fuel - ws.length - 1, by omega⟩
    have hfollows := rest.follows (fun u hu => htokens u (List.mem_cons_of_mem _ hu)) hfits
    rw [tokenizeLoop_spaces hspace, tokenizeLoop_token (htokens t List.mem_cons_self) hfollows]
    rw [ih (fun u hu => htokens u (List.mem_cons_of_mem _ hu)) hfits.tail (by omega)]
    rfl

/-- Stripping on the left keeps the tokens. -/
theorem Spells.dropWhile (h : Spells ts cs) (htokens : ∀ t ∈ ts, IsToken t) :
    Spells ts (cs.dropWhile isspace) := by
  cases h with
  | @done ws hspace =>
    rw [List.dropWhile_eq_nil_iff.mpr hspace]
    exact .done (by simp)
  | @token ws t ts cs hspace rest =>
    obtain ⟨c, ds, hchars, hc⟩ := (htokens t List.mem_cons_self).head
    rw [List.dropWhile_append_of_pos hspace, hchars, List.cons_append,
      List.dropWhile_cons_of_neg (by simp [hc]), ← List.cons_append, ← hchars]
    exact @Spells.token [] t ts cs (by simp) rest

/-- Stripping the right end of a text. -/
def rstrip (s : List Char) : List Char := (s.reverse.dropWhile isspace).reverse

theorem rstrip_append {xs ys : List Char} (h : ∀ c ∈ xs.getLast?, isspace c = false) :
    rstrip (xs ++ ys) = xs ++ rstrip ys := by
  have hkept : xs.reverse.dropWhile isspace = xs.reverse := by
    cases hxs : xs.reverse with
    | nil => rfl
    | cons c cs =>
      have hc : c ∈ xs.getLast? := by rw [← List.head?_reverse, hxs]; rfl
      rw [List.dropWhile_cons_of_neg (by simp [h c hc])]
  unfold rstrip
  rw [List.reverse_append, List.dropWhile_append, hkept]
  split_ifs with hempty
  · rw [List.isEmpty_iff.mp hempty, List.reverse_reverse, List.reverse_nil, List.append_nil]
  · rw [List.reverse_append, List.reverse_reverse]

theorem Spells.rstrip (h : Spells ts cs) (htokens : ∀ t ∈ ts, IsToken t) :
    Spells ts (rstrip cs) := by
  induction h with
  | @done ws hspace =>
    have hnil : ws.reverse.dropWhile isspace = [] :=
      List.dropWhile_eq_nil_iff.mpr fun c hc => hspace c (List.mem_reverse.mp hc)
    rw [executor.rstrip, hnil]
    exact .done (by simp)
  | @token ws t ts cs hspace rest ih =>
    have hlast : ∀ c ∈ (ws ++ t.toList).getLast?, isspace c = false := by
      intro c hc
      obtain ⟨d, ds, hchars, -⟩ := (htokens t List.mem_cons_self).head
      rw [List.getLast?_append_of_ne_nil _ (by simp [hchars])] at hc
      exact (htokens t List.mem_cons_self).last c hc
    rw [← List.append_assoc, rstrip_append hlast, List.append_assoc]
    exact .token hspace (ih fun u hu => htokens u (List.mem_cons_of_mem _ hu))

theorem Spells.strip (h : Spells ts cs) (htokens : ∀ t ∈ ts, IsToken t) : Spells ts (strip cs) :=
  (h.dropWhile htokens).rstrip htokens

end spelling

end taurus.engine.executor
