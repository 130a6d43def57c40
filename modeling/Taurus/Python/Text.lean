import Mathlib.Algebra.Group.Nat.Defs
import Mathlib.Data.List.Basic

/-! The built-in string operations the engine uses, on lists of characters. -/

namespace taurus.python

/-- `str.isspace` for one character. -/
def isspace (c : Char) : Bool :=
  let n := c.toNat
  (9 ≤ n && n ≤ 13) || (28 ≤ n && n ≤ 32) || n == 0x85 || n == 0xA0 || n == 0x1680 ||
    (0x2000 ≤ n && n ≤ 0x200A) || n == 0x2028 || n == 0x2029 || n == 0x202F || n == 0x205F ||
    n == 0x3000

/-- `str.strip()` -/
def strip (s : List Char) : List Char :=
  ((s.dropWhile isspace).reverse.dropWhile isspace).reverse

section trim

variable {p : Char → Bool} {s : List Char}

theorem trim_of_forall (h : ∀ c ∈ s, p c = false) :
    ((s.dropWhile p).reverse.dropWhile p).reverse = s := by
  have hkeep : ∀ {l : List Char}, (∀ c ∈ l, p c = false) → l.dropWhile p = l := by
    intro l hl
    cases l with
    | nil => rfl
    | cons c cs => exact List.dropWhile_cons_of_neg (by simp [hl c List.mem_cons_self])
  rw [hkeep h, hkeep fun c hc => h c (List.mem_reverse.mp hc), List.reverse_reverse]

/-- A character that is not dropped ends what is dropped on both sides. -/
theorem trim_cons {c : Char} (hc : p c = false) (s : List Char) :
    (((c :: s).dropWhile p).reverse.dropWhile p).reverse =
      c :: (s.reverse.dropWhile p).reverse := by
  rw [List.dropWhile_cons_of_neg (by simp [hc]), List.reverse_cons, List.dropWhile_append]
  split_ifs with hempty
  · rw [List.isEmpty_iff.mp hempty, List.dropWhile_cons_of_neg (by simp [hc])]
    rfl
  · rw [List.reverse_append]
    rfl

end trim

/-- `s.startswith(prefix)`: what follows the prefix, when it is one. -/
def afterPrefix : List Char → List Char → Option (List Char)
  | [], s => some s
  | _ :: _, [] => none
  | p :: ps, c :: cs => if p = c then afterPrefix ps cs else none

def startswith (s stem : List Char) : Bool := (afterPrefix stem s).isSome

theorem afterPrefix_append (p cs : List Char) : afterPrefix p (p ++ cs) = some cs := by
  induction p with
  | nil => rfl
  | cons c p ih =>
    rw [List.cons_append, afterPrefix, if_pos rfl]
    exact ih

/-- `sub in s` -/
def isInfix (sub : List Char) : List Char → Bool
  | [] => sub.isEmpty
  | c :: cs => startswith (c :: cs) sub || isInfix sub cs

theorem afterPrefix_eq_some_iff {p s rest : List Char} :
    afterPrefix p s = some rest ↔ s = p ++ rest := by
  induction p generalizing s with
  | nil => simp [afterPrefix]
  | cons c p ih =>
    cases s with
    | nil => simp [afterPrefix]
    | cons d s =>
      rw [afterPrefix, List.cons_append, List.cons.injEq]
      split_ifs with h
      · rw [ih, eq_comm (a := d), and_iff_right h]
      · simp [Ne.symm h]

theorem startswith_iff {s stem : List Char} : startswith s stem = true ↔ stem <+: s := by
  rw [startswith, Option.isSome_iff_exists]
  constructor
  · rintro ⟨rest, hrest⟩
    exact ⟨rest, (afterPrefix_eq_some_iff.mp hrest).symm⟩
  · rintro ⟨rest, rfl⟩
    exact ⟨rest, afterPrefix_append stem rest⟩

theorem isInfix_iff {sub s : List Char} : isInfix sub s = true ↔ sub <:+: s := by
  induction s with
  | nil => simp [isInfix]
  | cons c s ih => rw [isInfix, Bool.or_eq_true, startswith_iff, ih, List.infix_cons_iff]

/-- A text contains its beginning. -/
theorem isInfix_append (sub cs : List Char) : isInfix sub (sub ++ cs) = true :=
  isInfix_iff.mpr (List.prefix_append sub cs).isInfix

/-- `s.replace(old, new)` for a nonempty `old`; `skip` counts the characters of
the occurrence being replaced that are still to be dropped. -/
def replaceFrom (old new : List Char) : Nat → List Char → List Char
  | _, [] => []
  | skip + 1, _ :: cs => replaceFrom old new skip cs
  | 0, c :: cs =>
    if startswith (c :: cs) old then new ++ replaceFrom old new (old.length - 1) cs
    else c :: replaceFrom old new 0 cs

def replace (old new s : List Char) : List Char := replaceFrom old new 0 s

/-- `s.split(sep)` on a one-character separator. -/
def splitOn (sep : Char) : List Char → List (List Char)
  | [] => [[]]
  | c :: cs =>
    if c = sep then [] :: splitOn sep cs
    else match splitOn sep cs with
      | [] => [[c]]
      | w :: ws => (c :: w) :: ws

theorem splitOn_none {sep : Char} {w : List Char} (h : sep ∉ w) : splitOn sep w = [w] := by
  induction w with
  | nil => rfl
  | cons c cs ih =>
    rw [List.mem_cons, not_or] at h
    rw [splitOn, if_neg (Ne.symm h.1), ih h.2]

theorem splitOn_append {sep : Char} {w : List Char} (h : sep ∉ w) (rest : List Char) :
    splitOn sep (w ++ sep :: rest) = w :: splitOn sep rest := by
  induction w with
  | nil => simp [splitOn]
  | cons c cs ih =>
    rw [List.mem_cons, not_or] at h
    rw [List.cons_append, splitOn, if_neg (Ne.symm h.1), ih h.2]

/-- The zeros of the scripts beyond ASCII, each followed by the nine other decimal digits. -/
def decimal_zeros : List Nat :=
  [0x660, 0x6F0, 0x7C0, 0x966, 0x9E6, 0xA66, 0xAE6, 0xB66, 0xBE6, 0xC66, 0xCE6, 0xD66, 0xDE6, 0xE50,
    0xED0, 0xF20, 0x1040, 0x1090, 0x17E0, 0x1810, 0x1946, 0x19D0, 0x1A80, 0x1A90, 0x1B50, 0x1BB0,
    0x1C40, 0x1C50, 0xA620, 0xA8D0, 0xA900, 0xA9D0, 0xA9F0, 0xAA50, 0xABF0, 0xFF10, 0x104A0,
      0x10D30, 0x11066, 0x110F0, 0x11136, 0x111D0, 0x112F0, 0x11450, 0x114D0, 0x11650,
    0x116C0, 0x11730, 0x118E0, 0x11950, 0x11C50, 0x11D50, 0x11DA0, 0x11F50, 0x16A60, 0x16AC0,
      0x16B50, 0x1D7CE, 0x1D7D8,
    0x1D7E2, 0x1D7EC, 0x1D7F6, 0x1E140, 0x1E2F0, 0x1E4F0, 0x1E950, 0x1FBF0]

/-- `unicodedata.decimal(c)` -/
def digit? (c : Char) : Option Nat :=
  if c.toNat < 128 then if c.isDigit then some (c.toNat - '0'.toNat) else none
  else (decimal_zeros.find? fun base => base ≤ c.toNat ∧ c.toNat < base + 10).map (c.toNat - ·)

/-- `str.isdecimal` for one character, which is `\d` of a pattern too. -/
def isdecimal (c : Char) : Bool := (digit? c).isSome

/-- The digits without a decimal value, such as the superscripts, by the first and
the last of each run. -/
def other_digits : List (Nat × Nat) :=
  [(0xB2, 0xB3), (0xB9, 0xB9), (0x1369, 0x1371), (0x19DA, 0x19DA), (0x2070, 0x2070),
    (0x2074, 0x2079), (0x2080, 0x2089), (0x2460, 0x2468), (0x2474, 0x247C), (0x2488, 0x2490),
    (0x24EA, 0x24EA), (0x24F5, 0x24FD), (0x24FF, 0x24FF), (0x2776, 0x277E), (0x2780, 0x2788),
      (0x278A, 0x2792), (0x10A40, 0x10A43), (0x10E60, 0x10E68), (0x11052, 0x1105A),
    (0x1F100, 0x1F10A)]

/-- `str.isdigit` for one character. -/
def isdigit (c : Char) : Bool :=
  isdecimal c || (128 ≤ c.toNat && other_digits.any fun run => run.1 ≤ c.toNat && c.toNat ≤ run.2)

/-- The number written by decimal digits, which may be grouped by single
underscores. -/
def digitsNat? (s : List Char) : Option Nat :=
  let groups := splitOn '_' s
  if groups.all fun g => !g.isEmpty && g.all isdecimal then
    some (groups.flatten.foldl (fun n c => 10 * n + (digit? c).getD 0) 0)
  else none

section decimals

variable {c : Char}

theorem toNat_lt_of_isDigit (h : c.isDigit = true) : 48 ≤ c.toNat ∧ c.toNat ≤ 57 := by
  simpa [Char.isDigit, Char.le_def, UInt32.le_iff_toNat_le] using h

theorem digit?_of_isDigit (h : c.isDigit = true) : digit? c = some (c.toNat - '0'.toNat) := by
  have hrange := toNat_lt_of_isDigit h
  rw [digit?, if_pos (by omega), if_pos h]

theorem isdecimal_of_isDigit (h : c.isDigit = true) : isdecimal c = true := by
  rw [isdecimal, digit?_of_isDigit h]
  rfl

theorem isDigit_of_isdecimal (hascii : c.toNat < 128) (h : isdecimal c = true) :
    c.isDigit = true := by
  rw [isdecimal, digit?, if_pos hascii] at h
  split_ifs at h with hdigit
  · exact hdigit
  · cases h

/-- A decimal digit is one of ASCII, or stands among the ten of another script. -/
theorem isdecimal_cases (h : isdecimal c = true) :
    c.isDigit = true ∨ ∃ base ∈ decimal_zeros, ∃ i < 10, c.toNat = base + i := by
  by_cases hascii : c.toNat < 128
  · exact .inl (isDigit_of_isdecimal hascii h)
  · rw [isdecimal, digit?, if_neg hascii, Option.isSome_map, List.find?_isSome] at h
    obtain ⟨base, hbase, hrange⟩ := h
    obtain ⟨hle, hlt⟩ := of_decide_eq_true hrange
    exact .inr ⟨base, hbase, c.toNat - base, by omega, by omega⟩

/-- No digit is white space. -/
theorem isspace_of_isdecimal (h : isdecimal c = true) : isspace c = false := by
  have hother : ∀ base ∈ decimal_zeros, ∀ i < 10, 0x85 < base + i ∧
    base + i ∉ [0xA0, 0x1680, 0x2028, 0x2029, 0x202F, 0x205F, 0x3000] ∧
      ¬ (0x2000 ≤ base + i ∧ base + i ≤ 0x200A) := by decide +kernel
  obtain hdigit | ⟨base, hbase, i, hi, heq⟩ := isdecimal_cases h
  · have hrange := toNat_lt_of_isDigit hdigit
    simp only [isspace, Bool.or_eq_false_iff, Bool.and_eq_false_iff, decide_eq_false_iff_not,
      beq_eq_false_iff_ne]
    omega
  · obtain ⟨hlarge, hne, hquad⟩ := hother base hbase i hi
    rw [← heq] at hlarge hne hquad
    simp only [List.mem_cons, List.not_mem_nil, or_false, not_or] at hne
    simp only [isspace, Bool.or_eq_false_iff, Bool.and_eq_false_iff, decide_eq_false_iff_not,
      beq_eq_false_iff_ne]
    omega

end decimals

end taurus.python
