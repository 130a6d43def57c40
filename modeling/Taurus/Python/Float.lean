import Mathlib.Data.Rat.Floor
import Taurus.Python.Text

/-! Python's `int(s)` and `float(s)` on texts, and the rounding of `timedelta`. -/

namespace taurus.python

/-- The white space that `int` and `float` drop around a number: not the four
separators of ASCII. -/
def number_space (c : Char) : Bool := isspace c && !(28 ≤ c.toNat && c.toNat ≤ 31)

def strip_number (s : List Char) : List Char :=
  ((s.dropWhile number_space).reverse.dropWhile number_space).reverse

/-- A number behind its sign. -/
def signed? : List Char → Option Int
  | '-' :: ds => (digitsNat? ds).map fun n : Nat => -(n : Int)
  | '+' :: ds => (digitsNat? ds).map fun n : Nat => (n : Int)
  | ds => (digitsNat? ds).map fun n : Nat => (n : Int)

/-- `int(s)` for a text that has no more digits than Python reads. -/
def short_int? (s : List Char) : Option Int := signed? (strip_number s)

/-- `sys.int_info.default_max_str_digits` -/
def max_str_digits : Nat := 4300

/-- `int(s)` -/
def int? (s : List Char) : Option Int :=
  if s.countP isdecimal ≤ max_str_digits then short_int? s else none

/-- A float; a finite one is kept as its exact value. -/
inductive PyFloat where
  | finite (q : Rat)
  | inf (negative : Bool)
  | nan
  deriving DecidableEq, Inhabited

namespace PyFloat

def neg : PyFloat → PyFloat
  | finite q => finite (-q)
  | inf negative => inf !negative
  | nan => nan

/-- `f <= q`; a NaN has no order. -/
def le : PyFloat → Rat → Bool
  | finite p, q => p ≤ q
  | inf negative, _ => negative
  | nan, _ => false

/-- `f < q` -/
def lt : PyFloat → Rat → Bool
  | finite p, q => p < q
  | inf negative, _ => negative
  | nan, _ => false

/-- `f >= q` -/
def ge : PyFloat → Rat → Bool
  | finite p, q => q ≤ p
  | inf negative, _ => !negative
  | nan, _ => false

/-- `f > q` -/
def gt : PyFloat → Rat → Bool
  | finite p, q => q < p
  | inf negative, _ => !negative
  | nan, _ => false

end PyFloat

/-- Digits around an optional point. -/
def mantissa? (s : List Char) : Option Rat :=
  match splitOn '.' s with
  | [whole] => (digitsNat? whole).map fun n : Nat => (n : Rat)
  | [whole, frac] =>
    if whole = [] ∧ frac = [] then none
    else do
      let w ← if whole = [] then some 0 else digitsNat? whole
      let f ← if frac = [] then some 0 else digitsNat? frac
      pure ((w : Rat) + (f : Rat) / ((10 ^ (frac.filter (· ≠ '_')).length : Nat) : Rat))
  | _ => none

/-- A decimal with an optional exponent. -/
def decimal? (s : List Char) : Option Rat :=
  match splitOn 'e' s with
  | [m] => mantissa? m
  | [m, e] => do
    let q ← mantissa? m
    match e with
    | '-' :: ds => (digitsNat? ds).map fun n => q / ((10 ^ n : Nat) : Rat)
    | '+' :: ds => (digitsNat? ds).map fun n => q * ((10 ^ n : Nat) : Rat)
    | ds => (digitsNat? ds).map fun n => q * ((10 ^ n : Nat) : Rat)
  | _ => none

/-- The nearest integer, the even one of two. -/
def round_half_even (q : Rat) : Int :=
  let r := q - q.floor
  if r < 1 / 2 ∨ (r = 1 / 2 ∧ q.floor % 2 = 0) then q.floor else q.floor + 1

/-- `2 ** k` -/
def power_of_two (k : Int) : Rat :=
  if 0 ≤ k then (2 ^ k.toNat : Nat) else 1 / ((2 ^ (-k).toNat : Nat) : Rat)

/-- The largest `k` for which `2 ** k` is at most the positive number. -/
def binary_exponent (q : Rat) : Int :=
  let k : Int := (Nat.log2 q.num.toNat : Int) - Nat.log2 q.den
  if power_of_two k ≤ q then k else k - 1

/-- The double that is nearest to a number that is not negative; one from `2 ** 1024`
on is infinite. -/
def double (q : Rat) : PyFloat :=
  if q = 0 then .finite 0
  else
    let unit := power_of_two (max (binary_exponent q) (-1022) - 52)
    let rounded := round_half_even (q / unit) * unit
    if rounded < power_of_two 1024 then .finite rounded else .inf false

def unsigned? (s : List Char) : Option PyFloat :=
  let lower := s.map Char.toLower
  if lower = "inf".toList ∨ lower = "infinity".toList then some (.inf false)
  else if lower = "nan".toList then some .nan
  else (decimal? lower).map double

/-- `float(s)` -/
def float? (s : List Char) : Option PyFloat :=
  match strip_number s with
  | '-' :: rest => (unsigned? rest).map .neg
  | '+' :: rest => unsigned? rest
  | rest => unsigned? rest

/-- The decimals nearest to a double are read as it. -/
example : float? "0.10000000000000000001".toList = float? "0.1".toList ∧
  float? "1e400".toList = some (.inf false) := by
  decide +kernel

theorem strip_number_of_forall {s : List Char} (h : ∀ c ∈ s, isspace c = false) :
    strip_number s = s :=
  trim_of_forall fun c hc => by rw [number_space, h c hc, Bool.false_and]

theorem isDigit_of_mem_toDigits {n : Nat} {c : Char} (h : c ∈ Nat.toDigits 10 n) :
    c.isDigit = true :=
  Nat.isDigit_of_mem_toDigits (by decide) (by decide) h

theorem digitsNat?_toDigits (n : Nat) : digitsNat? (Nat.toDigits 10 n) = some n := by
  have hdigit : ∀ c ∈ Nat.toDigits 10 n, c.isDigit = true := fun c hc => isDigit_of_mem_toDigits hc
  have hall : (Nat.toDigits 10 n).all isdecimal = true :=
    List.all_eq_true.mpr fun c hc => isdecimal_of_isDigit (hdigit c hc)
  have hsome : (Nat.toDigits 10 n).isEmpty = false := by
    rw [List.isEmpty_eq_false_iff]
    exact Nat.toDigits_ne_nil
  have hvalue : (Nat.toDigits 10 n).foldl (fun n c => 10 * n + (digit? c).getD 0) 0 = n := by
    refine Eq.trans (List.foldl_ext _ _ 0 fun n c hc => ?_) Nat.ofDigitChars_ten_toDigits
    rw [digit?_of_isDigit (hdigit c hc)]
    rfl
  simp only [digitsNat?, splitOn_none Nat.underscore_not_in_toDigits, List.all_cons,
    List.all_nil, hall, hsome, Bool.not_false, Bool.and_self, if_true, List.flatten_cons,
    List.flatten_nil, List.append_nil, hvalue]

theorem short_int?_toDigits (n : Nat) : short_int? (Nat.toDigits 10 n) = some (n : Int) := by
  have hdigit : ∀ c ∈ Nat.toDigits 10 n, c.isDigit = true := fun c hc => isDigit_of_mem_toDigits hc
  have hread := digitsNat?_toDigits n
  unfold short_int?
  rw [strip_number_of_forall fun c hc => isspace_of_isdecimal (isdecimal_of_isDigit (hdigit c hc))]
  cases hds : Nat.toDigits 10 n with
  | nil => exact absurd hds Nat.toDigits_ne_nil
  | cons c cs =>
    rw [hds] at hread hdigit
    have hc := hdigit c List.mem_cons_self
    unfold signed?
    split
    · rename_i heq
      obtain ⟨rfl, -⟩ := List.cons.inj heq
      exact absurd hc (by decide)
    · rename_i heq
      obtain ⟨rfl, -⟩ := List.cons.inj heq
      exact absurd hc (by decide)
    · rw [hread]
      rfl

theorem short_int?_minus_toDigits (n : Nat) :
    short_int? ('-' :: Nat.toDigits 10 n) = some (-(n : Int)) := by
  have hspace : ∀ c ∈ '-' :: Nat.toDigits 10 n, isspace c = false := by
    rw [List.forall_mem_cons]
    exact ⟨by decide, fun c hc => isspace_of_isdecimal (isdecimal_of_isDigit (isDigit_of_mem_toDigits hc))⟩
  unfold short_int?
  rw [strip_number_of_forall hspace, signed?, digitsNat?_toDigits]
  rfl

/-- A written number is read back. -/
theorem short_int?_toString (k : Int) : short_int? (toString k).toList = some k := by
  rw [Int.toString_eq_repr, Int.repr_eq_if]
  split
  · rw [Nat.toList_repr, short_int?_toDigits]
    congr 1
    omega
  · rw [String.toList_append, Nat.toList_repr]
    change short_int? ('-' :: Nat.toDigits 10 (-k).toNat) = some k
    rw [short_int?_minus_toDigits]
    congr 1
    omega

theorem toString_toList_injective : Function.Injective fun k : Int => (toString k).toList := by
  intro k l h
  have hread := short_int?_toString k
  simp only at h
  rw [h, short_int?_toString] at hread
  exact (Option.some.inj hread).symm

end taurus.python
