import Mathlib.Data.String.Basic
import Mathlib.Tactic.Linarith

namespace taurus.python

/-- A naive `datetime.datetime`. -/
structure DateTime where
  year : Fin 10000
  month : Fin 13
  day : Fin 32
  hour : Fin 24
  minute : Fin 60
  second : Fin 60
  microsecond : Fin 1000000
  deriving DecidableEq

/-- The last decimal digits of a number, as many as given, with leading zeros. -/
def zero_padded : Nat → Nat → List Char
  | 0, _ => []
  | width + 1, n => Nat.digitChar (n / 10 ^ width % 10) :: zero_padded width (n % 10 ^ width)

namespace DateTime

/-- The fraction of the second, which is left out when it is zero. -/
def fraction (t : DateTime) : List Char :=
  if t.microsecond.val = 0 then [] else '.' :: zero_padded 6 t.microsecond

/-- `t.isoformat()` -/
def isoformat (t : DateTime) : String :=
  String.ofList (zero_padded 4 t.year ++ '-' ::
    (zero_padded 2 t.month ++ '-' :: (zero_padded 2 t.day ++ 'T' ::
    (zero_padded 2 t.hour ++ ':' :: (zero_padded 2 t.minute ++ ':' :: (zero_padded 2 t.second ++ t.fraction))))))

/-- The order of time, field by field. -/
def before (s t : DateTime) : Prop :=
  s.year < t.year ∨ s.year = t.year ∧
  (s.month < t.month ∨ s.month = t.month ∧ (s.day < t.day ∨ s.day = t.day ∧
    (s.hour < t.hour ∨ s.hour = t.hour ∧ (s.minute < t.minute ∨ s.minute = t.minute ∧
      (s.second < t.second ∨ s.second = t.second ∧ s.microsecond < t.microsecond)))))

end DateTime

theorem length_zero_padded (width n : Nat) : (zero_padded width n).length = width := by
  induction width generalizing n with
  | zero => rfl
  | succ width ih => rw [zero_padded, List.length_cons, ih]

theorem digitChar_lt_iff :
    ∀ m < 10, ∀ n < 10, Nat.digitChar m < Nat.digitChar n ↔ m < n := by decide

theorem digitChar_inj : ∀ m < 10, ∀ n < 10, Nat.digitChar m = Nat.digitChar n ↔ m = n := by decide

/-- Numbers are compared by quotient and remainder. -/
theorem div_mod_lt_iff {m n d : Nat} (hd : 0 < d) :
    m / d < n / d ∨ m / d = n / d ∧ m % d < n % d ↔ m < n := by
  have hm := Nat.div_add_mod m d
  have hn := Nat.div_add_mod n d
  have hmd := Nat.mod_lt m hd
  have hnd := Nat.mod_lt n hd
  obtain hlt | heq | hgt := Nat.lt_trichotomy (m / d) (n / d)
  · have hstep : d * (m / d) + d ≤ d * (n / d) := by
      rw [← Nat.mul_succ]; exact Nat.mul_le_mul_left d hlt
    exact iff_of_true (Or.inl hlt) (by omega)
  · rw [heq] at hm
    simp only [heq, Nat.lt_irrefl, false_or, true_and]
    omega
  · have hstep : d * (n / d) + d ≤ d * (m / d) := by
      rw [← Nat.mul_succ]; exact Nat.mul_le_mul_left d hgt
    exact iff_of_false (by omega) (by omega)

/-- Numerals of one width are in the order of the numbers. -/
theorem zero_padded_lt_iff {width m n : Nat} (hm : m < 10 ^ width) (hn : n < 10 ^ width) :
    zero_padded width m < zero_padded width n ↔ m < n := by
  induction width generalizing m n with
  | zero =>
    rw [Nat.pow_zero] at hm hn
    obtain rfl : m = n := by omega
    simp
  | succ width ih =>
    have hpos : 0 < 10 ^ width := Nat.pow_pos (by decide)
    have hqm : m / 10 ^ width < 10 := Nat.div_lt_of_lt_mul (by rwa [Nat.pow_succ] at hm)
    have hqn : n / 10 ^ width < 10 := Nat.div_lt_of_lt_mul (by rwa [Nat.pow_succ] at hn)
    rw [zero_padded, zero_padded, List.cons_lt_cons_iff, ih (Nat.mod_lt m hpos) (Nat.mod_lt n hpos),
      Nat.mod_eq_of_lt hqm, Nat.mod_eq_of_lt hqn, digitChar_lt_iff _ hqm _ hqn,
      digitChar_inj _ hqm _ hqn]
    exact div_mod_lt_iff hpos

theorem zero_padded_inj {width m n : Nat} (hm : m < 10 ^ width) (hn : n < 10 ^ width) :
    zero_padded width m = zero_padded width n ↔ m = n := by
  constructor
  · intro h
    have hmn := (zero_padded_lt_iff hm hn).not.mp (h ▸ List.lt_irrefl _)
    have hnm := (zero_padded_lt_iff hn hm).not.mp (h ▸ List.lt_irrefl _)
    omega
  · exact congrArg _

/-- Texts that begin with parts of one length are compared by these first. -/
theorem append_lt_append_of_length_eq {as bs r s : List Char} (h : as.length = bs.length) :
    as ++ r < bs ++ s ↔ as < bs ∨ as = bs ∧ r < s := by
  induction as generalizing bs with
  | nil =>
    obtain rfl := List.length_eq_zero_iff.mp h.symm
    simp
  | cons a as ih =>
    obtain ⟨b, bs, rfl⟩ := List.exists_cons_of_length_eq_add_one h.symm
    rw [List.cons_append, List.cons_append, List.cons_lt_cons_iff, List.cons_lt_cons_iff,
      ih (Nat.succ.inj h), List.cons.injEq]
    tauto

/-- A field in a text with what follows it. -/
theorem field_lt_iff {width m n : Nat} (hm : m < 10 ^ width) (hn : n < 10 ^ width) (c : Char)
    {r s : List Char} :
    zero_padded width m ++ c :: r < zero_padded width n ++ c :: s ↔ m < n ∨ m = n ∧ r < s := by
  rw [append_lt_append_of_length_eq (by rw [length_zero_padded, length_zero_padded]),
    zero_padded_lt_iff hm hn, zero_padded_inj hm hn, List.cons_lt_cons_self]

namespace DateTime

theorem fraction_lt_iff (s t : DateTime) :
    s.fraction < t.fraction ↔ s.microsecond < t.microsecond := by
  rw [Fin.lt_def]
  unfold fraction
  split_ifs with hs ht ht
  · simp [hs, ht]
  · simp only [List.nil_lt_cons, hs, true_iff]
    omega
  · simp [ht]
  · rw [List.cons_lt_cons_self]
    exact zero_padded_lt_iff s.microsecond.isLt t.microsecond.isLt

/-- The texts are in the order of time. -/
theorem isoformat_lt_iff (s t : DateTime) : s.isoformat < t.isoformat ↔ s.before t := by
  have hmonth : ∀ m : Fin 13, m.val < 10 ^ 2 := fun m => by omega
  have hday : ∀ d : Fin 32, d.val < 10 ^ 2 := fun d => by omega
  have hhour : ∀ h : Fin 24, h.val < 10 ^ 2 := fun h => by omega
  have hsixty : ∀ m : Fin 60, m.val < 10 ^ 2 := fun m => by omega
  unfold isoformat before
  rw [String.lt_iff_toList_lt, String.toList_ofList, String.toList_ofList,
    field_lt_iff s.year.isLt t.year.isLt, field_lt_iff (hmonth _) (hmonth _),
    field_lt_iff (hday _) (hday _), field_lt_iff (hhour _) (hhour _), field_lt_iff (hsixty _)
      (hsixty _), append_lt_append_of_length_eq (by rw [length_zero_padded, length_zero_padded]),
    zero_padded_lt_iff (hsixty _) (hsixty _), zero_padded_inj (hsixty _) (hsixty _),
      fraction_lt_iff]
  simp only [Fin.lt_def, Fin.ext_iff]

end DateTime

end taurus.python
