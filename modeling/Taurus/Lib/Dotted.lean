import Mathlib.Data.String.Basic
import Mathlib.Tactic.Linarith

/-! Numbers in dotted decimal notation: the order of the texts and the order of the values. -/

namespace taurus.lib.dotted

variable {xs ys : List Nat} {x y base : Nat}

/-- The decimal numerals of the numbers with dots between them. -/
def text : List Nat → List Char
  | [] => []
  | [x] => Nat.toDigits 10 x
  | x :: rest => Nat.toDigits 10 x ++ '.' :: text rest

/-- The numbers as the digits of one, the first being the highest. -/
def value (base : Nat) : List Nat → Nat
  | [] => 0
  | x :: rest => x * base ^ rest.length + value base rest

/-- The first place where two lists differ. -/
def first_difference : List Nat → List Nat → Option (Nat × Nat)
  | x :: xs, y :: ys => if x = y then first_difference xs ys else some (x, y)
  | _, _ => none

theorem dot_lt_of_isDigit {c : Char} (h : c.isDigit = true) : '.' < c := by
  simp only [Char.isDigit, Bool.and_eq_true, decide_eq_true_eq] at h
  exact Nat.lt_of_lt_of_le (by decide : '.'.toNat < '0'.toNat) h.1

theorem toDigits_injective (h : Nat.toDigits 10 x = Nat.toDigits 10 y) : x = y := by
  rw [← Nat.ofDigitChars_ten_toDigits (n := x), h, Nat.ofDigitChars_ten_toDigits]

theorem dot_lt_of_mem_toDigits {c : Char} (h : c ∈ Nat.toDigits 10 x) : '.' < c :=
  dot_lt_of_isDigit (Nat.isDigit_of_mem_toDigits (by decide) (by decide) h)

/-- Two different numerals, each followed by a dot or by nothing, are compared by themselves. -/
theorem append_lt_append_iff {as bs r s : List Char} (hne : as ≠ bs) (ha : ∀ c ∈ as, '.' < c)
    (hb : ∀ c ∈ bs, '.' < c) :
    as ++ '.' :: r < bs ++ '.' :: s ↔ as < bs := by
  induction as generalizing bs with
  | nil =>
    cases bs with
    | nil => exact absurd rfl hne
    | cons b rest =>
      have hdot := hb b List.mem_cons_self
      simp [List.cons_lt_cons_iff, hdot]
  | cons a as ih =>
    cases bs with
    | nil =>
      have hdot := ha a List.mem_cons_self
      simp [List.cons_lt_cons_iff, hdot.not_gt, hdot.ne']
    | cons b bs =>
      rw [List.cons_append, List.cons_append, List.cons_lt_cons_iff, List.cons_lt_cons_iff]
      by_cases hab : a = b
      · subst hab
        rw [ih (fun h => hne (congrArg _ h)) (fun c hc => ha c (List.mem_cons_of_mem _ hc))
          fun c hc => hb c (List.mem_cons_of_mem _ hc)]
      · simp [hab]

theorem append_lt_append_left (as : List Char) {r s : List Char} : as ++ r < as ++ s ↔ r < s := by
  induction as with
  | nil => rfl
  | cons a as ih => rw [List.cons_append, List.cons_append, List.cons_lt_cons_self, ih]

theorem first_difference_cons_self :
    first_difference (x :: xs) (x :: ys) = first_difference xs ys := if_pos rfl

theorem first_difference_cons_of_ne (h : x ≠ y) :
    first_difference (x :: xs) (y :: ys) = some (x, y) := if_neg h

theorem exists_first_difference_of_ne {p : Nat → Nat → Prop} (h : x ≠ y) :
    (∃ a b, first_difference (x :: xs) (y :: ys) = some (a, b) ∧ p a b) ↔ p x y := by
  rw [first_difference_cons_of_ne h]
  constructor
  · rintro ⟨a, b, heq, hp⟩
    obtain ⟨rfl, rfl⟩ := Prod.mk.inj (Option.some.inj heq)
    exact hp
  · exact fun hp => ⟨x, y, rfl, hp⟩

theorem ne_of_first_difference (h : first_difference xs ys = some (x, y)) : x ≠ y := by
  induction xs generalizing ys with
  | nil => cases h
  | cons a xs ih =>
    cases ys with
    | nil => cases h
    | cons b ys =>
      by_cases hab : a = b
      · subst hab
        exact ih (first_difference_cons_self.symm.trans h)
      · rw [first_difference_cons_of_ne hab] at h
        obtain ⟨rfl, rfl⟩ := Prod.mk.inj (Option.some.inj h)
        exact hab

theorem first_difference_swap (h : first_difference xs ys = some (x, y)) :
    first_difference ys xs = some (y, x) := by
  induction xs generalizing ys with
  | nil => cases h
  | cons a xs ih =>
    cases ys with
    | nil => cases h
    | cons b ys =>
      by_cases hab : a = b
      · subst hab
        exact first_difference_cons_self.trans (ih (first_difference_cons_self.symm.trans h))
      · rw [first_difference_cons_of_ne hab] at h
        obtain ⟨rfl, rfl⟩ := Prod.mk.inj (Option.some.inj h)
        exact first_difference_cons_of_ne (Ne.symm hab)

theorem eq_of_no_difference (hlength : xs.length = ys.length)
    (h : first_difference xs ys = none) : xs = ys := by
  induction xs generalizing ys with
  | nil => exact (List.length_eq_zero_iff.mp hlength.symm).symm
  | cons a xs ih =>
    obtain ⟨b, ys, rfl⟩ := List.exists_cons_of_length_eq_add_one hlength.symm
    by_cases hab : a = b
    · subst hab
      rw [ih (Nat.succ.inj hlength) (first_difference_cons_self.symm.trans h)]
    · rw [first_difference_cons_of_ne hab] at h
      cases h

/-- The numerals in the first place where the numbers differ stand in another order than these. -/
def Misordered (xs ys : List Nat) : Prop :=
  ∃ x y, first_difference xs ys = some (x, y) ∧ ¬ (x < y ↔ Nat.toDigits 10 x < Nat.toDigits 10 y)

instance : DecidableRel Misordered := fun xs ys =>
  match h : first_difference xs ys with
  | none => isFalse (by simp [Misordered, h])
  | some (x, y) =>
    decidable_of_iff (¬ (x < y ↔ Nat.toDigits 10 x < Nat.toDigits 10 y)) (by simp [Misordered, h])

/-- The texts are compared by the numerals in the first place where the numbers differ. -/
theorem text_lt_iff (hlength : xs.length = ys.length) :
    text xs < text ys ↔ ∃ x y, first_difference xs ys = some (x, y) ∧
      Nat.toDigits 10 x < Nat.toDigits 10 y := by
  induction xs generalizing ys with
  | nil =>
    obtain rfl := List.length_eq_zero_iff.mp hlength.symm
    simp [text, first_difference]
  | cons x xs ih =>
    obtain ⟨y, ys, rfl⟩ := List.exists_cons_of_length_eq_add_one hlength.symm
    have hrest : xs.length = ys.length := Nat.succ.inj hlength
    by_cases hxy : x = y
    · subst hxy
      rw [first_difference_cons_self, ← ih hrest]
      cases xs with
      | nil =>
        obtain rfl := List.length_eq_zero_iff.mp hrest.symm
        simp [text]
      | cons x' xs =>
        obtain ⟨y', ys, rfl⟩ := List.exists_cons_of_length_eq_add_one hrest.symm
        have hdotted : ∀ z zs, text (x :: z :: zs) = Nat.toDigits 10 x ++ '.' :: text (z :: zs) :=
          fun _ _ => rfl
        rw [hdotted, hdotted, append_lt_append_left, List.cons_lt_cons_self]
    · rw [exists_first_difference_of_ne hxy]
      cases xs with
      | nil =>
        obtain rfl := List.length_eq_zero_iff.mp hrest.symm
        rfl
      | cons x' xs =>
        obtain ⟨y', ys, rfl⟩ := List.exists_cons_of_length_eq_add_one hrest.symm
        exact append_lt_append_iff (fun h => hxy (toDigits_injective h))
          (fun _ => dot_lt_of_mem_toDigits)
          fun _ => dot_lt_of_mem_toDigits

theorem value_lt_pow (hxs : ∀ x ∈ xs, x < base) : value base xs < base ^ xs.length := by
  induction xs with
  | nil => exact Nat.one_pos
  | cons x xs ih =>
    obtain ⟨hx, hrest⟩ := List.forall_mem_cons.mp hxs
    have hvalue := ih hrest
    calc value base (x :: xs) = x * base ^ xs.length + value base xs := rfl
      _ < x * base ^ xs.length + base ^ xs.length := by omega
      _ = (x + 1) * base ^ xs.length := by rw [Nat.succ_mul]
      _ ≤ base * base ^ xs.length := Nat.mul_le_mul_right _ hx
      _ = base ^ (x :: xs).length := by rw [List.length_cons, Nat.pow_succ, Nat.mul_comm]

/-- A number that is smaller in the first place makes a smaller value. -/
theorem value_cons_lt (hlength : xs.length = ys.length) (hxs : ∀ x ∈ xs, x < base) (hxy : x < y) :
    value base (x :: xs) < value base (y :: ys) := by
  have hvalue := value_lt_pow hxs
  calc value base (x :: xs) = x * base ^ xs.length + value base xs := rfl
    _ < x * base ^ xs.length + base ^ xs.length := by omega
    _ = (x + 1) * base ^ xs.length := by rw [Nat.succ_mul]
    _ ≤ y * base ^ xs.length := Nat.mul_le_mul_right _ hxy
    _ ≤ y * base ^ ys.length + value base ys := by rw [hlength]; exact Nat.le_add_right _ _

/-- The values are compared by the numbers in the first place where these differ. -/
theorem value_lt_iff (hlength : xs.length = ys.length) (hxs : ∀ x ∈ xs, x < base)
    (hys : ∀ y ∈ ys, y < base) :
    value base xs < value base ys ↔ ∃ x y, first_difference xs ys = some (x, y) ∧ x < y := by
  induction xs generalizing ys with
  | nil =>
    obtain rfl := List.length_eq_zero_iff.mp hlength.symm
    simp [first_difference]
  | cons x xs ih =>
    obtain ⟨y, ys, rfl⟩ := List.exists_cons_of_length_eq_add_one hlength.symm
    have hrest : xs.length = ys.length := Nat.succ.inj hlength
    obtain ⟨-, hxs'⟩ := List.forall_mem_cons.mp hxs
    obtain ⟨-, hys'⟩ := List.forall_mem_cons.mp hys
    by_cases hxy : x = y
    · subst hxy
      rw [first_difference_cons_self, ← ih hrest hxs' hys', value, value, hrest]
      omega
    · rw [exists_first_difference_of_ne hxy]
      constructor
      · intro hlt
        by_contra hnot
        have hgt := value_cons_lt hrest.symm hys' (show y < x by omega)
        omega
      · exact value_cons_lt hrest hxs'

/-- The texts stand in the order of the values or, if they are misordered, in the other one. -/
theorem text_lt_iff_value (hlength : xs.length = ys.length) (hxs : ∀ x ∈ xs, x < base)
    (hys : ∀ y ∈ ys, y < base) :
    text xs < text ys ↔ (value base xs < value base ys ↔ ¬ Misordered xs ys) := by
  rw [text_lt_iff hlength, value_lt_iff hlength hxs hys]
  unfold Misordered
  cases h : first_difference xs ys with
  | none => simp
  | some p =>
    obtain ⟨x, y⟩ := p
    simp only [Option.some.injEq, Prod.mk.injEq, and_assoc, exists_and_left, exists_eq_left']
    tauto

theorem text_injective (hlength : xs.length = ys.length) (h : text xs = text ys) : xs = ys := by
  cases hdiff : first_difference xs ys with
  | none => exact eq_of_no_difference hlength hdiff
  | some p =>
    obtain ⟨x, y⟩ := p
    have hirrefl := List.lt_irrefl (text ys)
    obtain hlt | heq | hgt := lt_trichotomy (Nat.toDigits 10 x) (Nat.toDigits 10 y)
    · have htext := (text_lt_iff hlength).mpr ⟨x, y, hdiff, hlt⟩
      exact absurd (h ▸ htext) hirrefl
    · exact absurd (toDigits_injective heq) (ne_of_first_difference hdiff)
    · have htext := (text_lt_iff hlength.symm).mpr ⟨y, x, first_difference_swap hdiff, hgt⟩
      exact absurd (h ▸ htext) hirrefl

end taurus.lib.dotted
