import Mathlib.Data.List.Basic
import Mathlib.Logic.Function.Basic

/-! Fields joined by a separator, one of which, the mark, never contains it. -/

namespace taurus.lib

variable {α β : Type} {sep : α} {word : β → List α}

/-- Joining nonempty lists of fields one after the other. -/
theorem intercalate_append_cons (xs ys : List (List α)) (x y : List α) :
    [sep].intercalate ((x :: xs) ++ y :: ys) =
      [sep].intercalate (x :: xs) ++ sep :: [sep].intercalate (y :: ys) := by
  induction xs generalizing x with
  | nil => simp [List.intercalate_cons_cons]
  | cons z zs ih =>
    rw [List.cons_append, List.cons_append, List.intercalate_cons_cons, List.intercalate_cons_cons,
      ← List.cons_append, ih]
    simp

/-- What stands before and after the first separator. -/
theorem append_cons_inj_of_not_mem {xs ys rest rest' : List α} (hxs : sep ∉ xs) (hys : sep ∉ ys)
    (h : xs ++ sep :: rest = ys ++ sep :: rest') : xs = ys ∧ rest = rest' := by
  induction xs generalizing ys with
  | nil =>
    cases ys with
    | nil => exact ⟨rfl, (List.cons.inj h).2⟩
    | cons y ys => exact absurd (List.cons.inj h).1 (List.ne_of_not_mem_cons hys)
  | cons x xs ih =>
    cases ys with
    | nil => exact absurd (List.cons.inj h).1.symm (List.ne_of_not_mem_cons hxs)
    | cons y ys =>
      obtain ⟨rfl, htail⟩ := List.cons.inj h
      obtain ⟨rfl, hrest⟩ :=
        ih (List.not_mem_of_not_mem_cons hxs) (List.not_mem_of_not_mem_cons hys) htail
      exact ⟨rfl, hrest⟩

/-- What stands before and after the last separator. -/
theorem append_cons_inj_of_not_mem_right {xs ys rest rest' : List α} (hrest : sep ∉ rest)
    (hrest' : sep ∉ rest') (h : xs ++ sep :: rest = ys ++ sep :: rest') :
    xs = ys ∧ rest = rest' := by
  have hreverse : rest.reverse ++ sep :: xs.reverse = rest'.reverse ++ sep :: ys.reverse := by
    simpa using congrArg List.reverse h
  obtain ⟨hlast, hfront⟩ :=
    append_cons_inj_of_not_mem (by simpa using hrest) (by simpa using hrest') hreverse
  exact ⟨List.reverse_injective hfront, List.reverse_injective hlast⟩

/-- Two ways to cut a text at a separator: one of them cuts later, at a separator in
the rest of the other. -/
theorem append_cons_eq_append_cons_iff {xs ys rest rest' : List α} :
    xs ++ sep :: rest = ys ++ sep :: rest' ↔
      (xs = ys ∧ rest = rest') ∨ (∃ u, ys = xs ++ sep :: u ∧ rest = u ++ sep :: rest') ∨
        ∃ u, xs = ys ++ sep :: u ∧ rest' = u ++ sep :: rest := by
  constructor
  · intro h
    obtain ⟨u, rfl, hu⟩ | ⟨u, rfl, hu⟩ := List.append_eq_append_iff.mp h
    · cases u with
      | nil => exact .inl ⟨(List.append_nil _).symm, (List.cons.inj hu).2⟩
      | cons c u =>
        obtain ⟨rfl, hrest⟩ := List.cons.inj hu
        exact .inr (.inl ⟨u, rfl, hrest⟩)
    · cases u with
      | nil => exact .inl ⟨List.append_nil _, (List.cons.inj hu).2.symm⟩
      | cons c u =>
        obtain ⟨rfl, hrest⟩ := List.cons.inj hu
        exact .inr (.inr ⟨u, rfl, hrest⟩)
  · rintro (⟨rfl, rfl⟩ | ⟨u, rfl, rfl⟩ | ⟨u, rfl, rfl⟩)
    · rfl
    · simp
    · simp

variable [DecidableEq α]

/-- A text that splits into one field is that field. -/
theorem splitOn_eq_singleton_iff {xs ys : List α} : xs.splitOn sep = [ys] ↔ xs = ys ∧ sep ∉ ys := by
  constructor
  · intro h
    have hjoin : [sep].intercalate (xs.splitOn sep) = xs := List.intercalate_splitOn sep
    rw [h, List.intercalate_singleton] at hjoin
    refine ⟨hjoin.symm, ?_⟩
    intro hmem
    obtain ⟨s, t, rfl⟩ := List.append_of_mem hmem
    rw [← hjoin, List.splitOn_append_cons_self] at h
    have hlength := congrArg List.length h
    have hs := List.length_pos_of_ne_nil (List.splitOn_ne_nil sep s)
    have ht := List.length_pos_of_ne_nil (List.splitOn_ne_nil sep t)
    simp only [List.length_append, List.length_singleton] at hlength
    omega
  · rintro ⟨rfl, hnot⟩
    exact List.splitOn_eq_singleton hnot

structure Frame (α β : Type) where
  front : List α
  mark : β
  middle : List α
  back : List α

namespace Frame

def encode (sep : α) (word : β → List α) (f : Frame α β) : List α :=
  f.front ++ sep :: (word f.mark ++ sep :: (f.middle ++ sep :: f.back))

/-- The fields after the mark do not contain the separator, and no later field of the
front reads as a mark. -/
def Unambiguous (sep : α) (word : β → List α) (f : Frame α β) : Prop :=
  sep ∉ f.middle ∧ sep ∉ f.back ∧ ∀ k, word k ∉ (f.front.splitOn sep).tail

theorem splitOn_encode (hword : ∀ k, sep ∉ word k) (f : Frame α β) :
    (f.encode sep word).splitOn sep =
      f.front.splitOn sep ++ word f.mark :: (f.middle.splitOn sep ++ f.back.splitOn sep) := by
  rw [encode, List.splitOn_append_cons_self,
    List.splitOn_append_cons_self_of_not_mem (hword f.mark), List.splitOn_append_cons_self]

/-- Another frame with the same encoding does not split its front into fewer fields. -/
theorem length_front_le {f g : Frame α β} (hword : ∀ k, sep ∉ word k) (hf : f.Unambiguous sep word)
    (h : g.encode sep word = f.encode sep word) :
    (f.front.splitOn sep).length ≤ (g.front.splitOn sep).length := by
  by_contra hshort
  have hfields := congrArg (List.splitOn sep) h
  rw [splitOn_encode hword, splitOn_encode hword] at hfields
  apply hf.2.2 g.mark
  have hpos := List.length_pos_of_ne_nil (List.splitOn_ne_nil sep g.front)
  have hat := congrArg (·[(g.front.splitOn sep).length]?) hfields
  simp only [List.getElem?_append_right (Nat.le_refl _), Nat.sub_self, List.getElem?_cons_zero,
    List.getElem?_append_left (Nat.lt_of_not_le hshort)] at hat
  apply List.mem_of_getElem? (i := (g.front.splitOn sep).length - 1)
  rw [List.getElem?_tail, Nat.sub_add_cancel hpos]
  exact hat.symm

theorem eq_of_encode_eq {f g : Frame α β} (hword : ∀ k, sep ∉ word k)
    (hinj : Function.Injective word) (hf : f.Unambiguous sep word)
    (h : g.encode sep word = f.encode sep word) : g = f := by
  have hfields := congrArg (List.splitOn sep) h
  rw [splitOn_encode hword, splitOn_encode hword, List.splitOn_eq_singleton hf.1,
    List.splitOn_eq_singleton hf.2.1] at hfields
  have hlength := congrArg List.length hfields
  have hmiddle := List.length_pos_of_ne_nil (List.splitOn_ne_nil sep g.middle)
  have hback := List.length_pos_of_ne_nil (List.splitOn_ne_nil sep g.back)
  have hfront := length_front_le hword hf h
  simp only [List.length_append, List.length_cons, List.length_nil] at hlength
  obtain ⟨hfronts, hrest⟩ := List.append_inj hfields (by omega)
  obtain ⟨hmark, htail⟩ := List.cons.inj hrest
  obtain ⟨hmiddles, hbacks⟩ := List.append_inj htail (by simp only [List.length_singleton]; omega)
  have heq := congrArg ([sep].intercalate) hfronts
  rw [List.intercalate_splitOn, List.intercalate_splitOn] at heq
  obtain ⟨front, mark, middle, back⟩ := g
  obtain rfl : front = f.front := heq
  obtain rfl := hinj hmark
  obtain rfl := (splitOn_eq_singleton_iff.mp hmiddles).1
  obtain rfl := (splitOn_eq_singleton_iff.mp hbacks).1
  rfl

/-- A later field of the front that reads as a mark starts another reading of the frame. -/
theorem exists_encode_eq_of_mark {f : Frame α β} {k : β}
    (hk : word k ∈ (f.front.splitOn sep).tail) :
    ∃ g : Frame α β, g.encode sep word = f.encode sep word ∧ g.front.length < f.front.length := by
  have hjoin : [sep].intercalate (f.front.splitOn sep) = f.front := List.intercalate_splitOn sep
  cases hfields : f.front.splitOn sep with
  | nil => exact absurd hfields (List.splitOn_ne_nil sep _)
  | cons first rest =>
    rw [hfields] at hk hjoin
    obtain ⟨before, after, hrest⟩ := List.append_of_mem hk
    simp only [List.tail_cons] at hrest
    subst hrest
    rw [← List.cons_append, intercalate_append_cons] at hjoin
    cases after with
    | nil =>
      rw [List.intercalate_singleton] at hjoin
      refine ⟨⟨[sep].intercalate (first :: before), k, word f.mark,
        f.middle ++ sep :: f.back⟩, ?_, ?_⟩
      · simp [encode, ← hjoin]
      · simp only [← hjoin, List.length_append, List.length_cons]
        omega
    | cons next after =>
      rw [List.intercalate_cons_cons] at hjoin
      refine ⟨⟨[sep].intercalate (first :: before), k, [sep].intercalate (next :: after),
        word f.mark ++ sep :: (f.middle ++ sep :: f.back)⟩, ?_, ?_⟩
      · simp [encode, ← hjoin]
      · simp only [← hjoin, List.length_append, List.length_cons]
        omega

/-- The encoding determines a frame exactly when the frame is unambiguous. -/
theorem determined_iff (hword : ∀ k, sep ∉ word k) (hinj : Function.Injective word)
    (f : Frame α β) :
    (∀ g : Frame α β, g.encode sep word = f.encode sep word → g = f) ↔ f.Unambiguous sep word := by
  refine ⟨fun h => ⟨?_, ?_, ?_⟩, fun hf g hg => eq_of_encode_eq hword hinj hf hg⟩
  · intro hmem
    obtain ⟨s, t, hst⟩ := List.append_of_mem hmem
    have heq := h { f with middle := s, back := t ++ sep :: f.back } (by simp [encode, hst])
    have hlength := congrArg (·.middle.length) heq
    simp [hst] at hlength
  · intro hmem
    obtain ⟨s, t, hst⟩ := List.append_of_mem hmem
    have heq := h { f with middle := f.middle ++ sep :: s, back := t } (by simp [encode, hst])
    have hlength := congrArg (·.back.length) heq
    simp only [hst, List.length_append, List.length_cons] at hlength
    omega
  · intro k hk
    obtain ⟨g, hg, hshort⟩ := exists_encode_eq_of_mark hk
    obtain rfl := h g hg
    exact Nat.lt_irrefl _ hshort

end Frame

end taurus.lib
