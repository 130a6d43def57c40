import Mathlib.Tactic.SplitIfs
import Taurus.Lib.Program

/-! Loops whose turns may raise, and computations that run out of a resource. -/

namespace taurus.lib.loops

variable {σ ε α β : Type}

/-- `while`, for at most `turns` turns: a turn goes on with a new state or leaves with a result,
and `out` is raised by a loop that has not left by then. -/
def loop (out : ε) (step : σ → Except ε (σ ⊕ β)) : Nat → σ → Except ε β
  | 0, _ => .error out
  | turns + 1, s =>
    match step s with
    | .error e => .error e
    | .ok (.inl s') => loop out step turns s'
    | .ok (.inr b) => .ok b

/-- The states that a loop comes to. -/
inductive Comes (step : σ → Except ε (σ ⊕ β)) (s : σ) : σ → Prop
  | start : Comes step s s
  | turn {s' s'' : σ} (h : Comes step s s') (hstep : step s' = .ok (.inl s'')) : Comes step s s''

section rules

variable {out : ε} {step : σ → Except ε (σ ⊕ β)} {I : σ → Prop} {μ : σ → Nat}

/-- Each turn keeps the invariant and makes the measure smaller. -/
def Advances (step : σ → Except ε (σ ⊕ β)) (I : σ → Prop) (μ : σ → Nat) : Prop :=
  ∀ s s', I s → step s = .ok (.inl s') → I s' ∧ μ s' < μ s

theorem Comes.inv (hadvances : Advances step I μ) {s s' : σ} (h : Comes step s s')
    (hs : I s) : I s' := by
  induction h with
  | start => exact hs
  | turn _ hstep ih => exact (hadvances _ _ ih hstep).1

/-- What holds of the ends of a loop that comes to its end: of what its last turn leaves with or
raises. -/
theorem loop_spec {Q : Except ε β → Prop} (hadvances : Advances step I μ)
    (hdone : ∀ s b, I s → step s = .ok (.inr b) → Q (.ok b))
    (herror : ∀ s e, I s → step s = .error e → Q (.error e)) {s : σ} (hs : I s) {turns : Nat}
    (hturns : μ s < turns) : Q (loop out step turns s) := by
  induction turns generalizing s with
  | zero => omega
  | succ turns ih =>
    rw [loop]
    cases hstep : step s with
    | error e => exact herror s e hs hstep
    | ok r =>
      cases r with
      | inl s' =>
        obtain ⟨hs', hless⟩ := hadvances s s' hs hstep
        exact ih hs' (by omega)
      | inr b => exact hdone s b hs hstep

/-- A loop goes on from every state it comes to, with turns enough. -/
theorem loop_of_comes (out : ε) (hadvances : Advances step I μ) {s s' : σ} (h : Comes step s s')
    (hs : I s) {turns : Nat} (hturns : μ s < turns) :
    ∃ turns', μ s' < turns' ∧ loop out step turns s = loop out step turns' s' := by
  induction h with
  | start => exact ⟨turns, hturns, rfl⟩
  | turn hcomes hstep ih =>
    obtain ⟨turns', hturns', heq⟩ := ih
    obtain ⟨-, hless⟩ := hadvances _ _ (hcomes.inv hadvances hs) hstep
    obtain ⟨rest, rfl⟩ : ∃ rest, turns' = rest + 1 := ⟨turns' - 1, by omega⟩
    refine ⟨rest, by omega, ?_⟩
    rw [heq, loop, hstep]

/-- An exception in a state that the loop comes to is an exception of the loop. -/
theorem loop_error_of_comes (hadvances : Advances step I μ) {s s' : σ} (h : Comes step s s')
    (hs : I s) {e : ε} (hstep : step s' = .error e) {turns : Nat} (hturns : μ s < turns) :
    loop out step turns s = .error e := by
  obtain ⟨turns', hturns', heq⟩ := loop_of_comes out hadvances h hs hturns
  obtain ⟨rest, rfl⟩ : ∃ rest, turns' = rest + 1 := ⟨turns' - 1, by omega⟩
  rw [heq, loop, hstep]

end rules

section raising

variable {ok : ε → Prop}

/-- Only these exceptions are raised. -/
def Within (ok : ε → Prop) (x : Except ε α) : Prop := ∀ e, x = .error e → ok e

theorem within_ok (a : α) : Within ok (.ok a : Except ε α) := nofun

theorem within_error {e : ε} (h : ok e) : Within ok (.error e : Except ε α) := by
  rintro _ ⟨⟩
  exact h

theorem Within.bind {x : Except ε α} {f : α → Except ε β} (hx : Within ok x)
    (hf : ∀ a, x = .ok a → Within ok (f a)) :
    Within ok (x >>= f) := by
  cases x with
  | error e => exact within_error (hx e rfl)
  | ok a => exact hf a rfl

theorem Within.of_bind {x : Except ε α} {f : α → Except ε β} (h : Within ok (x >>= f)) :
    Within ok x := by
  rintro e rfl
  exact h e rfl

theorem within_ite (p : Prop) [Decidable p] {x y : Except ε α} (hx : p → Within ok x)
    (hy : ¬p → Within ok y) :
    Within ok (if p then x else y) := by
  split_ifs with h
  · exact hx h
  · exact hy h

end raising

section exhaustion

variable {e : ε}

/-- `x` is cut short with `e`, or it is what `x'` is. -/
def CutShort (e : ε) (x x' : Except ε α) : Prop := x = .error e ∨ x = x'

theorem CutShort.refl (x : Except ε α) : CutShort e x x := .inr rfl

theorem CutShort.trans {x x' x'' : Except ε α} (h : CutShort e x x') (h' : CutShort e x' x'') :
    CutShort e x x'' := by
  obtain hcut | rfl := h
  · exact .inl hcut
  · exact h'

theorem CutShort.bind {x x' : Except ε α} {f f' : α → Except ε β} (hx : CutShort e x x')
    (hf : ∀ a, CutShort e (f a) (f' a)) : CutShort e (x >>= f) (x' >>= f') := by
  obtain rfl | rfl := hx
  · exact .inl rfl
  · cases x with
    | error e' => exact .inr rfl
    | ok a => exact hf a

theorem cutShort_ite (p : Prop) [Decidable p] {x x' y y' : Except ε α} (hx : CutShort e x x')
    (hy : CutShort e y y') :
    CutShort e (if p then x else y) (if p then x' else y') := by
  split_ifs
  · exact hx
  · exact hy

theorem cutShort_loop {out : ε} {step step' : σ → Except ε (σ ⊕ β)}
    (h : ∀ s, CutShort e (step s) (step' s)) (turns : Nat) (s : σ) :
    CutShort e (loop out step turns s) (loop out step' turns s) := by
  induction turns generalizing s with
  | zero => exact .refl _
  | succ turns ih =>
    rw [loop, loop]
    obtain hcut | hsame := h s
    · rw [hcut]
      exact .inl rfl
    · rw [hsame]
      cases step' s with
      | error e' => exact .refl _
      | ok r =>
        cases r with
        | inl s' => exact ih s'
        | inr b => exact .refl _

/-- Two ways to be the same thing, neither of them cut short. -/
theorem CutShort.eq {x x' : Except ε α} (h : CutShort e x x') (hx : x ≠ .error e) : x = x' :=
  h.resolve_left hx

end exhaustion

end taurus.lib.loops
