import Mathlib.Data.List.Infix

namespace taurus.lib.history

variable {ω σ ε : Type}

/-- A system whose states `ω` carry a history of entries that only grows. `undo w w'`
takes the observable part of `w'` back to that of `w` and keeps the history. -/
structure Recorded (ω σ ε : Type) where
  view : ω → σ
  log : ω → List ε
  undo : ω → ω → ω
  view_undo : ∀ w w', view (undo w w') = view w
  log_undo : ∀ w w', log (undo w w') = log w'

/-- Steps in sequence, of which a stretch may be undone as a whole. -/
inductive Moves (R : Recorded ω σ ε) (Step : ω → ω → Prop) : ω → ω → Prop
  | refl (w : ω) : Moves R Step w w
  | step {w w' : ω} (h : Step w w') : Moves R Step w w'
  | trans {w₁ w₂ w₃ : ω} (h : Moves R Step w₁ w₂) (h' : Moves R Step w₂ w₃) : Moves R Step w₁ w₃
  | undo {w w' : ω} (h : Moves R Step w w') : Moves R Step w (R.undo w w')

namespace Moves

variable {R : Recorded ω σ ε} {Step : ω → ω → Prop}

/-- The history only grows. -/
theorem log_grows (hstep : ∀ w w', Step w w' → R.log w <+: R.log w') {w w' : ω}
    (h : Moves R Step w w') : R.log w <+: R.log w' := by
  induction h with
  | refl w => exact List.prefix_refl _
  | step h => exact hstep _ _ h
  | trans _ _ ih ih' => exact ih.trans ih'
  | undo _ ih => simpa only [R.log_undo] using ih

/-- The invariant rule: `T` speaks of the observable part, and each step may
assume that all entries recorded so far satisfy `C`. -/
theorem invariant {C : ε → Prop} {T : σ → Prop}
    (hlog : ∀ w w', Step w w' → R.log w <+: R.log w')
    (hstep : ∀ w w', Step w w' → (∀ e ∈ R.log w', C e) → T (R.view w) → T (R.view w'))
    {w w' : ω} (h : Moves R Step w w') (hC : ∀ e ∈ R.log w', C e) (hT : T (R.view w)) :
    T (R.view w') := by
  induction h with
  | refl w => exact hT
  | step h => exact hstep _ _ h hC hT
  | trans h h' ih ih' =>
    have hmid := ih (fun e he => hC e ((h'.log_grows hlog).subset he)) hT
    exact ih' hC hmid
  | undo h ih => simpa only [R.view_undo] using hT

/-- The invariant rule where the state and the history depend on each other. -/
theorem joint {P : ε → Prop} {T : σ → Prop}
    (hstep : ∀ w w', Step w w' → T (R.view w) → (∀ e ∈ R.log w, P e) →
      T (R.view w') ∧ ∀ e ∈ R.log w', P e)
    {w w' : ω} (h : Moves R Step w w') (hT : T (R.view w)) (hP : ∀ e ∈ R.log w, P e) :
    T (R.view w') ∧ ∀ e ∈ R.log w', P e := by
  induction h with
  | refl w => exact ⟨hT, hP⟩
  | step h => exact hstep _ _ h hT hP
  | trans h h' ih ih' =>
    obtain ⟨hTmid, hPmid⟩ := ih hT hP
    exact ih' hTmid hPmid
  | undo h ih =>
    rw [R.view_undo, R.log_undo]
    exact ⟨hT, (ih hT hP).2⟩

/-- The same for a relation between two states, which holds where nothing but the
history has changed. -/
theorem relation {C : ε → Prop} {D : ω → ω → Prop}
    (hsame : ∀ w w', R.view w' = R.view w → R.log w <+: R.log w' → D w w')
    (htrans : ∀ w₁ w₂ w₃, D w₁ w₂ → D w₂ w₃ → R.log w₂ <+: R.log w₃ → D w₁ w₃)
    (hlog : ∀ w w', Step w w' → R.log w <+: R.log w')
    (hstep : ∀ w w', Step w w' → (∀ e ∈ R.log w', C e) → D w w')
    {w w' : ω} (h : Moves R Step w w') (hC : ∀ e ∈ R.log w', C e) : D w w' := by
  induction h with
  | refl w => exact hsame w w rfl (List.prefix_refl _)
  | step h => exact hstep _ _ h hC
  | trans h h' ih ih' =>
    have hgrows := h'.log_grows hlog
    exact htrans _ _ _ (ih fun e he => hC e (hgrows.subset he)) (ih' hC) hgrows
  | @undo w w' h ih =>
    refine hsame w _ (R.view_undo w w') ?_
    rw [R.log_undo]
    exact h.log_grows hlog

/-- What every entry satisfies: each step adds only entries with `P` where the
invariant `T` and the condition `C` on all entries so far hold. -/
theorem entries {C P : ε → Prop} {T : σ → Prop}
    (hlog : ∀ w w', Step w w' → R.log w <+: R.log w')
    (hstep : ∀ w w', Step w w' → (∀ e ∈ R.log w', C e) → T (R.view w) → T (R.view w'))
    (hentry : ∀ w w', Step w w' → (∀ e ∈ R.log w', C e) → T (R.view w) → (∀ e ∈ R.log w, P e) →
      ∀ e ∈ R.log w', P e)
    {w w' : ω} (h : Moves R Step w w') (hC : ∀ e ∈ R.log w', C e) (hT : T (R.view w))
    (hP : ∀ e ∈ R.log w, P e) : ∀ e ∈ R.log w', P e := by
  induction h with
  | refl w => exact hP
  | step h => exact hentry _ _ h hC hT hP
  | trans h h' ih ih' =>
    have hCmid := fun e he => hC e ((h'.log_grows hlog).subset he)
    exact ih' hC (invariant hlog hstep h hCmid hT) (ih hCmid hT hP)
  | undo h ih =>
    rw [R.log_undo] at hC ⊢
    exact ih hC hT hP

end Moves

end taurus.lib.history
