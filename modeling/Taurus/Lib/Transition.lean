import Mathlib.Logic.Relation

namespace taurus.lib.transition

variable {σ α : Type} {step : σ → α → Option σ} {C D : σ → α → Prop} {s s' : σ}

/-- The runs of a labelled transition system all of whose steps meet `C`. -/
def Runs (step : σ → α → Option σ) (C : σ → α → Prop) : σ → σ → Prop :=
  Relation.ReflTransGen fun s s' => ∃ a, C s a ∧ step s a = some s'

namespace Runs

theorem refl (s : σ) : Runs step C s s := Relation.ReflTransGen.refl

theorem tail {s'' : σ} {a : α} (h : Runs step C s s') (hC : C s' a) (ha : step s' a = some s'') :
    Runs step C s s'' := Relation.ReflTransGen.tail h ⟨a, hC, ha⟩

theorem head {s'' : σ} {a : α} (hC : C s a) (ha : step s a = some s') (h : Runs step C s' s'') :
    Runs step C s s'' :=
  Relation.ReflTransGen.head ⟨a, hC, ha⟩ h

theorem mono (hCD : ∀ s a, C s a → D s a) (h : Runs step C s s') : Runs step D s s' :=
  Relation.ReflTransGen.mono (fun _ _ ⟨a, hC, ha⟩ => ⟨a, hCD _ a hC, ha⟩) _ _ h

/-- The invariant rule: what every step that meets `C` keeps holds along every run. -/
theorem invariant {I : σ → Prop} (hstep : ∀ s a s', I s → C s a → step s a = some s' → I s')
    (h : Runs step C s s') (hs : I s) : I s' := by
  induction h with
  | refl => exact hs
  | tail _ hlast ih =>
    obtain ⟨a, hC, ha⟩ := hlast
    exact hstep _ a _ ih hC ha

end Runs

/-- Take the steps of a list, as long as they meet `C`. -/
def exec (step : σ → α → Option σ) (C : σ → α → Prop) [∀ s a, Decidable (C s a)] :
    σ → List α → Option σ
  | s, [] => some s
  | s, a :: rest => if C s a then (step s a).bind fun s => exec step C s rest else none

theorem runs_of_exec [∀ s a, Decidable (C s a)] {as : List α} (h : exec step C s as = some s') :
    Runs step C s s' := by
  induction as generalizing s with
  | nil =>
    obtain rfl := Option.some.inj h
    exact .refl s
  | cons a rest ih =>
    unfold exec at h
    by_cases hC : C s a
    · rw [if_pos hC] at h
      obtain ⟨t, ha, hrest⟩ := Option.bind_eq_some_iff.mp h
      exact Relation.ReflTransGen.head ⟨a, hC, ha⟩ (ih hrest)
    · rw [if_neg hC] at h
      cases h

/-- A run whose last state passes a test. -/
theorem exists_run_of_exec [∀ s a, Decidable (C s a)] (as : List α) {p : σ → Bool}
    (h : (exec step C s as).any p = true) : ∃ s', Runs step C s s' ∧ p s' = true := by
  obtain ⟨s', hs', hp⟩ := (Option.any_eq_true _ _).mp h
  exact ⟨s', runs_of_exec hs', hp⟩

/-- `P` holds of every step of a deterministic run. -/
def Along (next : σ → α → σ) (P : σ → α → Prop) : σ → List α → Prop
  | _, [] => True
  | s, a :: rest => P s a ∧ Along next P (next s a) rest

namespace Along

variable {next : σ → α → σ} {P Q : σ → α → Prop}

instance decidable [∀ s a, Decidable (P s a)] :
    ∀ (s : σ) (as : List α), Decidable (Along next P s as)
  | _, [] => inferInstanceAs (Decidable True)
  | s, a :: rest => haveI := decidable (next s a) rest; inferInstanceAs (Decidable (P s a ∧ _))

/-- Two properties that agree while an invariant holds agree along a run. A step may use
that it has the properties. -/
theorem iff_of_invariant {J : σ → Prop} (hstep : ∀ s a, J s → P s a → J (next s a))
    (hiff : ∀ s a, J s → (P s a ↔ Q s a)) {as : List α} (hs : J s) :
    Along next P s as ↔ Along next Q s as := by
  induction as generalizing s with
  | nil => exact Iff.rfl
  | cons a rest ih =>
    unfold Along
    rw [← hiff s a hs]
    exact and_congr_right fun hP => ih (hstep s a hs hP)

end Along

end taurus.lib.transition
