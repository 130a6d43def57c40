import Mathlib.Logic.Basic
import Taurus.Lib.Transition

namespace taurus.lib

/-- A bind of computations that may fail succeeds if both parts do. -/
theorem bind_eq_ok {ε α β : Type} {x : Except ε α} {f : α → Except ε β} {b : β} :
    x >>= f = .ok b ↔ ∃ a, x = .ok a ∧ f a = .ok b := by
  cases x <;> simp [bind, Except.bind]

/-- A program over a state `σ` that may stop with an exception `ε`. The state
reached before the exception is kept, as writes already made are. -/
def Prog (σ ε α : Type) : Type := σ → Except ε α × σ

namespace Prog

variable {σ ε α β : Type}

def ret (a : α) : Prog σ ε α := fun s => (.ok a, s)

def andThen (m : Prog σ ε α) (f : α → Prog σ ε β) : Prog σ ε β := fun s =>
  match m s with
  | (.ok a, s') => f a s'
  | (.error e, s') => (.error e, s')

instance : Monad (Prog σ ε) where
  pure := ret
  bind := andThen

def getState : Prog σ ε σ := fun s => (.ok s, s)

def modifyState (f : σ → σ) : Prog σ ε Unit := fun s => (.ok (), f s)

def raise (e : ε) : Prog σ ε α := fun s => (.error e, s)

/-- Re-raise the error of an already computed result. -/
def fromExcept : Except ε α → Prog σ ε α
  | .ok a => ret a
  | .error e => raise e

/-- A transaction: on an exception the state is rebuilt from the one at entry
and the one at the exception, and the exception goes on. -/
def atomic (rollback : σ → σ → σ) (m : Prog σ ε α) : Prog σ ε α := fun s =>
  match m s with
  | (.ok a, s') => (.ok a, s')
  | (.error e, s') => (.error e, rollback s s')

/-- Run `body` on every element in order, stopping at the first exception. -/
def forEach (body : α → Prog σ ε β) : List α → Prog σ ε (List β)
  | [] => ret []
  | a :: rest => andThen (body a) fun b => andThen (forEach body rest) fun bs => ret (b :: bs)

/-- Partial correctness: from a state with `P` the program either returns with
`Q` or stops with an exception in a state with `E`. -/
def Triple (P : σ → Prop) (m : Prog σ ε α) (Q : α → σ → Prop) (E : σ → Prop) : Prop :=
  ∀ s, P s → match m s with
    | (.ok a, s') => Q a s'
    | (.error _, s') => E s'

theorem Triple.state {P : σ → Prop} {m : Prog σ ε α} {E : σ → Prop}
    (h : Triple P m (fun _ => E) E) {s : σ} (hs : P s) : E (m s).2 := by
  have := h s hs
  rcases hm : m s with ⟨_ | _, s'⟩ <;> simpa only [hm] using this

theorem Triple.of_state {P : σ → Prop} {m : Prog σ ε α} {E : σ → Prop}
    (h : ∀ s, P s → E (m s).2) : Triple P m (fun _ => E) E := by
  intro s hs
  have := h s hs
  rcases hm : m s with ⟨_ | _, s'⟩ <;> simpa only [hm] using this

/-- Two facts about one program hold together. -/
theorem Triple.and {P P' : σ → Prop} {m : Prog σ ε α} {Q Q' : α → σ → Prop} {E E' : σ → Prop}
    (h : Triple P m Q E) (h' : Triple P' m Q' E') :
    Triple (fun s => P s ∧ P' s) m (fun a s => Q a s ∧ Q' a s) (fun s => E s ∧ E' s) := by
  intro s hs
  have h₁ := h s hs.1
  have h₂ := h' s hs.2
  rcases hm : m s with ⟨_ | _, s'⟩ <;> simp only [hm] at h₁ h₂ ⊢ <;> exact ⟨h₁, h₂⟩

theorem Triple.ok {P : σ → Prop} {m : Prog σ ε α} {Q : α → σ → Prop} {E : σ → Prop}
    (h : Triple P m Q E) {s s' : σ} {a : α} (hs : P s) (hm : m s = (.ok a, s')) : Q a s' := by
  simpa only [hm] using h s hs

theorem Triple.error {P : σ → Prop} {m : Prog σ ε α} {Q : α → σ → Prop} {E : σ → Prop}
    (h : Triple P m Q E) {s s' : σ} {e : ε} (hs : P s) (hm : m s = (.error e, s')) : E s' := by
  simpa only [hm] using h s hs

theorem Triple.conseq {P P' : σ → Prop} {m : Prog σ ε α} {Q Q' : α → σ → Prop} {E E' : σ → Prop}
    (h : Triple P m Q E) (hP : ∀ s, P' s → P s) (hQ : ∀ a s, Q a s → Q' a s)
    (hE : ∀ s, E s → E' s) : Triple P' m Q' E' := by
  intro s hs
  have := h s (hP s hs)
  rcases hm : m s with ⟨_ | _, s'⟩ <;> simp only [hm] at this ⊢
  · exact hE _ this
  · exact hQ _ _ this

theorem triple_pure {P : σ → Prop} {a : α} {Q : α → σ → Prop} {E : σ → Prop}
    (h : ∀ s, P s → Q a s) : Triple P (pure a : Prog σ ε α) Q E := h

theorem triple_bind {P : σ → Prop} {m : Prog σ ε α} {f : α → Prog σ ε β} {R : α → σ → Prop}
    {Q : β → σ → Prop} {E : σ → Prop} (hm : Triple P m R E) (hf : ∀ a, Triple (R a) (f a) Q E) :
    Triple P (m >>= f) Q E := by
  intro s hs
  have h := hm s hs
  change match andThen m f s with | (.ok a, s') => Q a s' | (.error _, s') => E s'
  unfold andThen
  rcases hms : m s with ⟨_ | a, s'⟩ <;> simp only [hms] at h ⊢
  · exact h
  · exact hf a s' h

theorem triple_getState {P : σ → Prop} {Q : σ → σ → Prop} {E : σ → Prop}
    (h : ∀ s, P s → Q s s) : Triple P (getState : Prog σ ε σ) Q E := h

theorem triple_modifyState {P : σ → Prop} {f : σ → σ} {Q : Unit → σ → Prop} {E : σ → Prop}
    (h : ∀ s, P s → Q () (f s)) : Triple P (modifyState f : Prog σ ε Unit) Q E := h

theorem triple_raise {P : σ → Prop} {e : ε} {Q : α → σ → Prop} {E : σ → Prop}
    (h : ∀ s, P s → E s) : Triple P (raise e : Prog σ ε α) Q E := h

theorem triple_fromExcept {P : σ → Prop} {x : Except ε α} {Q : α → σ → Prop} {E : σ → Prop}
    (hok : ∀ a, x = .ok a → ∀ s, P s → Q a s) (herr : ∀ s, P s → E s) :
    Triple P (fromExcept x : Prog σ ε α) Q E := by
  cases x with
  | ok a => exact fun s hs => hok a rfl s hs
  | error e => exact herr

theorem triple_atomic {P : σ → Prop} {m : Prog σ ε α} {rollback : σ → σ → σ}
    {Q : α → σ → Prop} {E E' : σ → Prop} (hm : Triple P m Q E)
    (h : ∀ s s', P s → E s' → E' (rollback s s')) : Triple P (atomic rollback m) Q E' := by
  intro s hs
  have hms := hm s hs
  unfold atomic
  rcases hr : m s with ⟨_ | a, s'⟩ <;> simp only [hr] at hms ⊢
  · exact h s s' hs hms
  · exact hms

/-- The loop rule: `I rest s` is what holds when `rest` is still to be run. -/
theorem triple_forEach {I : List α → σ → Prop} {body : α → Prog σ ε β} {E : σ → Prop}
    (h : ∀ a rest, Triple (I (a :: rest)) (body a) (fun _ => I rest) E) (as : List α) :
    Triple (I as) (forEach body as) (fun _ => I []) E := by
  induction as with
  | nil => exact fun s hs => hs
  | cons a rest ih =>
    refine triple_bind (h a rest) fun b => ?_
    exact triple_bind ih fun bs => triple_pure fun s hs => hs

/-- A loop fails with its first element. -/
theorem forEach_error_head {body : α → Prog σ ε β} {a : α} {s : σ} {e : ε} (rest : List α)
    (h : (body a s).1 = .error e) : (forEach body (a :: rest) s).1 = .error e := by
  unfold forEach andThen
  rcases hbody : body a s with ⟨_ | _, _⟩ <;> simp_all

/-- A loop fails if it does after an element. -/
theorem forEach_error_tail {body : α → Prog σ ε β} {a : α} {rest : List α} {s s' : σ}
    {b : β} {e : ε} (hbody : body a s = (.ok b, s')) (h : (forEach body rest s').1 = .error e) :
    (forEach body (a :: rest) s).1 = .error e := by
  unfold forEach andThen
  simp only [hbody]
  rcases hrest : forEach body rest s' with ⟨_ | _, _⟩ <;> simp_all

/-- A program fails if its first part does. -/
theorem bind_error {m : Prog σ ε α} {f : α → Prog σ ε β} {s : σ} {e : ε} (h : (m s).1 = .error e) :
    ((m >>= f) s).1 = .error e := by
  change (andThen m f s).1 = .error e
  unfold andThen
  rcases hm : m s with ⟨_ | _, _⟩ <;> simp_all

/-- What follows a part that returned. -/
theorem bind_ok {m : Prog σ ε α} {f : α → Prog σ ε β} {s s' : σ} {a : α} (h : m s = (.ok a, s')) :
    (m >>= f) s = f a s' := by
  change andThen m f s = f a s'
  unfold andThen
  simp only [h]

end Prog

/-- A traversal succeeds if all its steps do. -/
theorem exists_mapM_iff {ε α β : Type} {f : α → Except ε β} {xs : List α} :
    (∃ ys, xs.mapM f = .ok ys) ↔ ∀ x ∈ xs, ∃ y, f x = .ok y := by
  induction xs with
  | nil => exact ⟨fun _ => nofun, fun _ => ⟨[], rfl⟩⟩
  | cons x rest ih =>
    rw [List.forall_mem_cons, ← ih, List.mapM_cons]
    constructor
    · rintro ⟨ys, h⟩
      obtain ⟨y, hy, h⟩ := bind_eq_ok.mp h
      obtain ⟨rest_ys, hrest, -⟩ := bind_eq_ok.mp h
      exact ⟨⟨y, hy⟩, rest_ys, hrest⟩
    · rintro ⟨⟨y, hy⟩, rest_ys, hrest⟩
      exact ⟨y :: rest_ys, bind_eq_ok.mpr ⟨y, hy, bind_eq_ok.mpr ⟨rest_ys, hrest, rfl⟩⟩⟩

theorem mem_of_mapM {ε α β : Type} {f : α → Except ε β} {xs : List α} {ys : List β}
    (h : xs.mapM f = .ok ys) {x : α} (hx : x ∈ xs) :
    ∃ y ∈ ys, f x = .ok y := by
  induction xs generalizing ys with
  | nil => cases hx
  | cons first rest ih =>
    rw [List.mapM_cons] at h
    obtain ⟨y, hy, h⟩ := bind_eq_ok.mp h
    obtain ⟨rest_ys, hrest, h⟩ := bind_eq_ok.mp h
    obtain rfl := Except.ok.inj h
    obtain rfl | hx := List.mem_cons.mp hx
    · exact ⟨y, List.mem_cons_self, hy⟩
    · obtain ⟨z, hz, hfound⟩ := ih hrest hx
      exact ⟨z, List.mem_cons_of_mem _ hz, hfound⟩

/-- What a traversal of successful steps collects. -/
theorem mapM_eq_ok_map {ε α β : Type} {f : α → Except ε β} {g : α → β} {xs : List α}
    (h : ∀ x ∈ xs, f x = .ok (g x)) :
    xs.mapM f = .ok (xs.map g) := by
  induction xs with
  | nil => rfl
  | cons x rest ih =>
    obtain ⟨hx, hrest⟩ := List.forall_mem_cons.mp h
    rw [List.mapM_cons, hx, ih hrest]
    rfl

end taurus.lib

namespace taurus.lib.Prog

open taurus.lib.transition

variable {σ ε α β : Type}

/-- The program ends without an exception. -/
def Returns (m : Prog σ ε α) (s : σ) : Prop := ∃ a, (m s).1 = .ok a

theorem returns_pure (a : α) (s : σ) : Returns (pure a : Prog σ ε α) s := ⟨a, rfl⟩

theorem not_returns_raise (e : ε) (s : σ) : ¬ Returns (raise e : Prog σ ε α) s := by
  rintro ⟨a, h⟩
  cases h

theorem returns_bind_iff {m : Prog σ ε α} {f : α → Prog σ ε β} {s : σ} :
    Returns (m >>= f) s ↔ ∃ a, (m s).1 = .ok a ∧ Returns (f a) (m s).2 := by
  change Returns (andThen m f) s ↔ _
  unfold Returns andThen
  rcases m s with ⟨e | a, s'⟩ <;> simp

/-- What follows a change of the state. -/
theorem returns_modify_bind_iff {g : σ → σ} {f : Unit → Prog σ ε β} {s : σ} :
    Returns (modifyState g >>= f) s ↔ Returns (f ()) (g s) := Iff.rfl

/-- A last part that always returns. -/
theorem returns_bind_of_total {m : Prog σ ε α} {f : α → Prog σ ε β} {s : σ}
    (h : ∀ a s, Returns (f a) s) :
    Returns (m >>= f) s ↔ Returns m s := by
  rw [returns_bind_iff]
  exact exists_congr fun a => and_iff_left (h a _)

/-- A loop returns if every one of its steps does, each from the state before it. -/
theorem returns_forEach_iff {body : α → Prog σ ε β} {as : List α} {s : σ} :
    Returns (forEach body as) s ↔
      Along (fun s a => (body a s).2) (fun s a => Returns (body a) s) s as := by
  induction as generalizing s with
  | nil => exact iff_of_true ⟨[], rfl⟩ trivial
  | cons a rest ih =>
    change Returns (body a >>= fun b => forEach body rest >>= fun bs => pure (b :: bs)) s ↔ _
    rw [returns_bind_iff]
    simp only [returns_bind_of_total fun bs s => returns_pure _ s, ih]
    exact ⟨fun ⟨b, hb, hrest⟩ => ⟨⟨b, hb⟩, hrest⟩, fun ⟨⟨b, hb⟩, hrest⟩ => ⟨b, hb, hrest⟩⟩

end taurus.lib.Prog
