import Mathlib.Logic.Basic
import Mathlib.Logic.Function.Basic
import Taurus.Lib.Transition

namespace taurus.lib

/-- A program that asks for one atomic statement after the other and goes on with the
answer; `ρ c` are the answers to the statement `c`. -/
inductive Thread (κ : Type) (ρ : κ → Type) (ε α : Type) : Type where
  | done (result : Except ε α)
  | ask (c : κ) (k : ρ c → Thread κ ρ ε α)

namespace Thread

variable {κ : Type} {ρ : κ → Type} {ε α β : Type}

def andThen : Thread κ ρ ε α → (α → Thread κ ρ ε β) → Thread κ ρ ε β
  | done (.ok a), f => f a
  | done (.error e), _ => done (.error e)
  | ask c k, f => ask c fun answer => (k answer).andThen f

instance : Monad (Thread κ ρ ε) where
  pure a := done (.ok a)
  bind := andThen

theorem andThen_assoc {γ : Type} (t : Thread κ ρ ε α) (f : α → Thread κ ρ ε β)
    (g : β → Thread κ ρ ε γ) :
    (t.andThen f).andThen g = t.andThen fun a => (f a).andThen g := by
  induction t with
  | done result => cases result <;> rfl
  | ask c k ih => exact congrArg (ask c) (funext ih)

theorem andThen_pure (t : Thread κ ρ ε α) : (t.andThen fun a => done (.ok a)) = t := by
  induction t with
  | done result => cases result <;> rfl
  | ask c k ih => exact congrArg (ask c) (funext ih)

instance : LawfulMonad (Thread κ ρ ε) :=
  LawfulMonad.mk' _ andThen_pure (fun _ _ => rfl) andThen_assoc

def statement (c : κ) : Thread κ ρ ε (ρ c) := ask c fun answer => done (.ok answer)

def raise (e : ε) : Thread κ ρ ε α := done (.error e)

/-- Re-raise the error of an already computed result. -/
def fromExcept (result : Except ε α) : Thread κ ρ ε α := done result

/-- Run `body` on every element in order, stopping at the first exception. -/
def forEach (body : α → Thread κ ρ ε β) : List α → Thread κ ρ ε (List β)
  | [] => done (.ok [])
  | a :: rest =>
    andThen (body a) fun b => andThen (forEach body rest) fun bs => done (.ok (b :: bs))

theorem forEach_nil (body : α → Thread κ ρ ε β) : forEach body [] = pure [] := rfl

theorem forEach_cons (body : α → Thread κ ρ ε β) (a : α) (rest : List α) :
    forEach body (a :: rest) = body a >>= fun b => forEach body rest >>= fun bs => pure (b :: bs) :=
  rfl

/-- `try`: the result or the exception as a value. -/
def attempt : Thread κ ρ ε α → Thread κ ρ ε (Except ε α)
  | done result => done (.ok result)
  | ask c k => ask c fun answer => (k answer).attempt

/-- End with `commit` after a return and with `rollback` after an exception, which goes on. -/
def ending (commit rollback : κ) : Thread κ ρ ε α → Thread κ ρ ε α
  | done (.ok a) => ask commit fun _ => done (.ok a)
  | done (.error e) => ask rollback fun _ => done (.error e)
  | ask c k => ask c fun answer => (k answer).ending commit rollback

/-- Run a thread with nothing in between; none when a statement has to wait. -/
def run {σ : Type} (exec : (c : κ) → σ → Option (ρ c × σ)) :
    Thread κ ρ ε α → σ → Option (Except ε α × σ)
  | done result, s => some (result, s)
  | ask c k, s => (exec c s).bind fun p => (k p.1).run exec p.2

/-- Run a thread with nothing in between, where no statement has to wait. -/
def complete {σ : Type} (exec : (c : κ) → σ → ρ c × σ) : Thread κ ρ ε α → σ → Except ε α × σ
  | done result, s => (result, s)
  | ask c k, s => (k (exec c s).1).complete exec (exec c s).2

section

variable {σ : Type} (exec : (c : κ) → σ → ρ c × σ)

theorem complete_bind (t : Thread κ ρ ε α) (f : α → Thread κ ρ ε β) (s : σ) :
    (t >>= f).complete exec s =
      match t.complete exec s with
      | (.ok a, s') => (f a).complete exec s'
      | (.error e, s') => (.error e, s') := by
  change (t.andThen f).complete exec s = _
  induction t generalizing s with
  | done result => cases result <;> rfl
  | ask c k ih => exact ih (exec c s).1 (exec c s).2

/-- The result does not matter for the state. -/
theorem complete_void (t : Thread κ ρ ε α) (s : σ) :
    ((t >>= fun _ => pure ()).complete exec s : Except ε Unit × σ).2 = (t.complete exec s).2 := by
  rw [complete_bind]
  cases h : t.complete exec s with
  | mk result s' => cases result <;> rfl

theorem complete_attempt (t : Thread κ ρ ε α) (s : σ) :
    t.attempt.complete exec s = (.ok (t.complete exec s).1, (t.complete exec s).2) := by
  induction t generalizing s with
  | done result => rfl
  | ask c k ih => exact ih (exec c s).1 (exec c s).2

/-- What every statement keeps, a whole thread keeps. -/
theorem complete_invariant {I : σ → Prop} (hexec : ∀ c s, I s → I (exec c s).2) (t : Thread κ ρ ε α)
    {s : σ} (hs : I s) :
    I (t.complete exec s).2 := by
  induction t generalizing s with
  | done result => exact hs
  | ask c k ih => exact ih (exec c s).1 (hexec c s hs)

/-- A loop whose body never raises. -/
theorem complete_forEach {body : α → Thread κ ρ ε β} {f : σ → α → σ}
    (hbody : ∀ a s, ∃ b, (body a).complete exec s = (.ok b, f s a)) (as : List α) (s : σ) :
    ∃ bs, (forEach body as).complete exec s = (.ok bs, as.foldl f s) := by
  induction as generalizing s with
  | nil => exact ⟨[], rfl⟩
  | cons a rest ih =>
    obtain ⟨b, hb⟩ := hbody a s
    obtain ⟨bs, hbs⟩ := ih (f s a)
    refine ⟨b :: bs, ?_⟩
    rw [forEach_cons, complete_bind, hb]
    change ((forEach body rest) >>= _).complete exec (f s a) = _
    rw [complete_bind, hbs]
    rfl

@[simp] theorem complete_fromExcept_bind (result : Except ε α) (f : α → Thread κ ρ ε β) (s : σ) :
    ((fromExcept result : Thread κ ρ ε α) >>= f).complete exec s =
      match result with
      | .ok a => (f a).complete exec s
      | .error e => (.error e, s) := by
  cases result <;> rfl

end

end Thread

/-- What a thread may ask for and how its typestate changes with the answer. `answers` is
what the other side promises. -/
structure Protocol (κ : Type) (ρ : κ → Type) (η : Type) where
  allowed : η → κ → Prop
  answers : η → (c : κ) → ρ c → Prop
  next : η → (c : κ) → ρ c → η → Prop

namespace Protocol

variable {κ : Type} {ρ : κ → Type} {ε α β η : Type} {p : Protocol κ ρ η}

/-- From the typestate `h` on, the thread obeys the protocol, and it ends with `Q`. -/
def Obeys (p : Protocol κ ρ η) (Q : Except ε α → η → Prop) : η → Thread κ ρ ε α → Prop
  | h, .done result => Q result h
  | h, .ask c k =>
    p.allowed h c ∧ ∀ answer, p.answers h c answer →
      ∃ h', p.next h c answer h' ∧ Obeys p Q h' (k answer)

/-- The end of a thread that returns with `Q` or stops with an exception in `E`. -/
def ends (Q : α → η → Prop) (E : η → Prop) : Except ε α → η → Prop
  | .ok a => Q a
  | .error _ => E

/-- From a typestate with `P` the thread obeys the protocol until it returns with `Q` or
stops with an exception in a typestate with `E`. -/
def Keeps (p : Protocol κ ρ η) (P : η → Prop) (t : Thread κ ρ ε α) (Q : α → η → Prop)
    (E : η → Prop) : Prop :=
  ∀ h, P h → p.Obeys (ends Q E) h t

theorem Obeys.mono {Q Q' : Except ε α → η → Prop} (hQ : ∀ result h, Q result h → Q' result h) :
    ∀ {t : Thread κ ρ ε α} {h : η}, p.Obeys Q h t → p.Obeys Q' h t
  | .done _, _, ht => hQ _ _ ht
  | .ask _ _, _, ⟨hallowed, hk⟩ => ⟨hallowed, fun answer hanswer =>
      have ⟨h', hnext, ht⟩ := hk answer hanswer
      ⟨h', hnext, ht.mono hQ⟩⟩

theorem obeys_andThen {R : α → η → Prop} {Q : β → η → Prop} {E : η → Prop} {f : α → Thread κ ρ ε β}
    (hf : ∀ a h, R a h → p.Obeys (ends Q E) h (f a)) {t : Thread κ ρ ε α} {h : η}
    (ht : p.Obeys (ends R E) h t) : p.Obeys (ends Q E) h (t.andThen f) := by
  induction t generalizing h with
  | done result =>
    cases result with
    | ok a => exact hf a h ht
    | error e => exact ht
  | ask c k ih =>
    obtain ⟨hallowed, hk⟩ := ht
    refine ⟨hallowed, fun answer hanswer => ?_⟩
    obtain ⟨h', hnext, ht'⟩ := hk answer hanswer
    exact ⟨h', hnext, ih answer ht'⟩

theorem keeps_pure {P : η → Prop} {a : α} {Q : α → η → Prop} {E : η → Prop} (h : ∀ x, P x → Q a x) :
    p.Keeps P (pure a : Thread κ ρ ε α) Q E := h

theorem keeps_raise {P : η → Prop} {e : ε} {Q : α → η → Prop} {E : η → Prop} (h : ∀ x, P x → E x) :
    p.Keeps P (Thread.raise e : Thread κ ρ ε α) Q E := h

theorem keeps_fromExcept {P : η → Prop} {result : Except ε α} {Q : α → η → Prop} {E : η → Prop}
    (hok : ∀ a, result = .ok a → ∀ x, P x → Q a x) (herr : ∀ x, P x → E x) :
    p.Keeps P (Thread.fromExcept result : Thread κ ρ ε α) Q E := by
  cases result with
  | ok a => exact fun x hx => hok a rfl x hx
  | error e => exact herr

theorem keeps_bind {P : η → Prop} {t : Thread κ ρ ε α} {f : α → Thread κ ρ ε β} {R : α → η → Prop}
    {Q : β → η → Prop} {E : η → Prop} (ht : p.Keeps P t R E) (hf : ∀ a, p.Keeps (R a) (f a) Q E) :
    p.Keeps P (t >>= f) Q E := fun h hP => obeys_andThen hf (ht h hP)

theorem Keeps.conseq {P P' : η → Prop} {t : Thread κ ρ ε α} {Q Q' : α → η → Prop} {E E' : η → Prop}
    (h : p.Keeps P t Q E) (hP : ∀ x, P' x → P x) (hQ : ∀ a x, Q a x → Q' a x)
    (hE : ∀ x, E x → E' x) :
    p.Keeps P' t Q' E' := by
  refine fun x hx => (h x (hP x hx)).mono fun result y hy => ?_
  cases result with
  | ok a => exact hQ a y hy
  | error e => exact hE y hy

/-- The loop rule: `I rest x` is what holds when `rest` is still to be run. -/
theorem keeps_forEach {I : List α → η → Prop} {body : α → Thread κ ρ ε β} {E : η → Prop}
    (h : ∀ a rest, p.Keeps (I (a :: rest)) (body a) (fun _ => I rest) E) (as : List α) :
    p.Keeps (I as) (Thread.forEach body as) (fun _ => I []) E := by
  induction as with
  | nil => exact fun x hx => hx
  | cons a rest ih =>
    refine keeps_bind (h a rest) fun b => ?_
    exact keeps_bind ih fun bs => keeps_pure fun x hx => hx

/-- The loop rule for what the results so far satisfy. -/
theorem keeps_collect {I : List β → η → Prop} {body : α → Thread κ ρ ε β}
    {E : η → Prop} {as : List α}
    (h : ∀ a ∈ as, ∀ bs, p.Keeps (I bs) (body a) (fun b => I (bs ++ [b])) E) (bs : List β) :
    p.Keeps (I bs) (Thread.forEach body as) (fun bs' => I (bs ++ bs')) E := by
  induction as generalizing bs with
  | nil =>
    refine keeps_pure fun x hx => ?_
    rwa [List.append_nil]
  | cons a rest ih =>
    refine keeps_bind (h a List.mem_cons_self bs) fun b => ?_
    refine keeps_bind (ih (fun a' ha' => h a' (List.mem_cons_of_mem _ ha')) (bs ++ [b]))
      fun bs' => ?_
    refine keeps_pure fun x hx => ?_
    rwa [List.append_assoc] at hx

/-- Both ends of an attempt are returns. -/
theorem keeps_attempt {P : η → Prop} {t : Thread κ ρ ε α} {Q : α → η → Prop} {E E' : η → Prop}
    (ht : p.Keeps P t Q E) : p.Keeps P t.attempt (fun result => ends Q E result) E' := by
  have hobeys : ∀ (t : Thread κ ρ ε α) (x : η), p.Obeys (ends Q E) x t →
      p.Obeys (ends (fun result => ends Q E result) E') x t.attempt := by
    intro t
    induction t with
    | done result => exact fun x hx => hx
    | ask c k ih =>
      rintro x ⟨hallowed, hk⟩
      refine ⟨hallowed, fun answer hanswer => ?_⟩
      obtain ⟨x', hnext, ht'⟩ := hk answer hanswer
      exact ⟨x', hnext, ih answer x' ht'⟩
  exact fun x hx => hobeys t x (ht x hx)

theorem keeps_ending {P : η → Prop} {commit rollback : κ} {t : Thread κ ρ ε α} {R Q : α → η → Prop}
    {E E' : η → Prop} (ht : p.Keeps P t R E)
    (hcommit : ∀ a x, R a x → p.allowed x commit ∧
      ∀ answer, p.answers x commit answer → ∃ x', p.next x commit answer x' ∧ Q a x')
    (hrollback : ∀ x, E x → p.allowed x rollback ∧
      ∀ answer, p.answers x rollback answer → ∃ x', p.next x rollback answer x' ∧ E' x') :
    p.Keeps P (t.ending commit rollback) Q E' := by
  have hobeys : ∀ (t : Thread κ ρ ε α) (x : η), p.Obeys (ends R E) x t →
      p.Obeys (ends Q E') x (t.ending commit rollback) := by
    intro t
    induction t with
    | done result =>
      intro x hx
      cases result with
      | ok a => exact hcommit a x hx
      | error e => exact hrollback x hx
    | ask c k ih =>
      rintro x ⟨hallowed, hk⟩
      refine ⟨hallowed, fun answer hanswer => ?_⟩
      obtain ⟨x', hnext, ht'⟩ := hk answer hanswer
      exact ⟨x', hnext, ih answer x' ht'⟩
  exact fun x hx => hobeys t x (ht x hx)

end Protocol

/-- Threads over one shared state. -/
structure Threads (σ κ : Type) (ρ : κ → Type) (ε : Type) where
  shared : σ
  threads : List (Thread κ ρ ε Unit)

namespace Threads

open transition

variable {σ κ : Type} {ρ : κ → Type} {ε η : Type} {exec : Nat → (c : κ) → σ → Option (ρ c × σ)}

/-- The statement the `i`-th thread asks for. -/
def current (s : Threads σ κ ρ ε) (i : Nat) : Option κ :=
  match s.threads[i]? with
  | some (.ask c _) => some c
  | _ => none

/-- One statement of the `i`-th thread, unless it has to wait. -/
def step (exec : Nat → (c : κ) → σ → Option (ρ c × σ)) (s : Threads σ κ ρ ε) (i : Nat) :
    Option (Threads σ κ ρ ε) :=
  match s.threads[i]? with
  | some (.ask c k) =>
    (exec i c s.shared).map fun p => { shared := p.2, threads := s.threads.set i (k p.1) }
  | _ => none

/-- A step changes the shared state as its statement does. -/
theorem step_shared {exec : Nat → (c : κ) → σ → Option (ρ c × σ)} {s : Threads σ κ ρ ε}
    {i : Nat} {c : κ} (hcurrent : s.current i = some c) :
    (s.step exec i).map shared = (exec i c s.shared).map Prod.snd := by
  unfold current at hcurrent
  unfold step
  split at hcurrent
  · obtain rfl := Option.some.inj hcurrent
    rw [Option.map_map]
    rfl
  · cases hcurrent

/-- Every thread obeys the protocol from its typestate on until it ends with its `Q`, and the
typestates fit the shared state. -/
def ObeyingTo (p : Protocol κ ρ η) (Q : Nat → Except ε Unit → η → Prop) (J : σ → (Nat → η) → Prop)
    (s : Threads σ κ ρ ε) : Prop :=
  ∃ hs : Nat → η, J s.shared hs ∧ ∀ i t, s.threads[i]? = some t → p.Obeys (Q i) (hs i) t

/-- The end of a thread has its `Q`. -/
theorem ObeyingTo.done {p : Protocol κ ρ η} {Q : Nat → Except ε Unit → η → Prop}
    {J : σ → (Nat → η) → Prop} {s : Threads σ κ ρ ε} {i : Nat} {result : Except ε Unit}
    (hs : ObeyingTo p Q J s) (hdone : s.threads[i]? = some (.done result)) :
    ∃ hs, J s.shared hs ∧ Q i result (hs i) := by
  obtain ⟨hs, hJ, hobeys⟩ := hs
  exact ⟨hs, hJ, hobeys i _ hdone⟩

/-- Statements that keep `J` as long as they are allowed keep it in every interleaving of
threads that obey the protocol. -/
theorem obeyingTo_step {p : Protocol κ ρ η} {Q : Nat → Except ε Unit → η → Prop}
    {J : σ → (Nat → η) → Prop} {s s' : Threads σ κ ρ ε} {i : Nat}
    (hexec : ∀ hs c answer x, J s.shared hs → s.current i = some c → p.allowed (hs i) c →
      exec i c s.shared = some (answer, x) → p.answers (hs i) c answer ∧
        ∀ h', p.next (hs i) c answer h' → J x (Function.update hs i h'))
    (hs : ObeyingTo p Q J s) (hstep : s.step exec i = some s') : ObeyingTo p Q J s' := by
  obtain ⟨hs, hJ, hobeys⟩ := hs
  unfold step at hstep
  split at hstep
  · rename_i c k hthread
    obtain ⟨⟨answer, x⟩, hexecuted, rfl⟩ := Option.map_eq_some_iff.mp hstep
    obtain ⟨hallowed, hk⟩ := hobeys i _ hthread
    have hcurrent : s.current i = some c := by simp only [current, hthread]
    obtain ⟨hanswer, hkeeps⟩ := hexec hs c answer x hJ hcurrent hallowed hexecuted
    obtain ⟨h', hnext, hrest⟩ := hk answer hanswer
    refine ⟨Function.update hs i h', hkeeps h' hnext, fun j t ht => ?_⟩
    by_cases hj : j = i
    · subst hj
      rw [Function.update_self]
      rw [List.getElem?_set_self (List.getElem?_eq_some_iff.mp hthread).1] at ht
      exact Option.some.inj ht ▸ hrest
    · rw [Function.update_of_ne hj]
      rw [List.getElem?_set_ne (Ne.symm hj)] at ht
      exact hobeys j t ht
  · cases hstep

/-- The invariant rule for runs all of whose steps meet a condition. -/
theorem obeyingTo_of_runs {p : Protocol κ ρ η} {Q : Nat → Except ε Unit → η → Prop}
    {J : σ → (Nat → η) → Prop} {C : Threads σ κ ρ ε → Nat → Prop} {s s' : Threads σ κ ρ ε}
    (hexec : ∀ (s : Threads σ κ ρ ε) i hs c answer x, C s i → J s.shared hs → s.current i = some c →
      p.allowed (hs i) c → exec i c s.shared = some (answer, x) → p.answers (hs i) c answer ∧
        ∀ h', p.next (hs i) c answer h' → J x (Function.update hs i h'))
    (hrun : Runs (step exec) C s s') (hs : ObeyingTo p Q J s) : ObeyingTo p Q J s' :=
  hrun.invariant (fun _ _ _ hobeying hC hstep =>
    obeyingTo_step (fun hs c answer x => hexec _ _ hs c answer x hC) hobeying hstep) hs

/-- Every thread obeys the protocol from its typestate on, and the typestates fit the
shared state. -/
def Obeying (p : Protocol κ ρ η) (J : σ → (Nat → η) → Prop) (s : Threads σ κ ρ ε) : Prop :=
  ∃ hs : Nat → η, J s.shared hs ∧ ∀ i t, s.threads[i]? = some t → p.Obeys (fun _ _ => True) (hs i) t

/-- The statement a thread asks for is allowed. -/
theorem Obeying.allowed {p : Protocol κ ρ η} {J : σ → (Nat → η) → Prop} {s : Threads σ κ ρ ε}
    {i : Nat} {c : κ} (hs : Obeying p J s) (hcurrent : s.current i = some c) :
    ∃ hs, J s.shared hs ∧ p.allowed (hs i) c := by
  obtain ⟨hs, hJ, hobeys⟩ := hs
  unfold current at hcurrent
  split at hcurrent
  · rename_i c' k hthread
    obtain rfl := Option.some.inj hcurrent
    exact ⟨hs, hJ, (hobeys i _ hthread).1⟩
  · cases hcurrent

theorem obeying_step {p : Protocol κ ρ η} {J : σ → (Nat → η) → Prop}
    {s s' : Threads σ κ ρ ε} {i : Nat}
    (hexec : ∀ hs c answer x, J s.shared hs → s.current i = some c → p.allowed (hs i) c →
      exec i c s.shared = some (answer, x) → p.answers (hs i) c answer ∧
        ∀ h', p.next (hs i) c answer h' → J x (Function.update hs i h'))
    (hs : Obeying p J s) (hstep : s.step exec i = some s') : Obeying p J s' :=
  obeyingTo_step (Q := fun _ _ _ => True) hexec hs hstep

theorem obeying_of_runs {p : Protocol κ ρ η} {J : σ → (Nat → η) → Prop}
    {C : Threads σ κ ρ ε → Nat → Prop} {s s' : Threads σ κ ρ ε}
    (hexec : ∀ (s : Threads σ κ ρ ε) i hs c answer x, C s i → J s.shared hs → s.current i = some c →
      p.allowed (hs i) c → exec i c s.shared = some (answer, x) → p.answers (hs i) c answer ∧
        ∀ h', p.next (hs i) c answer h' → J x (Function.update hs i h'))
    (hrun : Runs (step exec) C s s') (hs : Obeying p J s) : Obeying p J s' :=
  obeyingTo_of_runs (Q := fun _ _ _ => True) hexec hrun hs

end Threads

/-- Which objects a statement reads and which it overwrites as a whole. -/
structure Accesses (κ ω : Type) where
  reads : κ → ω → Bool
  saves : κ → ω → Bool

namespace Accesses

variable {κ ω : Type} (acc : Accesses κ ω) {i j : Nat} {o : ω} {c : κ} {log : List (Nat × κ)}

/-- The `i`-th thread has read the object, and no other thread has saved it since then. The log
holds the executed statements, the latest one first. -/
def fresh (i : Nat) (o : ω) : List (Nat × κ) → Bool
  | [] => false
  | (j, c) :: rest =>
    if j = i then acc.reads c o || fresh i o rest
    else !acc.saves c o && fresh i o rest

theorem fresh_cons_self : acc.fresh i o ((i, c) :: log) = (acc.reads c o || acc.fresh i o log) := by
  rw [fresh, if_pos rfl]

theorem fresh_cons_other (h : j ≠ i) :
    acc.fresh i o ((j, c) :: log) = (!acc.saves c o && acc.fresh i o log) := by
  rw [fresh, if_neg h]

/-- A statement that does not read the object makes no one fresh. -/
theorem fresh_of_cons (hreads : acc.reads c o = false) (h : acc.fresh i o ((j, c) :: log) = true) :
    acc.fresh i o log = true := by
  by_cases hj : j = i
  · subst hj
    rwa [fresh_cons_self, hreads, Bool.false_or] at h
  · rw [fresh_cons_other acc hj, Bool.and_eq_true] at h
    exact h.2

/-- After a save only its own thread is fresh. -/
theorem eq_of_fresh_saved (hsaves : acc.saves c o = true)
    (h : acc.fresh i o ((j, c) :: log) = true) : j = i := by
  apply Decidable.byContradiction
  intro hj
  rw [fresh_cons_other acc hj, hsaves] at h
  cases h

/-- The statement overwrites no object that another thread has saved since it was read. -/
def SavesFresh (i : Nat) (c : κ) (log : List (Nat × κ)) : Prop :=
  ∀ o, acc.saves c o = true → acc.fresh i o log = true

end Accesses

end taurus.lib
