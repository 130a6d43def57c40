import Taurus.Lib.Transition
import Taurus.Utils.Signing

namespace taurus.utils.signing

open taurus.lib taurus.lib.transition taurus.engine

/-- What identifies a request. -/
abbrev Tuple : Type := String × Int × String × String × String

def Call.tuple (c : Call) : Tuple := (c.host_id, c.timestamp, c.nonce, c.signature, c.body)

/-- The service between two calls, with the requests it has accepted. -/
structure Service where
  cache : Cache := []
  now : Nat := 0
  accepted : List Tuple := []

section

variable (hmac : String → String → String) (max_age : Int)

/-- One call; the clock never goes back. -/
def Service.step (s : Service) (c : Call) : Option Service :=
  if s.now ≤ c.now then
    match verify_signature hmac max_age s.cache c with
    | .ok ((true, _), cache) =>
      some { cache := cache, now := c.now, accepted := s.accepted ++ [c.tuple] }
    | .ok ((false, _), cache) => some { s with cache := cache, now := c.now }
    | .error _ => some { s with now := c.now }
  else none

/-- A signed and unused request whose timestamp is not before the clock's second,
and at most `max_age` after it. -/
def Ahead (s : Service) (c : Call) : Prop :=
  Signed hmac c ∧ s.cache.get c.now (nonce_key c.nonce) = false ∧
    whole_seconds c.now ≤ c.timestamp ∧ c.timestamp ≤ whole_seconds c.now + max_age

instance (s : Service) (c : Call) : Decidable (Ahead hmac max_age s c) :=
  inferInstanceAs (Decidable (_ ∧ _))

end

section

variable {hmac : String → String → String} {max_age : Int} {s s' : Service} {c : Call}

/-- What a call can do to the service. -/
theorem Service.step_cases (h : s.step hmac max_age c = some s') :
    s.now ≤ c.now ∧
      ((Current max_age c ∧ s.cache.get c.now (nonce_key c.nonce) = false ∧ Signed hmac c ∧
          s' = { cache := s.cache.set c.now (nonce_key c.nonce) max_age, now := c.now,
                 accepted := s.accepted ++ [c.tuple] }) ∨
        s' = { s with now := c.now }) := by
  unfold step at h
  split_ifs at h with hnow
  refine ⟨hnow, ?_⟩
  cases hverdict : verify_signature hmac max_age s.cache c with
  | error e =>
    simp only [hverdict, Option.some.injEq] at h
    exact .inr h.symm
  | ok verdict =>
    obtain ⟨⟨accepted, text⟩, cache⟩ := verdict
    cases accepted with
    | false =>
      obtain rfl := cache_of_refused hverdict
      simp only [hverdict, Option.some.injEq] at h
      exact .inr h.symm
    | true =>
      obtain ⟨hcurrent, hnonce, hsigned, -, rfl⟩ := (accepted_iff text).mp hverdict
      simp only [hverdict, Option.some.injEq] at h
      exact .inl ⟨hcurrent, hnonce, hsigned, h.symm⟩

/-- A current call with a new nonce is accepted. -/
theorem Service.step_of_accepted (hnow : s.now ≤ c.now) (hcurrent : Current max_age c)
    (hnonce : s.cache.get c.now (nonce_key c.nonce) = false) (hsigned : Signed hmac c) :
    s.step hmac max_age c =
      some { cache := s.cache.set c.now (nonce_key c.nonce) max_age, now := c.now,
             accepted := s.accepted ++ [c.tuple] } := by
  have hverdict := (@accepted_iff hmac _ _ _ _ "").mpr ⟨hcurrent, hnonce, hsigned, rfl, rfl⟩
  rw [step, if_pos hnow, hverdict]

/-- Once the nonce is forgotten, the timestamp is too old. -/
def Outlived (max_age : Int) (s : Service) (nonce : String) (timestamp : Int) : Prop :=
  ∀ later : Nat, s.now ≤ later → s.cache.get later (nonce_key nonce) = false →
    timestamp + max_age < whole_seconds later

/-- A service that accepts no request again. -/
structure Guarded (max_age : Int) (s : Service) : Prop where
  nodup : s.accepted.Nodup
  outlived : ∀ t ∈ s.accepted, Outlived max_age s t.2.2.1 t.2.1

/-- What was outlived stays so. -/
theorem Outlived.later {nonce : String} {timestamp : Int} (h : Outlived max_age s nonce timestamp)
    (hnow : s.now ≤ c.now) : Outlived max_age { s with now := c.now } nonce timestamp := by
  intro later hlater hget
  exact h later (by simp only at hlater; omega) hget

/-- Remembering another nonce changes nothing, and remembering the same one again
only happens when the timestamp is too old already. -/
theorem Outlived.accept {nonce : String} {timestamp : Int} (h : Outlived max_age s nonce timestamp)
    (hnow : s.now ≤ c.now) (hnonce : s.cache.get c.now (nonce_key c.nonce) = false)
    (accepted : List Tuple) :
    Outlived max_age
      { cache := s.cache.set c.now (nonce_key c.nonce) max_age, now := c.now, accepted := accepted }
      nonce timestamp := by
  intro later hlater hget
  simp only at hlater hget
  by_cases hsame : c.nonce = nonce
  · subst hsame
    have hold := h c.now hnow hnonce
    unfold whole_seconds at hold ⊢
    omega
  · rw [Cache.get_set_ne _ _ _ _ fun hkey => hsame (nonce_key_injective hkey)] at hget
    exact h later (by omega) hget

/-- A timestamp before the clock's second is too old when its nonce is forgotten. -/
theorem outlived_of_behind (hbehind : c.timestamp < whole_seconds c.now) (cache : Cache)
    (accepted : List Tuple) :
    Outlived max_age
      { cache := cache.set c.now (nonce_key c.nonce) max_age, now := c.now, accepted := accepted }
      c.nonce c.timestamp := by
  intro later _ hget
  simp only [Cache.get_set_self, decide_eq_false_iff_not] at hget
  have hforgotten : (c.now : Int) + max_age * 1000000 ≤ later := Int.not_lt.mp hget
  unfold whole_seconds at hbehind ⊢
  omega

/-- A call that is not ahead keeps the nonces guarded. -/
theorem Guarded.step (hinv : Guarded max_age s) (hbehind : ¬ Ahead hmac max_age s c)
    (h : s.step hmac max_age c = some s') : Guarded max_age s' := by
  obtain ⟨hnow, ⟨hcurrent, hnonce, hsigned, rfl⟩ | rfl⟩ := Service.step_cases h
  · have htimestamp : c.timestamp < whole_seconds c.now := by
      by_contra hahead
      apply hbehind
      unfold Current at hcurrent
      exact ⟨hsigned, hnonce, by omega, by omega⟩
    have hnew : c.tuple ∉ s.accepted := by
      intro hmem
      have hold := hinv.outlived c.tuple hmem c.now hnow hnonce
      unfold Current at hcurrent
      simp only [Call.tuple] at hold
      omega
    refine ⟨List.nodup_append.mpr ⟨hinv.nodup, List.pairwise_singleton _ _, ?_⟩, ?_⟩
    · intro t ht u hu
      obtain rfl := List.mem_singleton.mp hu
      exact ne_of_mem_of_not_mem ht hnew
    intro t ht
    obtain hmem | hlast := List.mem_append.mp ht
    · exact (hinv.outlived t hmem).accept hnow hnonce _
    · obtain rfl := List.mem_singleton.mp hlast
      exact outlived_of_behind htimestamp _ _
  · exact ⟨hinv.nodup, fun t ht => (hinv.outlived t ht).later hnow⟩

/-- The same request `max_age` seconds later. -/
def Call.again (c : Call) (max_age : Int) : Call :=
  { c with now := c.now + 1000000 * max_age.toNat }

theorem Call.le_now_again (c : Call) (max_age : Int) : c.now ≤ (c.again max_age).now :=
  Nat.le_add_right _ _

/-- After `max_age` seconds a nonce is forgotten. -/
theorem get_again (cache : Cache) :
    (cache.set c.now (nonce_key c.nonce) max_age).get (c.again max_age).now
      (nonce_key (c.again max_age).nonce) =
      false := by
  have hlast : (c.now : Int) + max_age * 1000000 ≤
      ((c.now + 1000000 * max_age.toNat : Nat) : Int) := by omega
  simp only [Call.again, Cache.get_set_self, decide_eq_false_iff_not]
  exact Int.not_lt.mpr hlast

/-- A timestamp that is not before the clock's second is still current then. -/
theorem current_again (hold : whole_seconds c.now ≤ c.timestamp)
    (hnew : c.timestamp ≤ whole_seconds c.now + max_age) : Current max_age (c.again max_age) := by
  unfold Current whole_seconds at *
  simp only [Call.again]
  omega

/-- The request is accepted again as soon as its nonce is forgotten. -/
theorem accepted_twice (hnow : s.now ≤ c.now) (hahead : Ahead hmac max_age s c) :
    ∃ s', Runs (Service.step hmac max_age) (fun _ _ => True) s s' ∧ ¬ s'.accepted.Nodup := by
  obtain ⟨hsigned, hnonce, hold, hnew⟩ := hahead
  have hcurrent : Current max_age c := by
    unfold Current
    omega
  have hfirst := Service.step_of_accepted hnow hcurrent hnonce hsigned
  have hsecond := Service.step_of_accepted
    (s := { cache := s.cache.set c.now (nonce_key c.nonce) max_age, now := c.now,
            accepted := s.accepted ++ [c.tuple] })
    (c.le_now_again max_age) (current_again hold hnew) (get_again _) hsigned
  refine ⟨_, .head trivial hfirst (.head trivial hsecond (.refl _)), ?_⟩
  intro hnodup
  rw [List.append_assoc] at hnodup
  exact absurd (List.nodup_append.mp hnodup).2.1 (by simp [Call.again, Call.tuple])

end

/-- As long as no request is ahead of the clock, none is accepted twice. Every request
that is ahead of the clock can be. -/
theorem accepted_once_unless_ahead (hmac : String → String → String) (max_age : Int) :
    (∀ s, Runs (Service.step hmac max_age) (fun s c => ¬ Ahead hmac max_age s c) {} s →
      s.accepted.Nodup) ∧
      ∀ (s : Service) (c : Call), s.now ≤ c.now → Ahead hmac max_age s c →
        ∃ s', Runs (Service.step hmac max_age) (fun _ _ => True) s s' ∧ ¬ s'.accepted.Nodup := by
  refine ⟨?_, fun s c hnow hahead => accepted_twice hnow hahead⟩
  intro s hrun
  have hinv : Guarded max_age s := by
    refine hrun.invariant (fun _ _ _ h hbehind hstep => h.step hbehind hstep) ⟨List.nodup_nil, ?_⟩
    exact fun t ht => absurd ht List.not_mem_nil
  exact hinv.nodup

/-- The request of the test for replays, made in the second of its timestamp and again
`max_age` seconds later. -/
def replayed (now : Nat) : Call where
  now := now
  host_id := "host-1"
  secret := "my-secret"
  timestamp := 1000
  nonce := "replay-nonce-123"
  signature := "6b3365cc13f78c168f0fb5c9cf966705b80de94829366a746368b5014a9e0689"

/-- Both calls are accepted with the default `max_age`. -/
theorem replayed_accepted_twice :
    ∃ s, Runs (Service.step (fun _ _ => (replayed 0).signature) 300) (fun _ _ => True) {} s ∧
      s.accepted = [(replayed 1000200000).tuple, (replayed 1300200000).tuple] := by
  have hexec : (exec (Service.step (fun _ _ => (replayed 0).signature) 300) (fun _ _ => True) {}
      [replayed 1000200000, replayed 1300200000]).any
        (·.accepted = [(replayed 1000200000).tuple, (replayed 1300200000).tuple]) = true := by
    decide +kernel
  obtain ⟨s, hrun, haccepted⟩ := exists_run_of_exec _ hexec
  exact ⟨s, hrun, of_decide_eq_true haccepted⟩

end taurus.utils.signing
