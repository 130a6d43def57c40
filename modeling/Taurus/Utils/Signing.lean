import Taurus.Engine.Schemas
import Taurus.Lib.Dict

namespace taurus.utils.signing

open taurus.lib taurus.engine

/-- The keys of `django.core.cache`, each with the time at which it disappears. -/
abbrev Cache := Dict String Time

namespace Cache

/-- `cache.get(key)` for a key that is only ever set to `True` -/
def get (cache : Cache) (now : Time) (key : String) : Bool :=
  match Dict.get? cache key with
  | some expires_at => now < expires_at
  | none => false

/-- `cache.set(key, True, timeout)`: an entry whose timeout is not positive is never seen. -/
def set (cache : Cache) (now : Time) (key : String) (timeout : Int) : Cache :=
  Dict.set cache key (now + Time.seconds timeout)

@[simp] theorem get_empty (now : Time) (key : String) : get [] now key = false := rfl

@[simp] theorem get_set_self (cache : Cache) (now later : Time) (key : String) (timeout : Int) :
    (cache.set now key timeout).get later key = decide (later < now + Time.seconds timeout) := by
  rw [get, set, Dict.get?_set_self]

@[simp] theorem get_set_ne (cache : Cache) (now later : Time) {key other : String} (timeout : Int)
    (h : key ≠ other) :
    (cache.set now key timeout).get later other = cache.get later other := by
  rw [get, set, Dict.get?_set_ne _ _ h, get]

end Cache

/-- `time.time()` as a count of microseconds, which is never before the epoch, and its `int`. -/
def whole_seconds (now : Nat) : Int := ((now / 1000000 : Nat) : Int)

/-- `hmac.compare_digest` of two strings -/
def compare_digest (a b : String) : Except Exn Bool :=
  if a.toList.all (·.toNat < 128) && b.toList.all (·.toNat < 128) then .ok (a == b)
  else .error (.other "TypeError" "comparing strings with non-ASCII characters is not supported")

/-- What one call is made with, and when. -/
structure Call where
  now : Nat
  host_id : String
  secret : String
  timestamp : Int
  nonce : String
  signature : String
  body : String := ""
  deriving DecidableEq

/-- The text that is signed. -/
def message (host_id : String) (timestamp : Int) (nonce body : String) : String :=
  host_id ++ ":" ++ toString timestamp ++ ":" ++ nonce ++ ":" ++ body

section

-- HMAC-SHA256 of a message under a secret, in hexadecimal
variable (hmac : String → String → String)

def generate_signature (host_id secret : String) (timestamp : Int) (nonce body : String) : String :=
  hmac secret (message host_id timestamp nonce body)

def nonce_key (nonce : String) : String := "request_nonce:" ++ nonce

/-- The verdict with its error message, and the cache that the call leaves behind. -/
def verify_signature (max_age : Int) (cache : Cache) (c : Call) :
    Except Exn ((Bool × String) × Cache) :=
  let current_time := whole_seconds c.now
  if max_age < (current_time - c.timestamp).natAbs then
    .ok ((false, "Signature expired (timestamp: " ++ toString c.timestamp ++ ", current: " ++
      toString current_time ++ ")"), cache)
  else if cache.get c.now (nonce_key c.nonce) then
    .ok ((false, "Nonce already used: " ++ c.nonce), cache)
  else do
    let expected_signature := generate_signature hmac c.host_id c.secret c.timestamp c.nonce c.body
    if ¬ (← compare_digest c.signature expected_signature) then
      pure ((false, "Signature mismatch"), cache)
    else
      pure ((true, ""), cache.set c.now (nonce_key c.nonce) max_age)

/-- The signature is the one expected of the call. -/
def Signed (c : Call) : Prop :=
  compare_digest c.signature
    (generate_signature hmac c.host_id c.secret c.timestamp c.nonce c.body) = .ok true

/-- The timestamp is not too old and not too far ahead of the clock. -/
def Current (max_age : Int) (c : Call) : Prop :=
  (whole_seconds c.now - c.timestamp).natAbs ≤ max_age

instance (c : Call) : Decidable (Signed hmac c) := inferInstanceAs (Decidable (_ = _))

instance (max_age : Int) (c : Call) : Decidable (Current max_age c) :=
  inferInstanceAs (Decidable (_ ≤ _))

end

/-- Digests that compare equal are equal. -/
theorem compare_digest_true {a b : String} (h : compare_digest a b = .ok true) : a = b := by
  unfold compare_digest at h
  split_ifs at h with hascii
  exact eq_of_beq (Except.ok.inj h)

/-- Each nonce has its own key. -/
theorem nonce_key_injective {a b : String} (h : nonce_key a = nonce_key b) : a = b := by
  have hlists := congrArg String.toList h
  simp only [nonce_key, String.toList_append] at hlists
  exact String.toList_inj.mp (List.append_cancel_left hlists)

section

variable {hmac : String → String → String} {max_age : Int} {cache left : Cache} {c : Call}

/-- An accepted call is signed, current and new, and its nonce is remembered for
`max_age` seconds. -/
theorem accepted_iff (text : String) :
    verify_signature hmac max_age cache c = .ok ((true, text), left) ↔
      Current max_age c ∧ cache.get c.now (nonce_key c.nonce) = false ∧ Signed hmac c ∧
        text = "" ∧ left = cache.set c.now (nonce_key c.nonce) max_age := by
  unfold verify_signature Current Signed
  by_cases hold : max_age < (whole_seconds c.now - c.timestamp).natAbs
  · have hnot : ¬ ((whole_seconds c.now - c.timestamp).natAbs : Int) ≤ max_age := by omega
    simp only [if_pos hold, hnot, false_and, iff_false]
    exact fun h => Bool.false_ne_true (Prod.mk.inj (Prod.mk.inj (Except.ok.inj h)).1).1
  have hcurrent : ((whole_seconds c.now - c.timestamp).natAbs : Int) ≤ max_age := by omega
  simp only [if_neg hold, hcurrent, true_and]
  cases hnonce : cache.get c.now (nonce_key c.nonce) with
  | true => simp
  | false =>
    simp only [Bool.false_eq_true, if_false, true_and]
    cases hcompare : compare_digest c.signature
        (generate_signature hmac c.host_id c.secret c.timestamp c.nonce c.body) with
    | error e => simp [bind, Except.bind]
    | ok same =>
      cases same <;> simp [bind, Except.bind, pure, Except.pure, eq_comm]

/-- A call that is refused leaves the cache as it is. -/
theorem cache_of_refused {text : String}
    (h : verify_signature hmac max_age cache c = .ok ((false, text), left)) :
    left = cache := by
  unfold verify_signature at h
  dsimp only at h
  split_ifs at h
  · exact (Prod.mk.inj (Except.ok.inj h)).2.symm
  · exact (Prod.mk.inj (Except.ok.inj h)).2.symm
  cases hcompare : compare_digest c.signature
      (generate_signature hmac c.host_id c.secret c.timestamp c.nonce c.body) with
  | error e => simp [hcompare, bind, Except.bind] at h
  | ok same =>
    cases same with
    | true => simp [hcompare, bind, Except.bind, pure, Except.pure] at h
    | false =>
      simp only [hcompare, bind, Except.bind, pure, Except.pure, Bool.false_eq_true,
        not_false_eq_true, if_true, Except.ok.injEq, Prod.mk.injEq] at h
      exact h.2.symm

end

end taurus.utils.signing
