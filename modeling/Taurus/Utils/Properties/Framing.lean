import Taurus.Lib.Framing
import Taurus.Python.Float
import Taurus.Utils.Signing

namespace taurus.utils.signing

open taurus.lib taurus.python

/-- The fields of a request that are signed. -/
structure Request where
  host_id : String
  timestamp : Int
  nonce : String
  body : String
  deriving DecidableEq

def Call.request (c : Call) : Request :=
  { host_id := c.host_id, timestamp := c.timestamp, nonce := c.nonce, body := c.body }

/-- The colons of a signed message are those between its fields: nonce and body have
none, and no part of the host id after a colon is a decimal integer. -/
def Request.Unambiguous (r : Request) : Prop :=
  ':' ∉ r.nonce.toList ∧ ':' ∉ r.body.toList ∧
    ∀ k : Int, (toString k).toList ∉ (r.host_id.toList.splitOn ':').tail

def Request.message (r : Request) : String := signing.message r.host_id r.timestamp r.nonce r.body

def Request.frame (r : Request) : Frame Char Int :=
  { front := r.host_id.toList, mark := r.timestamp, middle := r.nonce.toList, back := r.body.toList }

/-- The call is accepted on some state of the cache. -/
def Accepted (hmac : String → String → String) (c : Call) : Prop :=
  ∃ max_age cache text left, verify_signature hmac max_age cache c = .ok ((true, text), left)

theorem colon_not_mem_toDigits (n : Nat) : ':' ∉ Nat.toDigits 10 n := by
  intro hmem
  have hdigit := isDigit_of_mem_toDigits hmem
  exact absurd hdigit (by decide)

theorem colon_not_mem_toString (k : Int) : ':' ∉ (toString k).toList := by
  rw [Int.toString_eq_repr, Int.repr_eq_if]
  split
  · rw [Nat.toList_repr]
    exact colon_not_mem_toDigits _
  · rw [String.toList_append, Nat.toList_repr]
    simp [colon_not_mem_toDigits]

namespace Request

/-- A message is the encoding of its frame. -/
theorem toList_message (r : Request) :
    r.message.toList = r.frame.encode ':' fun k => (toString k).toList := by
  simp [message, signing.message, frame, Frame.encode]

/-- A request is given by its frame. -/
theorem frame_injective : Function.Injective frame := by
  intro q r h
  obtain ⟨host_id, timestamp, nonce, body⟩ := q
  obtain ⟨host_id', timestamp', nonce', body'⟩ := r
  simp only [frame, Frame.mk.injEq, String.toList_inj] at h
  obtain ⟨rfl, rfl, rfl, rfl⟩ := h
  rfl

theorem exists_frame_eq (f : Frame Char Int) : ∃ r : Request, r.frame = f :=
  ⟨{ host_id := String.ofList f.front, timestamp := f.mark, nonce := String.ofList f.middle,
     body := String.ofList f.back }, by simp [frame]⟩

/-- Requests have one message exactly if their frames have one encoding. -/
theorem message_eq_iff {q r : Request} :
    q.message = r.message ↔
      q.frame.encode ':' (fun k => (toString k).toList) =
        r.frame.encode ':' fun k => (toString k).toList := by
  rw [← toList_message, ← toList_message, String.toList_inj]

/-- A message determines its request exactly if that is unambiguous. -/
theorem message_determines_iff (r : Request) :
    (∀ q : Request, q.message = r.message → q = r) ↔ r.Unambiguous := by
  have hframes := Frame.determined_iff colon_not_mem_toString toString_toList_injective r.frame
  refine Iff.trans ⟨fun h g hg => ?_, fun h q hq => ?_⟩ hframes
  · obtain ⟨q, rfl⟩ := exists_frame_eq g
    rw [h q (message_eq_iff.mpr hg)]
  · exact frame_injective (h q.frame (message_eq_iff.mp hq))

end Request

/-- Under an injective HMAC, one signature is accepted for one message. -/
theorem message_eq_of_accepted {hmac : String → String → String} {c d : Call}
    (hinjective : ∀ secret, Function.Injective (hmac secret)) (hsecret : d.secret = c.secret)
    (hsignature : d.signature = c.signature) (hc : Accepted hmac c) (hd : Accepted hmac d) :
    d.request.message = c.request.message := by
  obtain ⟨_, _, _, _, hc⟩ := hc
  obtain ⟨_, _, _, _, hd⟩ := hd
  have hc := compare_digest_true ((accepted_iff _).mp hc).2.2.1
  have hd := compare_digest_true ((accepted_iff _).mp hd).2.2.1
  apply hinjective c.secret
  rw [hsignature, hsecret] at hd
  exact hd.symm.trans hc

/-- Exactly for an unambiguous request the message determines the request, and its
signature is not accepted for another one. -/
theorem signed_for_one_request_iff (hmac : String → String → String)
    (hinjective : ∀ secret, Function.Injective (hmac secret)) (r : Request) :
    ((∀ q : Request, q.message = r.message → q = r) ∧
      ∀ c d : Call, c.request = r → d.secret = c.secret → d.signature = c.signature →
        Accepted hmac c →
        Accepted hmac d → d.request = r) ↔ r.Unambiguous := by
  rw [← Request.message_determines_iff]
  refine and_iff_left_of_imp fun hmessage c d hr hsecret hsignature hc hd => ?_
  apply hmessage
  rw [message_eq_of_accepted hinjective hsecret hsignature hc hd, hr]

/-- A call of the first second that can be observed on the way. -/
def observed : Call where
  now := 1000200000
  host_id := "host-1"
  secret := "my-secret"
  timestamp := 1000
  nonce := "nonce1"
  signature := "8018294d0e1b9b282ece9083a4afee56c5ed2ea4b63d257d8b4eb42cea32948f"
  body := "a:b"

/-- The true digest of the observed message, and another text for each other message. -/
def digest (_ text : String) : String :=
  if text = "host-1:1000:nonce1:a:b" then observed.signature else "/" ++ text

/-- The example digests are injective. -/
theorem digest_injective (secret : String) : Function.Injective (digest secret) := by
  intro s t h
  have hfirst : observed.signature.toList.head? ≠ some '/' := by decide
  unfold digest at h
  split_ifs at h with hs ht ht
  · rw [hs, ht]
  · rw [h] at hfirst
    exact absurd (by simp) hfirst
  · rw [← h] at hfirst
    exact absurd (by simp) hfirst
  · have hlists := congrArg String.toList h
    simp only [String.toList_append] at hlists
    exact String.toList_inj.mp (List.append_cancel_left hlists)

/-- A request with neither a colon in its host id nor a body is unambiguous. -/
theorem plain_signed_for_one_request :
    (∀ q : Request, q.message = "host-1:1000:nonce1:" → q = ⟨"host-1", 1000, "nonce1", ""⟩) ∧
      ∀ c d : Call, c.request = ⟨"host-1", 1000, "nonce1", ""⟩ → d.secret = c.secret →
        d.signature = c.signature →
        Accepted digest c → Accepted digest d → d.request = ⟨"host-1", 1000, "nonce1", ""⟩ :=
  (signed_for_one_request_iff digest digest_injective ⟨"host-1", 1000, "nonce1", ""⟩).mpr
    ⟨by decide, by decide, fun k hk => by
      rw [List.splitOn_eq_singleton (by decide)] at hk
      exact List.not_mem_nil hk⟩

/-- The observed request is sent again under a new nonce, which takes over a part of the body. -/
theorem observed_accepted_under_new_nonce :
    ∃ d : Call, d.secret = observed.secret ∧ d.signature = observed.signature ∧
      d.nonce ≠ observed.nonce ∧
      d.request.message = observed.request.message ∧
      ∃ left text left', verify_signature digest 300 [] observed = .ok ((true, text), left) ∧
        verify_signature digest 300 left d = .ok ((true, text), left') :=
  ⟨{ observed with nonce := "nonce1:a", body := "b" }, rfl, rfl, by decide, by decide +kernel,
    [("request_nonce:nonce1", 1300200000)], "",
    [("request_nonce:nonce1", 1300200000), ("request_nonce:nonce1:a", 1300200000)],
      by decide +kernel, by decide +kernel⟩

end taurus.utils.signing
