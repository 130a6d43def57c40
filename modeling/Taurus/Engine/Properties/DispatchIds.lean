import Taurus.Engine.Runner.World
import Taurus.Lib.Framing
import Taurus.Python.Float

namespace taurus.engine.runner

open taurus.lib taurus.python

/-- An attempt to run a node on a host. -/
structure Attempt where
  execution_id : Nat
  node_key : String
  host_id : String
  attempt_no : Nat

namespace Attempt

variable (a b : Attempt)

def dispatch_id : String := _make_dispatch_id a.execution_id a.node_key a.host_id a.attempt_no

/-- The text that is hashed. -/
def raw : String := s!"wfex-{a.execution_id}:{a.node_key}:{a.host_id}:{a.attempt_no}"

/-- What of the hash the dispatch id carries. -/
def digest : List Char := (sha1_hexdigest a.raw.toList).take 10

/-- The key of `a` ends at a colon in the key of `b`, beyond the 32 characters that the dispatch id
shows, and the rest of that key stands in the host of `a`. -/
def Shifted : Prop :=
  a.execution_id = b.execution_id ∧ a.attempt_no = b.attempt_no ∧ 32 ≤ a.node_key.toList.length ∧
    ∃ u : List Char, b.node_key.toList = a.node_key.toList ++ ':' :: u ∧
    a.host_id.toList = u ++ ':' :: b.host_id.toList

/-- The text that is hashed, part by part. -/
theorem toList_raw : a.raw.toList = "wfex-".toList ++ ((toString a.execution_id).toList ++
    ':' :: ((a.node_key.toList ++ ':' :: a.host_id.toList) ++
      ':' :: (toString a.attempt_no).toList)) := by
  simp only [raw, String.toList_append, List.append_assoc]
  rfl

/-- The id, part by part. -/
theorem toList_dispatch_id : a.dispatch_id.toList =
    "wfex-".toList ++ ((toString a.execution_id).toList ++
      '-' :: (a.node_key.toList.take 32 ++ '-' :: a.digest)) := by
  have hid : a.dispatch_id =
      s!"wfex-{a.execution_id}-{String.ofList (a.node_key.toList.take 32)}-{String.ofList a.digest}" := rfl
  have hstem : (toString (String.ofList (a.node_key.toList.take 32))).toList =
    a.node_key.toList.take 32 := String.toList_ofList
  have hdigest : (toString (String.ofList a.digest)).toList = a.digest := String.toList_ofList
  have hdash : (toString "-").toList = ['-'] := rfl
  simp only [hid, String.toList_append, List.append_assoc, hstem, hdigest, hdash,
    List.singleton_append]
  rfl

theorem length_digest : a.digest.length = 10 := by
  have hdigits : ∀ base count n, (digits base count n).length = count := by
    intro base count
    induction count with
    | zero => exact fun n => rfl
    | succ count ih =>
      intro n
      rw [digits, List.length_append, ih, List.length_singleton]
  simp [digest, sha1_hexdigest, hdigits]

theorem not_mem_toString {c : Char} (h : c.isDigit = false) (n : Nat) :
    c ∉ (toString n).toList := by
  intro hmem
  have hdigit : c.isDigit = true := isDigit_of_mem_toDigits (by simpa using hmem)
  simp [h] at hdigit

theorem toString_injective {m n : Nat} (h : (toString m).toList = (toString n).toList) : m = n := by
  have hdigits : Nat.toDigits 10 m = Nat.toDigits 10 n := by simpa using h
  rw [← Nat.ofDigitChars_ten_toDigits (n := m), hdigits, Nat.ofDigitChars_ten_toDigits]

variable {a b}

/-- Keys and hosts are joined by a colon, and that text is hashed with the two numbers. -/
theorem raw_eq_iff : a.raw = b.raw ↔ a.execution_id = b.execution_id ∧ a.attempt_no = b.attempt_no ∧
    a.node_key.toList ++ ':' :: a.host_id.toList =
      b.node_key.toList ++ ':' :: b.host_id.toList := by
  rw [← String.toList_inj, toList_raw, toList_raw]
  constructor
  · intro h
    obtain ⟨hid, hrest⟩ :=
      append_cons_inj_of_not_mem (not_mem_toString rfl _) (not_mem_toString rfl _)
        (List.append_cancel_left h)
    obtain ⟨hjoined, hno⟩ :=
      append_cons_inj_of_not_mem_right (not_mem_toString rfl _) (not_mem_toString rfl _) hrest
    exact ⟨toString_injective hid, toString_injective hno, hjoined⟩
  · rintro ⟨hid, hno, hjoined⟩
    rw [hid, hno, hjoined]

/-- Equal dispatch ids show the same execution, the same 32 characters of the key and
the same digest. -/
theorem dispatch_id_eq_iff : a.dispatch_id = b.dispatch_id ↔
    a.execution_id = b.execution_id ∧ a.node_key.toList.take 32 = b.node_key.toList.take 32 ∧
      a.digest = b.digest := by
  rw [← String.toList_inj, toList_dispatch_id, toList_dispatch_id]
  constructor
  · intro h
    obtain ⟨hid, hrest⟩ :=
      append_cons_inj_of_not_mem (not_mem_toString rfl _) (not_mem_toString rfl _)
        (List.append_cancel_left h)
    obtain ⟨hstem, hdigest⟩ := List.append_inj' hrest (by simp [length_digest])
    exact ⟨toString_injective hid, hstem, (List.cons.inj hdigest).2⟩
  · rintro ⟨hid, hstem, hdigest⟩
    rw [hid, hstem, hdigest]

/-- A key is cut off unless it is shorter. -/
theorem take_eq_take_append_cons_iff {xs rest : List Char} {c : Char} :
    xs.take 32 = (xs ++ c :: rest).take 32 ↔ 32 ≤ xs.length := by
  constructor
  · intro h
    have hlength := congrArg List.length h
    simp only [List.length_take, List.length_append, List.length_cons] at hlength
    omega
  · intro h
    rw [List.take_append_of_le_length h]

/-- Two attempts of which one is shifted have the same dispatch id. -/
theorem Shifted.collide (h : Shifted a b) :
    a.dispatch_id = b.dispatch_id ∧ a.node_key ≠ b.node_key := by
  obtain ⟨hid, hno, hlong, u, hkey, hhost⟩ := h
  have hraw : a.raw = b.raw := raw_eq_iff.mpr ⟨hid, hno, by simp [hkey, hhost]⟩
  refine ⟨dispatch_id_eq_iff.mpr ⟨hid, ?_, by rw [digest, digest, hraw]⟩, ?_⟩
  · rw [hkey]
    exact take_eq_take_append_cons_iff.mpr hlong
  · intro hsame
    have hlength := congrArg List.length hkey
    rw [hsame, List.length_append, List.length_cons] at hlength
    omega

/-- Where the digest tells the two hashed texts apart, the dispatch ids tell the two attempts apart,
unless a long key and a host share the text at a colon. -/
theorem identified_iff (a b : Attempt) (hinjective : a.digest = b.digest → a.raw = b.raw) :
    (a.dispatch_id = b.dispatch_id → a = b) ↔ ¬(Shifted a b ∨ Shifted b a) := by
  constructor
  · rintro hidentified (hshifted | hshifted)
    · exact hshifted.collide.2 (by rw [hidentified hshifted.collide.1])
    · exact hshifted.collide.2 (by rw [hidentified hshifted.collide.1.symm])
  · intro hnot h
    obtain ⟨-, hstem, hdigest⟩ := dispatch_id_eq_iff.mp h
    obtain ⟨hid, hno, hjoined⟩ := raw_eq_iff.mp (hinjective hdigest)
    obtain ⟨hkey, hhost⟩ | ⟨u, hkey, hhost⟩ | ⟨u, hkey, hhost⟩ :=
      append_cons_eq_append_cons_iff.mp hjoined
    · cases a
      cases b
      simp only [String.toList_inj] at hid hno hkey hhost
      rw [hid, hno, hkey, hhost]
    · rw [hkey] at hstem
      exact absurd (.inl ⟨hid, hno, take_eq_take_append_cons_iff.mp hstem, u, hkey, hhost⟩) hnot
    · rw [hkey] at hstem
      exact absurd (.inr ⟨hid.symm, hno.symm, take_eq_take_append_cons_iff.mp hstem.symm, u,
        hkey, hhost⟩) hnot

/-- A retry has a dispatch id of its own. -/
theorem retry_identified :
    let first : Attempt :=
  { execution_id := 1, node_key := "deploy", host_id := "web-1", attempt_no := 1 }
    let retry : Attempt := { first with attempt_no := 2 }
    (first.dispatch_id = retry.dispatch_id → first = retry) ↔
        ¬(Shifted first retry ∨ Shifted retry first) :=
  identified_iff _ _ fun hdigest => absurd hdigest (by decide +kernel)

/-- The node of the longer key, and the host that begins with the rest of it. -/
theorem colon_keys_collide :
    ¬ ∀ a b : Attempt, (a.digest = b.digest → a.raw = b.raw) →
      a.dispatch_id = b.dispatch_id → a = b := by
  intro h
  let short : Attempt :=
    { execution_id := 1, node_key := "restart-the-payment-service-nodes", host_id := "eu:web-1", attempt_no := 1 }
  let long : Attempt := { short with node_key := short.node_key ++ ":eu", host_id := "web-1" }
  have hshifted : Shifted short long := ⟨rfl, rfl, by decide, "eu".toList, by decide, by decide⟩
  have hraw : short.raw = long.raw := raw_eq_iff.mpr ⟨rfl, rfl, by decide⟩
  have hsame : short = long := h short long (fun _ => hraw) hshifted.collide.1
  exact hshifted.collide.2 (congrArg node_key hsame)

end Attempt

end taurus.engine.runner
