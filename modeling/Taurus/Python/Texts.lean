import Taurus.Python.Json

/-! The texts inside a JSON value, and values that agree but for their texts. -/

namespace taurus.python

mutual

/-- The texts of a value in order; keys are none. -/
def texts : Json → List String
  | .str s => [s]
  | .arr xs => textsList xs
  | .obj kvs => textsDict kvs
  | .null | .bool _ | .int _ | .float _ => []

def textsList : List Json → List String
  | [] => []
  | v :: rest => texts v ++ textsList rest

def textsDict : List (String × Json) → List String
  | [] => []
  | (_, v) :: rest => texts v ++ textsDict rest

end

mutual

/-- Equal values, but that a text `s` of the first has a text `t` with `R s t` in its place. -/
def Related (R : String → String → Prop) : Json → Json → Prop
  | .str s, v => ∃ t, v = .str t ∧ R s t
  | .arr xs, v => ∃ ys, v = .arr ys ∧ RelatedList R xs ys
  | .obj kvs, v => ∃ kvs', v = .obj kvs' ∧ RelatedDict R kvs kvs'
  | .null, v => v = .null
  | .bool b, v => v = .bool b
  | .int n, v => v = .int n
  | .float q, v => v = .float q

def RelatedList (R : String → String → Prop) : List Json → List Json → Prop
  | [], ys => ys = []
  | v :: rest, ys => ∃ w rest', ys = w :: rest' ∧ Related R v w ∧ RelatedList R rest rest'

def RelatedDict (R : String → String → Prop) : List (String × Json) → List (String × Json) → Prop
  | [], ys => ys = []
  | (k, v) :: rest, ys => ∃ w rest', ys = (k, w) :: rest' ∧ Related R v w ∧ RelatedDict R rest rest'

end

variable {R : String → String → Prop}

mutual

/-- A value is related to itself if its texts are. -/
theorem related_self_iff : ∀ v : Json, Related R v v ↔ ∀ s ∈ texts v, R s s
  | .str s => by simp [Related, texts]
  | .arr xs => by simpa [Related, texts] using relatedList_self_iff xs
  | .obj kvs => by simpa [Related, texts] using relatedDict_self_iff kvs
  | .null | .bool _ | .int _ | .float _ => by simp [Related, texts]

theorem relatedList_self_iff : ∀ xs : List Json, RelatedList R xs xs ↔ ∀ s ∈ textsList xs, R s s
  | [] => by simp [RelatedList, textsList]
  | v :: rest => by
    have hv := related_self_iff v
    have hrest := relatedList_self_iff rest
    simp only [RelatedList, textsList, List.mem_append, or_imp, forall_and, ← hv, ← hrest]
    constructor
    · rintro ⟨w, rest', heq, hw⟩
      obtain ⟨rfl, rfl⟩ := List.cons.inj heq
      exact hw
    · exact fun h => ⟨v, rest, rfl, h⟩

theorem relatedDict_self_iff :
    ∀ kvs : List (String × Json), RelatedDict R kvs kvs ↔ ∀ s ∈ textsDict kvs, R s s
  | [] => by simp [RelatedDict, textsDict]
  | (k, v) :: rest => by
    have hv := related_self_iff v
    have hrest := relatedDict_self_iff rest
    simp only [RelatedDict, textsDict, List.mem_append, or_imp, forall_and, ← hv, ← hrest]
    constructor
    · rintro ⟨w, rest', heq, hw⟩
      obtain ⟨hkv, rfl⟩ := List.cons.inj heq
      obtain ⟨-, rfl⟩ := Prod.mk.inj hkv
      exact hw
    · exact fun h => ⟨v, rest, rfl, h⟩

end

variable {R' : String → String → Prop}

mutual

theorem Related.imp :
    ∀ {v w : Json}, (∀ s ∈ texts v, ∀ t, R s t → R' s t) → Related R v w → Related R' v w
  | .str s, _, himp, ⟨t, hw, ht⟩ => ⟨t, hw, himp s (by simp [texts]) t ht⟩
  | .arr _, _, himp, ⟨ys, hw, hys⟩ => ⟨ys, hw, RelatedList.imp himp hys⟩
  | .obj _, _, himp, ⟨kvs', hw, hkvs⟩ => ⟨kvs', hw, RelatedDict.imp himp hkvs⟩
  | .null, _, _, h => h
  | .bool _, _, _, h => h
  | .int _, _, _, h => h
  | .float _, _, _, h => h

theorem RelatedList.imp : ∀ {xs ys : List Json}, (∀ s ∈ textsList xs, ∀ t, R s t → R' s t) →
    RelatedList R xs ys → RelatedList R' xs ys
  | [], _, _, h => h
  | _ :: _, _, himp, ⟨w, rest', hys, hv, hrest⟩ =>
    ⟨w, rest', hys, Related.imp (fun s hs => himp s (List.mem_append_left _ hs)) hv,
      RelatedList.imp (fun s hs => himp s (List.mem_append_right _ hs)) hrest⟩

theorem RelatedDict.imp :
    ∀ {xs ys : List (String × Json)}, (∀ s ∈ textsDict xs, ∀ t, R s t → R' s t) →
    RelatedDict R xs ys → RelatedDict R' xs ys
  | [], _, _, h => h
  | (_, _) :: _, _, himp, ⟨w, rest', hys, hv, hrest⟩ =>
    ⟨w, rest', hys, Related.imp (fun s hs => himp s (List.mem_append_left _ hs)) hv,
      RelatedDict.imp (fun s hs => himp s (List.mem_append_right _ hs)) hrest⟩

end

mutual

/-- A text of the second value stands for one of the first. -/
theorem Related.exists_of_mem :
    ∀ {v w : Json}, Related R v w → ∀ {t : String}, t ∈ texts w → ∃ s ∈ texts v, R s t
  | .str s, _, ⟨t', hw, ht'⟩, t, ht => by
    subst hw
    obtain rfl : t = t' := by simpa [texts] using ht
    exact ⟨s, by simp [texts], ht'⟩
  | .arr _, _, ⟨ys, hw, hys⟩, t, ht => by
    subst hw
    exact RelatedList.exists_of_mem hys ht
  | .obj _, _, ⟨kvs', hw, hkvs⟩, t, ht => by
    subst hw
    exact RelatedDict.exists_of_mem hkvs ht
  | .null, _, h, _, ht | .bool _, _, h, _, ht | .int _, _, h, _, ht | .float _, _, h, _, ht => by
    rw [h] at ht
    cases ht

theorem RelatedList.exists_of_mem :
    ∀ {xs ys : List Json}, RelatedList R xs ys → ∀ {t : String}, t ∈ textsList ys →
    ∃ s ∈ textsList xs, R s t
  | [], _, h, _, ht => by
    rw [h] at ht
    cases ht
  | _ :: _, _, ⟨w, rest', hys, hv, hrest⟩, t, ht => by
    subst hys
    obtain ht | ht := List.mem_append.mp ht
    · obtain ⟨s, hs, hst⟩ := hv.exists_of_mem ht
      exact ⟨s, List.mem_append_left _ hs, hst⟩
    · obtain ⟨s, hs, hst⟩ := hrest.exists_of_mem ht
      exact ⟨s, List.mem_append_right _ hs, hst⟩

theorem RelatedDict.exists_of_mem :
    ∀ {xs ys : List (String × Json)}, RelatedDict R xs ys → ∀ {t : String}, t ∈ textsDict ys →
    ∃ s ∈ textsDict xs, R s t
  | [], _, h, _, ht => by
    rw [h] at ht
    cases ht
  | (_, _) :: _, _, ⟨w, rest', hys, hv, hrest⟩, t, ht => by
    subst hys
    obtain ht | ht := List.mem_append.mp ht
    · obtain ⟨s, hs, hst⟩ := hv.exists_of_mem ht
      exact ⟨s, List.mem_append_left _ hs, hst⟩
    · obtain ⟨s, hs, hst⟩ := hrest.exists_of_mem ht
      exact ⟨s, List.mem_append_right _ hs, hst⟩

end

end taurus.python

/-! JSON pointers to the texts inside a value. -/

namespace taurus.python

/-- A key as it stands in a pointer. -/
def pointer_token (key : String) : String :=
  String.ofList (key.toList.flatMap fun c => if c = '~' then ['~', '0']
    else if c = '/' then ['~', '1'] else [c])

mutual

/-- The texts inside a value, each with its pointer; `pointer` is that of the value itself. -/
def leaves (pointer : String) : Json → List (String × String)
  | .str s => [(pointer, s)]
  | .arr xs => leavesList pointer 0 xs
  | .obj kvs => leavesDict pointer kvs
  | .null | .bool _ | .int _ | .float _ => []

/-- `i` is the index of the first element. -/
def leavesList (pointer : String) (i : Nat) : List Json → List (String × String)
  | [] => []
  | v :: rest => leaves (pointer ++ "/" ++ toString i) v ++ leavesList pointer (i + 1) rest

def leavesDict (pointer : String) : List (String × Json) → List (String × String)
  | [] => []
  | (k, v) :: rest => leaves (pointer ++ "/" ++ pointer_token k) v ++ leavesDict pointer rest

end

mutual

/-- The pointer of a leaf goes on from that of the value it is in. -/
theorem leaves_extends (pointer : String) :
    ∀ v : Json, ∀ leaf ∈ leaves pointer v, ∃ rest, leaf.1.toList = pointer.toList ++ rest
  | .str s, leaf, h => by
    obtain rfl : leaf = (pointer, s) := by simpa [leaves] using h
    exact ⟨[], (List.append_nil _).symm⟩
  | .arr xs, leaf, h => by
    rw [leaves] at h
    obtain ⟨rest, hrest⟩ := leavesList_extends pointer 0 xs leaf h
    exact ⟨'/' :: rest, hrest⟩
  | .obj kvs, leaf, h => by
    rw [leaves] at h
    obtain ⟨rest, hrest⟩ := leavesDict_extends pointer kvs leaf h
    exact ⟨'/' :: rest, hrest⟩
  | .null, _, h | .bool _, _, h | .int _, _, h | .float _, _, h => by simp [leaves] at h

theorem leavesList_extends (pointer : String) (i : Nat) :
    ∀ xs : List Json, ∀ leaf ∈ leavesList pointer i xs, ∃ rest, leaf.1.toList =
      pointer.toList ++ '/' :: rest
  | [], _, h => by simp [leavesList] at h
  | v :: xs, leaf, h => by
    rw [leavesList, List.mem_append] at h
    cases h with
    | inl h =>
      obtain ⟨rest, hrest⟩ := leaves_extends _ v leaf h
      exact ⟨(toString i).toList ++ rest, by simp [hrest, String.toList_append]⟩
    | inr h => exact leavesList_extends pointer (i + 1) xs leaf h

theorem leavesDict_extends (pointer : String) :
    ∀ kvs : List (String × Json), ∀ leaf ∈ leavesDict pointer kvs,
      ∃ rest, leaf.1.toList = pointer.toList ++ '/' :: rest
  | [], _, h => by simp [leavesDict] at h
  | (k, v) :: kvs, leaf, h => by
    rw [leavesDict, List.mem_append] at h
    cases h with
    | inl h =>
      obtain ⟨rest, hrest⟩ := leaves_extends _ v leaf h
      exact ⟨(pointer_token k).toList ++ rest, by simp [hrest, String.toList_append]⟩
    | inr h => exact leavesDict_extends pointer kvs leaf h

end

end taurus.python
