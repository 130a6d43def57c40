import Mathlib.Data.List.Induction
import Mathlib.Data.List.Nodup
import Taurus.Scripts.Versions

namespace taurus.scripts

open taurus.python

/-- A content saved as a version, by an edit or otherwise. -/
structure Save where
  content : String
  is_edit : Bool
deriving DecidableEq

/-- What an event does to a script. -/
inductive Effect (limit : Option Int) (s : Script) (key : Option Nat) : Option Save → Script → Prop
  | kept (status : Nat) : Effect limit s key none { s with status }
  | edited (id : Nat) (hkey : key = some id) (content desc : String) (status : Nat) :
      Effect limit s key (some ⟨content, true⟩)
        { next_version { s with versions := evict_to_quota limit s.versions } id content desc with status }
  | rolled_back (id : Nat) (hkey : key = some id) (content desc : String) (status : Nat) :
      Effect limit s key (some ⟨content, false⟩) { next_version s id content desc with status }
  | upgraded (id : Nat) (hkey : key = some id) (hofficial : s.is_official = true)
      (data : OfficialScript) (desc : String) :
      Effect limit s key (some ⟨data.content, false⟩)
        (create_version
          { cancel_current s with
            content := data.content, official_version := data.official_version, changelog := data.changelog
            current_version := data.official_version }
          id data.official_version data.content desc)

variable {limit : Option Int} {s : Script}

/-- An update saves at most one content. -/
theorem Effect.update (id : Nat) (u : ScriptUpdate) (is_staff : Bool) (approval : Option Nat) :
    ∃ save, Effect limit s (some id) save
      ((perform_update s id u is_staff limit approval).toOption.getD s) ∧
      ∀ x ∈ save, x.is_edit = true := by
  unfold perform_update
  split_ifs with hblocked hofficial
  · exact ⟨none, .kept s.status, by simp⟩
  · exact ⟨none, .kept s.status, by simp⟩
  · simp only [Except.toOption, Option.getD_some]
    by_cases hsame : s.content = u.content.getD s.content
    · refine ⟨none, ?_, by simp⟩
      rw [if_neg (not_not.mpr hsame), ← hsame]
      split_ifs
      · exact .kept _
      · exact .kept _
    · refine ⟨some ⟨u.content.getD s.content, true⟩, ?_, by simp⟩
      rw [if_pos hsame]
      split_ifs
      · exact .edited id rfl _ _ _
      · exact .edited id rfl _ _ _

theorem Effect.rollback (id : Nat) (version_id : Option Nat) (approval : Option Nat) :
    ∃ save, Effect limit s (some id) save
      ((rollback_version s id version_id approval).toOption.getD s) ∧
      ∀ x ∈ save, x.is_edit = false := by
  unfold rollback_version
  split_ifs
  · exact ⟨none, .kept s.status, by simp⟩
  · cases version_id with
    | none => exact ⟨none, .kept s.status, by simp⟩
    | some version_id =>
      simp only
      cases s.versions.find? (·.id = version_id) with
      | none => exact ⟨none, .kept s.status, by simp⟩
      | some version =>
        exact ⟨_, .rolled_back id rfl version.content s!"Rollback to {version.version}" _, by simp⟩

theorem Effect.upgrade (id : Nat) (data : OfficialScript) :
    ∃ save, Effect limit s (some id) save (upgrade_official s id data) ∧
      ∀ x ∈ save, x.is_edit = false := by
  unfold upgrade_official
  by_cases h : s.is_official = false ∨
    parse_version data.official_version ≤ parse_version s.official_version
  · rw [if_pos h]
    exact ⟨none, .kept s.status, by simp⟩
  · rw [if_neg h]
    have hofficial : s.is_official = true := by simpa using fun heq => h (Or.inl heq)
    exact ⟨_, .upgraded id rfl hofficial data _, by simp⟩

/-- The event is an edit. -/
def Event.is_edit : Event → Bool
  | .update .. => true
  | _ => false

/-- What the event saves as a version with its key. -/
def Event.saved (limit : Option Int) (s : Script) (e : Event) : Option Save :=
  if (e.run limit s).versions.any fun v => e.key = some v.id then
    some ⟨(e.run limit s).content, e.is_edit⟩
  else none

/-- Every event has one of these effects. -/
theorem Event.effect {e : Event} (hfresh : e.Fresh s) (limit : Option Int) :
    Effect limit s e.key (e.saved limit s) (e.run limit s) := by
  obtain ⟨save, heffect, hedit⟩ : ∃ save, Effect limit s e.key save (e.run limit s) ∧
      ∀ x ∈ save, x.is_edit = e.is_edit := by
    cases e with
    | update id u is_staff approval => exact Effect.update id u is_staff approval
    | rollback id version_id approval => exact Effect.rollback id version_id approval
    | upgrade id data => exact Effect.upgrade id data
    | set_status status => exact ⟨none, .kept status, by simp⟩
  have hsaved : e.saved limit s = save := by
    unfold Event.saved
    generalize e.run limit s = after at heffect
    unfold Event.Fresh at hfresh
    generalize e.key = key at heffect hfresh
    cases heffect with
    | kept status =>
      refine if_neg fun hany => ?_
      obtain ⟨v, hv, hkey⟩ := List.any_eq_true.mp hany
      have hlt := hfresh v.id (by simpa using hkey) v hv
      omega
    | edited id hkey content desc status =>
      rw [← hedit _ rfl]
      exact if_pos (by simp [next_version, create_version, hkey])
    | rolled_back id hkey content desc status =>
      rw [← hedit _ rfl]
      exact if_pos (by simp [next_version, create_version, hkey])
    | upgraded id hkey hofficial data desc =>
      rw [← hedit _ rfl]
      exact if_pos (by simp [create_version, hkey])
  rwa [hsaved]

/-- The scripts under a limit of versions, each with what was saved of it so far. -/
inductive Reached (limit : Option Int) : List Save → Script → Prop
  | created (id : Nat) (content : String) (approval : Option Nat) :
      Reached limit [⟨content, false⟩] (perform_create id content approval)
  | imported (id : Nat) (data : OfficialScript) :
    Reached limit [⟨data.content, false⟩] (import_official id data)
  | step {saved : List Save} {s : Script} (e : Event) (h : Reached limit saved s)
      (hfresh : e.Fresh s) :
      Reached limit (saved ++ (e.saved limit s).toList) (e.run limit s)

/-- The versions of a script: the last one is current and what the script shows, the keys grow. -/
structure Coherent (s : Script) : Prop where
  current : ∃ past last, s.versions = past ++ [last] ∧ last.is_current = true ∧
    (∀ v ∈ past, v.is_current = false) ∧
    last.version = s.current_version ∧ last.content = s.content
  keys : (s.versions.map (·.id)).Pairwise (· < ·)

/-- How many versions go before an edit. -/
def evicted (limit : Option Int) (n : Nat) : Nat :=
  match limit with
  | none => 0
  | some limit => if n < limit then 0 else (n - limit + 1).toNat

/-- Versions are removed by their keys from the front. -/
theorem filter_keys {as bs : List ScriptVersion}
    (hkeys : ((as ++ bs).map (·.id)).Pairwise (· < ·)) :
    (as ++ bs).filter (fun v => !(as.map (·.id)).contains v.id) = bs := by
  rw [List.map_append, List.pairwise_append] at hkeys
  have hgone : as.filter (fun v => !(as.map (·.id)).contains v.id) = [] := by
    rw [List.filter_eq_nil_iff]
    intro v hv
    simpa using ⟨v, hv, rfl⟩
  have hkept : bs.filter (fun v => !(as.map (·.id)).contains v.id) = bs := by
    rw [List.filter_eq_self]
    intro v hv
    simp only [Bool.not_eq_true', ← Bool.not_eq_true, List.contains_iff_mem]
    intro hmem
    have hlt := hkeys.2.2 v.id hmem v.id (List.mem_map_of_mem hv)
    omega
  rw [List.filter_append, hgone, hkept, List.nil_append]

/-- Room is made from the oldest versions; the current one stays. -/
theorem evict_to_quota_eq {past : List ScriptVersion} {last : ScriptVersion}
    (hlast : last.is_current = true) (hpast : ∀ v ∈ past, v.is_current = false)
    (hkeys : ((past ++ [last]).map (·.id)).Pairwise (· < ·)) :
    evict_to_quota limit (past ++ [last]) =
      past.drop (evicted limit (past.length + 1)) ++ [last] := by
  have hlength : (past ++ [last]).length = past.length + 1 := by simp
  have hold : (past ++ [last]).filter (!·.is_current) = past := by
    rw [List.filter_append, List.filter_eq_self.mpr fun v hv => by simp [hpast v hv]]
    simp [hlast]
  unfold evict_to_quota evicted
  cases limit with
  | none => rfl
  | some limit =>
    simp only
    rw [hold, hlength]
    split_ifs with hroom
    · rfl
    · generalize hn : (((past.length + 1 : Nat) : Int) - limit + 1).toNat = n
      have hsplit : past ++ [last] = past.take n ++ (past.drop n ++ [last]) := by
        rw [← List.append_assoc, List.take_append_drop]
      rw [hsplit] at hkeys ⊢
      exact filter_keys hkeys

/-- Eviction drops the oldest versions. -/
theorem Coherent.evict (h : Coherent s) (limit : Option Int) :
    ∃ n, evict_to_quota limit s.versions = s.versions.drop n ∧
    (s.versions.drop n).length =
      s.versions.length - min (evicted limit s.versions.length) (s.versions.length - 1) := by
  obtain ⟨past, last, hversions, hlast, hpast, _⟩ := h.current
  have hkeys := h.keys
  rw [hversions] at hkeys ⊢
  have hlength : (past ++ [last]).length = past.length + 1 := by simp
  rw [evict_to_quota_eq hlast hpast hkeys, hlength]
  generalize evicted limit (past.length + 1) = n
  refine ⟨min n past.length, ?_, ?_⟩
  · rw [List.drop_append_of_le_length (by omega)]
    congr 1
    obtain hle | hlt := le_or_gt n past.length
    · rw [min_eq_left hle]
    · rw [min_eq_right hlt.le, List.drop_eq_nil_of_le hlt.le, List.drop_length]
  · simp only [List.length_drop, hlength]
    omega

/-- A script that is edited twice and rolled back, under a limit of two versions. -/
def created : Script := perform_create 1 "echo a" none
def edit : Event := .update 2 { content := some "echo b" } false none
def edited : Script := edit.run (some 2) created
def second_edit : Event := .update 3 { content := some "echo c" } false none
def edited_twice : Script := second_edit.run (some 2) edited
def back : Event := .rollback 4 (some 2) none
def rolled_back : Script := back.run (some 2) edited_twice

/-- The digits of a number contain neither the letter nor the dot of a label. -/
theorem digits_plain (n : Nat) : ∀ c ∈ (toString (n : Int)).toList, c ≠ 'V' ∧ c ≠ '.' := by
  intro c hc
  have hdigit : c.isDigit = true := by
    rw [Int.toString_eq_repr, Int.repr_eq_if, if_pos (Int.natCast_nonneg n), Nat.toList_repr] at hc
    exact isDigit_of_mem_toDigits hc
  constructor <;> rintro rfl <;> exact absurd hdigit (by decide)

theorem label_number_label (n : Nat) : label_number (label n) = some (n : Int) := by
  have hplain := digits_plain n
  have htext : (label n).toList = 'V' :: ((toString (n : Int)).toList ++ ['.', '0']) := by
    have happend : label n = "V" ++ toString (n : Int) ++ ".0" := rfl
    rw [happend, String.toList_append, String.toList_append]
    rfl
  unfold label_number
  rw [htext]
  have hfilter : ('V' :: ((toString (n : Int)).toList ++ ['.', '0'])).filter (· ≠ 'V') =
      (toString (n : Int)).toList ++ ['.', '0'] := by
    rw [List.filter_cons_of_neg (by simp), List.filter_append,
      List.filter_eq_self.mpr fun c hc => by simpa using (hplain c hc).1]
    rfl
  rw [hfilter, List.takeWhile_append_of_pos fun c hc => by simpa using (hplain c hc).2]
  simp only [List.takeWhile_cons, ne_eq, not_true_eq_false, decide_false, Bool.false_eq_true,
    if_false, List.append_nil]
  exact short_int?_toString n

/-- The largest of some labels. -/
theorem foldl_label_number (ns : List Nat) {k : Nat} (hle : ∀ n ∈ ns, n ≤ k) (g : Int) (hg : g ≤ k)
    (hmem : k ∈ ns ∨ g = k) :
    (ns.map fun n : Nat => label n).foldl
      (fun greatest v => (label_number v).elim greatest (max greatest)) g = k := by
  induction ns generalizing g with
  | nil => simpa using hmem
  | cons n ns ih =>
    rw [List.map_cons, List.foldl_cons, label_number_label]
    have hn : n ≤ k := hle n List.mem_cons_self
    refine ih (fun m hm => hle m (List.mem_cons_of_mem _ hm)) (max g n) (by simp; omega) ?_
    obtain hk | rfl := hmem
    · obtain rfl | hk := List.mem_cons.mp hk
      · exact Or.inr (by simp; omega)
      · exact Or.inl hk
    · exact Or.inr (by simp; omega)

/-- The saves with their labels, in their order. -/
def numbered (saved : List Save) : List (String × String) :=
  saved.zipIdx.map fun p => (label (p.2 + 1 : Nat), p.1.content)

theorem numbered_append (saved : List Save) (save : Save) :
    numbered (saved ++ [save]) =
      numbered saved ++ [(label (saved.length + 1 : Nat), save.content)] := by
  simp [numbered, List.zipIdx_append]

@[simp] theorem numbered_length (saved : List Save) : (numbered saved).length = saved.length := by
  simp [numbered]

theorem numbered_labels (saved : List Save) :
    (numbered saved).map (·.1) = (List.range' 1 saved.length).map fun n : Nat => label n := by
  induction saved using List.reverseRecOn with
  | nil => rfl
  | append_singleton saved save ih =>
    rw [numbered_append, List.map_append, ih, List.length_append, List.length_singleton,
      List.range'_1_concat]
    simp [Nat.add_comm]

/-- What a version shows. -/
def ScriptVersion.shown (v : ScriptVersion) : String × String := (v.version, v.content)

/-- The versions are the last of the saves. -/
def Numbered (saved : List Save) (s : Script) : Prop :=
  ∃ n < saved.length, s.versions.map (·.shown) = (numbered saved).drop n

/-- The next label is that of the next save. -/
theorem Numbered.next_label {saved : List Save} (h : Numbered saved s) :
    new_version s = label (saved.length + 1 : Nat) := by
  obtain ⟨n, hn, hshown⟩ := h
  have hlabels : s.versions.map (·.version) =
      (List.range' (1 + n) (saved.length - n)).map fun n : Nat => label n := by
    have hfst : s.versions.map (·.version) = (s.versions.map (·.shown)).map (·.1) := by
      simp [ScriptVersion.shown]
    rw [hfst, hshown, List.map_drop, numbered_labels, ← List.map_drop, List.drop_range']
    simp
  have hmax : max_version (s.versions.map (·.version)) = saved.length := by
    unfold max_version
    rw [hlabels]
    refine foldl_label_number _ (fun m hm => ?_) 1 (by omega) (Or.inl ?_)
    · rw [List.mem_range'_1] at hm
      omega
    · rw [List.mem_range'_1]
      omega
  unfold new_version
  rw [hmax]
  rfl

/-- The next version has the next label. -/
theorem Numbered.next {saved : List Save} (h : Numbered saved s) {s' : Script} {save : Save}
    {id : Nat} {desc : String} {status : Nat}
    (hs' : s' = { next_version s id save.content desc with status }) :
    Numbered (saved ++ [save]) s' := by
  have hlabel := h.next_label
  obtain ⟨n, hn, hshown⟩ := h
  have hversions : s'.versions = s.versions.map (fun v => { v with is_current := false }) ++
      [{ id, version := new_version s, content := save.content, desc, is_current := true }] := by
    rw [hs']
    rfl
  have hkept : (s.versions.map fun v => { v with is_current := false }).map (·.shown) =
      s.versions.map (·.shown) := by
    rw [List.map_map]
    rfl
  refine ⟨n, by simp; omega, ?_⟩
  rw [hversions, List.map_append, hkept, hshown, hlabel, numbered_append,
    List.drop_append_of_le_length (by simp; omega)]
  rfl

/-- No event changes whether a script is official. -/
theorem Effect.is_official {key : Option Nat} {save : Option Save} {s' : Script}
    (h : Effect limit s key save s') :
    s'.is_official = s.is_official := by
  cases h <;> rfl

/-- Every event keeps the versions numbered. -/
theorem Numbered.effect {saved : List Save} (h : Numbered saved s) (hcoherent : Coherent s)
    (hofficial : s.is_official = false) {key : Option Nat} {save : Option Save} {s' : Script}
    (heffect : Effect limit s key save s') :
    Numbered (saved ++ save.toList) s' := by
  cases heffect with
  | kept status =>
    rw [Option.toList_none, List.append_nil]
    exact h
  | edited id hkey content desc status =>
    obtain ⟨m, hevict, hlength⟩ := hcoherent.evict limit
    obtain ⟨past, last, hversions, _⟩ := hcoherent.current
    have hkept : Numbered saved { s with versions := evict_to_quota limit s.versions } := by
      obtain ⟨n, hn, hshown⟩ := h
      have hcount : s.versions.length = saved.length - n := by
        simpa using congrArg List.length hshown
      have hsome : s.versions.length = past.length + 1 := by simp [hversions]
      rw [List.length_drop] at hlength
      refine ⟨n + m, by omega, ?_⟩
      simp only
      rw [hevict, List.map_drop, hshown, List.drop_drop]
    exact hkept.next rfl
  | rolled_back id hkey content desc status => exact h.next rfl
  | upgraded id hkey hof data desc =>
    rw [hofficial] at hof
    cases hof

/-- The saves after the last edit. -/
def untrimmed (saved : List Save) : Nat := (saved.reverse.takeWhile (!·.is_edit)).length

theorem untrimmed_append (saved : List Save) (save : Save) :
    untrimmed (saved ++ [save]) = if save.is_edit then 0 else untrimmed saved + 1 := by
  unfold untrimmed
  rw [List.reverse_append, List.reverse_singleton, List.singleton_append, List.takeWhile_cons]
  cases save.is_edit <;> simp

/-- How many of the saves are kept as versions. -/
structure Retained (limit : Option Int) (saved : List Save) (n : Nat) : Prop where
  all : limit = none → n = saved.length
  least : ∀ l, limit = some l → min l saved.length ≤ n
  most : ∀ l, limit = some l → n ≤ max l 2 + untrimmed saved

/-- A save retains one version more. -/
theorem Retained.next {saved : List Save} {n : Nat} (h : Retained limit saved n)
    (content : String) :
    Retained limit (saved ++ [⟨content, false⟩]) (n + 1) := by
  constructor
  · intro hnone
    have hall := h.all hnone
    simpa using hall
  · intro l hl
    have hleast := h.least l hl
    simp only [List.length_append, List.length_singleton]
    omega
  · intro l hl
    have hmost := h.most l hl
    rw [untrimmed_append]
    simp only [Bool.false_eq_true, if_false]
    omega

/-- An edit makes room first. -/
theorem Retained.edit {saved : List Save} {n : Nat} (h : Retained limit saved n) (hn : 0 < n)
    (content : String) :
    Retained limit (saved ++ [⟨content, true⟩]) (n - min (evicted limit n) (n - 1) + 1) := by
  constructor
  · intro hnone
    have hall := h.all hnone
    simp [hnone, evicted, hall]
  · intro l hl
    have hleast := h.least l hl
    simp only [hl, evicted, List.length_append, List.length_singleton]
    split_ifs <;> omega
  · intro l hl
    rw [untrimmed_append]
    simp only [hl, evicted, if_true]
    split_ifs <;> omega

/-- The number of the versions an event leaves. -/
theorem Retained.effect {saved : List Save} (h : Retained limit saved s.versions.length)
    (hcoherent : Coherent s) {key : Option Nat} {save : Option Save} {s' : Script}
    (heffect : Effect limit s key save s') :
    Retained limit (saved ++ save.toList) s'.versions.length := by
  cases heffect with
  | kept status =>
    rw [Option.toList_none, List.append_nil]
    exact h
  | edited id hkey content desc status =>
    obtain ⟨m, hevict, hlength⟩ := hcoherent.evict limit
    obtain ⟨past, last, hversions, _⟩ := hcoherent.current
    have hsome : 0 < s.versions.length := by simp [hversions]
    have hedit := h.edit hsome content
    rw [← hlength, ← hevict] at hedit
    simpa [next_version, create_version, cancel_current] using hedit
  | rolled_back id hkey content desc status =>
    simpa [next_version, create_version, cancel_current] using h.next content
  | upgraded id hkey hofficial data desc =>
    simpa [create_version, cancel_current] using h.next data.content

/-- The contents of the versions of a script, the oldest first. -/
def Script.kept (s : Script) : List String := s.versions.map (·.content)

end taurus.scripts
