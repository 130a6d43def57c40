import Mathlib.Data.Finset.Card
import Taurus.Lib.Digraph

/-! Passes over a list of links that extend a set, until one of them changes nothing. -/

namespace taurus.lib.digraph

variable {α : Type} [DecidableEq α] {links : List (α × α)} {s : Finset α}

/-- The target of a link joins the set when its source is there; the flag says that
something has joined. -/
def visit (state : Finset α × Bool) (link : α × α) : Finset α × Bool :=
  if link.1 ∈ state.1 ∧ link.2 ∉ state.1 then (insert link.2 state.1, true) else state

/-- One pass over all links. -/
def pass (links : List (α × α)) (s : Finset α) : Finset α × Bool := links.foldl visit (s, false)

/-- Passes until nothing has joined; none when more than `turns` are needed. -/
def saturate (links : List (α × α)) : Nat → Finset α → Option (Finset α)
  | 0, _ => none
  | turns + 1, s =>
    let (next, changed) := pass links s
    if changed then saturate links turns next else some next

/-- The targets of links that are not in the set. -/
def outside (links : List (α × α)) (s : Finset α) : Finset α := (links.map (·.2)).toFinset \ s

/-- A set with all it has links to. -/
def Saturated (links : List (α × α)) (s : Finset α) : Prop := ∀ a b, Link links a b → a ∈ s → b ∈ s

/-- What a pass makes of a set: what joins is linked to from the set as it grows, and the flag tells
whether anything joins. -/
structure Passed (links : List (α × α)) (s : Finset α) (state : Finset α × Bool) : Prop where
  subset : s ⊆ state.1
  linked : ∀ b ∈ state.1, ∃ a ∈ s, Reaches links a b
  same : state.2 = false → state.1 = s
  fewer : state.2 = true → (outside links state.1).card < (outside links s).card

theorem outside_insert_lt {a b : α} (hlink : Link links a b) (hb : b ∉ s) :
    (outside links (insert b s)).card < (outside links s).card := by
  apply Finset.card_lt_card
  rw [Finset.ssubset_iff_of_subset]
  · refine ⟨b, ?_, ?_⟩
    · exact Finset.mem_sdiff.mpr ⟨List.mem_toFinset.mpr (List.mem_map.mpr ⟨_, hlink, rfl⟩), hb⟩
    · exact fun h => (Finset.mem_sdiff.mp h).2 (Finset.mem_insert_self b s)
  · exact Finset.sdiff_subset_sdiff (Finset.Subset.refl _) (Finset.subset_insert b s)

theorem Passed.visit {state : Finset α × Bool} {link : α × α} (h : Passed links s state)
    (hlink : link ∈ links) :
    Passed links s (visit state link) := by
  unfold digraph.visit
  split_ifs with hnew
  · obtain ⟨hsource, htarget⟩ := hnew
    have hfewer := outside_insert_lt (s := state.1) hlink htarget
    refine ⟨h.subset.trans (Finset.subset_insert _ _), fun b hb => ?_, nofun, fun _ => ?_⟩
    · obtain rfl | hb := Finset.mem_insert.mp hb
      · obtain ⟨a, ha, hreach⟩ := h.linked _ hsource
        exact ⟨a, ha, hreach.tail hlink⟩
      · exact h.linked b hb
    · cases hchanged : state.2 with
      | false => rwa [h.same hchanged] at hfewer ⊢
      | true => exact hfewer.trans (h.fewer hchanged)
  · exact h

theorem passed_foldl (some_links : List (α × α)) (hsub : some_links ⊆ links)
    {state : Finset α × Bool} (h : Passed links s state) :
    Passed links s (some_links.foldl visit state) := by
  induction some_links generalizing state with
  | nil => exact h
  | cons link rest ih =>
    obtain ⟨hlink, hrest⟩ := List.cons_subset.mp hsub
    exact ih hrest (h.visit hlink)

theorem pass_passed (links : List (α × α)) (s : Finset α) : Passed links s (pass links s) := by
  refine passed_foldl links
    (List.Subset.refl _) ⟨Finset.Subset.refl s, fun b hb => ?_, fun _ => rfl, nofun⟩
  exact ⟨b, hb, Relation.ReflTransGen.refl⟩

/-- The flag once set stays set. -/
theorem foldl_visit_changed (some_links : List (α × α)) {state : Finset α × Bool}
    (h : state.2 = true) :
    (some_links.foldl visit state).2 = true := by
  induction some_links generalizing state with
  | nil => exact h
  | cons link rest ih =>
    apply ih
    unfold visit
    split_ifs
    · rfl
    · exact h

/-- A pass in which nothing joins has found nothing to join. -/
theorem saturated_of_unchanged (h : (pass links s).2 = false) : Saturated links s := by
  have hfold : ∀ some_links : List (α × α), (some_links.foldl visit (s, false)).2 = false →
      ∀ link ∈ some_links, link.1 ∈ s → link.2 ∈ s := by
    intro some_links
    induction some_links with
    | nil => exact fun _ => nofun
    | cons link rest ih =>
      intro hrest
      rw [List.foldl_cons] at hrest
      by_cases hnew : link.1 ∈ s ∧ link.2 ∉ s
      · have hset : (rest.foldl visit (visit (s, false) link)).2 = true :=
          foldl_visit_changed rest (by rw [visit, if_pos hnew])
        rw [hset] at hrest
        cases hrest
      · rw [visit, if_neg hnew] at hrest
        refine List.forall_mem_cons.mpr ⟨fun hsource => ?_, ih hrest⟩
        by_contra htarget
        exact hnew ⟨hsource, htarget⟩
  exact fun a b hlink ha => hfold links h _ hlink ha

omit [DecidableEq α] in
/-- All that is reached from a saturated set is in it. -/
theorem Saturated.mem_of_reaches (h : Saturated links s) {a b : α} (ha : a ∈ s)
    (hreach : Reaches links a b) : b ∈ s := by
  induction hreach with
  | refl => exact ha
  | tail _ hlink ih => exact h _ _ hlink ih

/-- With more turns than links lead out of the set the passes come to an end, and what they have
gathered is exactly what is reached from the set. -/
theorem saturate_spec (links : List (α × α)) (turns : Nat) (s : Finset α)
    (hturns : (outside links s).card < turns) :
    ∃ result, saturate links turns s = some result ∧ ∀ b, b ∈ result ↔
      ∃ a ∈ s, Reaches links a b := by
  induction turns generalizing s with
  | zero => omega
  | succ turns ih =>
    have hpassed := pass_passed links s
    unfold saturate
    cases hchanged : (pass links s).2 with
    | false =>
      have hsame : (pass links s).1 = s := hpassed.same hchanged
      refine ⟨s, ?_, fun b => ⟨fun hb => ⟨b, hb, Relation.ReflTransGen.refl⟩, ?_⟩⟩
      · simp only [hchanged, hsame, Bool.false_eq_true, if_false]
      · rintro ⟨a, ha, hreach⟩
        exact (saturated_of_unchanged hchanged).mem_of_reaches ha hreach
    | true =>
      have hfewer := hpassed.fewer hchanged
      obtain ⟨result, hresult, hmem⟩ := ih (pass links s).1 (by omega)
      refine ⟨result, ?_, fun b => ?_⟩
      · simp only [hchanged, if_true]
        exact hresult
      · rw [hmem]
        constructor
        · rintro ⟨c, hc, hcb⟩
          obtain ⟨a, ha, hac⟩ := hpassed.linked c hc
          exact ⟨a, ha, hac.trans hcb⟩
        · rintro ⟨a, ha, hab⟩
          exact ⟨a, hpassed.subset ha, hab⟩

theorem card_outside_le (links : List (α × α)) (s : Finset α) :
    (outside links s).card ≤ links.length := by
  refine (Finset.card_le_card Finset.sdiff_subset).trans ?_
  exact (List.toFinset_card_le _).trans_eq (List.length_map _)

end taurus.lib.digraph
