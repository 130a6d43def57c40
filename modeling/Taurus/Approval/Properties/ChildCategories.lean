import Taurus.Approval.Rules
import Taurus.Lib.Saturation

namespace taurus.approval

open taurus.lib.digraph

/-- The links from parent categories to their children; a parent need not be in the table. -/
def child_links (categories : List CategoryRow) : List (Int × Int) :=
  categories.filterMap fun cat => cat.parent_id.map (·, cat.id)

/-- The loop over the rows visits their links. -/
theorem foldl_visit_category (categories : List CategoryRow) (state : Finset Int × Bool) :
    categories.foldl visit_category state = (child_links categories).foldl visit state := by
  induction categories generalizing state with
  | nil => rfl
  | cons cat rest ih =>
    rw [List.foldl_cons, ih]
    unfold child_links
    cases hparent : cat.parent_id with
    | none =>
      rw [List.filterMap_cons_none (by rw [hparent]; rfl), visit_category, hparent,
        if_neg (by simp)]
    | some p =>
      rw [List.filterMap_cons_some (by rw [hparent]; rfl), List.foldl_cons]
      congr 1
      simp [visit_category, visit, hparent]

/-- The loops of the matchers are passes over the child links. -/
theorem while_changed_eq (categories : List CategoryRow) (turns : Nat) (result : Finset Int) :
    while_changed categories turns result = saturate (child_links categories) turns result := by
  induction turns generalizing result with
  | zero => rfl
  | succ turns ih =>
    unfold while_changed saturate taurus.lib.digraph.pass
    rw [foldl_visit_category]
    simp only [ih]

theorem child_links_length_le (categories : List CategoryRow) :
    (child_links categories).length ≤ categories.length :=
  List.length_filterMap_le _ _

/-- A loop that always comes to an end, at the latest in as many turns as there are categories and
one more, with exactly the given ids and all below them. -/
def ExactClosure (categories : List CategoryRow)
    (loop : Nat → List Int → Option (Finset Int)) : Prop :=
  ∀ parent_ids turns, categories.length < turns → ∃ result, loop turns parent_ids = some result ∧
    ∀ id, id ∈ result ↔ ∃ parent ∈ parent_ids, Reaches (child_links categories) parent id

/-- The loop computes the closure of the links for every start, given enough turns. -/
theorem exactClosure_while_changed (categories : List CategoryRow) :
    ExactClosure categories fun turns parent_ids =>
      while_changed categories turns parent_ids.toFinset := by
  intro parent_ids turns hturns
  have hlinks := child_links_length_le categories
  have houtside := card_outside_le (child_links categories) parent_ids.toFinset
  obtain ⟨result, hresult, hmem⟩ :=
    saturate_spec (child_links categories) turns parent_ids.toFinset (by omega)
  refine ⟨result, (while_changed_eq categories turns _).trans hresult, fun id => ?_⟩
  rw [hmem]
  simp only [List.mem_toFinset]

/-- Both rule matchers compute the closure of the given categories, whatever the
parent links are. -/
theorem child_categories_exact (categories : List Category)
    (script_categories : List ScriptCategory) :
    ExactClosure (WorkflowApprovalRuleMatcher.category_rows categories)
        (WorkflowApprovalRuleMatcher._get_all_child_category_ids categories) ∧
      ExactClosure (ScriptApprovalRuleMatcher.category_rows script_categories)
        (ScriptApprovalRuleMatcher._get_all_child_category_ids script_categories) :=
  ⟨exactClosure_while_changed _, exactClosure_while_changed _⟩

end taurus.approval
