import Taurus.Lib.Descent
import Taurus.Share.Permissions

namespace taurus.share

open taurus.lib.digraph

/-- What `DeptCreateUpdateSerializer` stores of a request: the parent, for a new department without
one that of the user. -/
inductive DeptRequest where
  | create (user_dept parent : Option Int)
  | update (id : Int) (parent : Option Int)

/-- A parent that is given has to be a department, any department. -/
def known_parent (depts : List Dept) (parent : Option Int) : Bool :=
  parent.all fun p => depts.any (·.id = p)

/-- The table after a request; none is a refusal. -/
def DeptRequest.apply (depts : List Dept) : DeptRequest → Option (List Dept)
  | create user_dept parent =>
    if known_parent depts parent then
      some (depts ++ [{ id := depts.length + 1, parent := parent.or user_dept }])
    else none
  | update id parent =>
    if depts.any (·.id = id) ∧ known_parent depts parent then
      some (depts.map fun d => if d.id = id then { d with parent } else d)
    else none

/-- A table that creating and changing departments can lead to. -/
def Produced (depts : List Dept) : Prop :=
  ∃ requests : List DeptRequest, requests.foldlM DeptRequest.apply [] = some depts

/-- The links from departments to their child departments. -/
def child_links (depts : List Dept) : List (Int × Int) :=
  depts.filterMap fun d => d.parent.map (·, d.id)

section

variable {depts : List Dept} {frames : Nat} {dept_id id : Int}

theorem succ_child_links (depts : List Dept) (dept_id : Int) :
    succ (child_links depts) dept_id = (depts.filter (·.parent = some dept_id)).map (·.id) := by
  induction depts with
  | nil => rfl
  | cons d rest ih =>
    unfold succ child_links at ih ⊢
    cases hparent : d.parent with
    | none =>
      rw [List.filterMap_cons_none (by rw [hparent]; rfl), ih,
        List.filter_cons_of_neg (by simp [hparent])]
    | some p =>
      rw [List.filterMap_cons_some (by rw [hparent]; rfl)]
      by_cases hp : p = dept_id
      · rw [List.filter_cons_of_pos (by simp [hp]), List.filter_cons_of_pos (by simp [hparent, hp]),
          List.map_cons, List.map_cons, ih]
      · rw [List.filter_cons_of_neg (by simp [hp]),
          List.filter_cons_of_neg (by simp [hparent, hp]), ih]

/-- The loop over all departments makes a call for each child. -/
theorem collect_depts_eq (depts : List Dept) (frames : Nat) (dept_id : Int) (dept_list : List Int) :
    collect_depts depts frames dept_id dept_list =
      gather (child_links depts) frames dept_id dept_list := by
  induction frames generalizing dept_id dept_list with
  | zero => rfl
  | succ frames ih =>
    unfold collect_depts gather
    rw [succ_child_links, List.foldlM_map, List.foldlM_filter]
    congr 1
    funext found d
    rw [ih]
    simp only [decide_eq_true_eq]
    rfl

/-- A result that consists of the department and all below it, each once. -/
def ExactlyBelow (depts : List Dept) (dept_id : Int) (result : Option (List Int)) : Prop :=
  ∃ ids, result = some ids ∧ ids.Nodup ∧ ∀ id, id ∈ ids ↔ Reaches (child_links depts) dept_id id

/-- What the recursion collects, when it comes to an end. -/
theorem mem_collected {dept_list : List Int}
    (h : collect_depts depts frames dept_id [dept_id] = some dept_list) :
    id ∈ dept_list ↔ Reaches (child_links depts) dept_id id := by
  rw [collect_depts_eq] at h
  obtain ⟨below, hbelow, hmem⟩ := gather_spec ((gather_isSome_iff _ _ _ _).mp ⟨_, h⟩)
  obtain rfl := Option.some.inj ((hbelow _).symm.trans h)
  rw [List.mem_append, List.mem_singleton, hmem, Reaches, Relation.reflTransGen_iff_eq_or_transGen]

/-- The calls have room for as many nested ones as the longest chain of child links has links. -/
theorem recursion_all_dept_isSome_iff (frames : Nat) (depts : List Dept) (dept_id : Int) :
    (Dept.recursion_all_dept frames depts dept_id).isSome = true ↔
      ∀ below, List.IsChain (Link (child_links depts)) (dept_id :: below) →
        below.length < frames := by
  unfold Dept.recursion_all_dept
  rw [Option.isSome_map, collect_depts_eq, Option.isSome_iff_exists]
  exact gather_isSome_iff _ _ _ _

/-- The departments below one are found exactly when every chain of child links that begins with it
is shorter than the calls may nest. -/
theorem departments_below_iff (frames : Nat) (depts : List Dept) (dept_id : Int) :
    ExactlyBelow depts dept_id (Dept.recursion_all_dept frames depts dept_id) ↔
      ∀ below, List.IsChain (Link (child_links depts)) (dept_id :: below) →
        below.length < frames := by
  rw [← recursion_all_dept_isSome_iff, Option.isSome_iff_exists]
  constructor
  · rintro ⟨ids, hids, -⟩
    exact ⟨ids, hids⟩
  · rintro ⟨ids, hids⟩
    obtain ⟨found, hfound, rfl⟩ := Option.map_eq_some_iff.mp hids
    refine ⟨_, hids, List.nodup_dedup _, fun id => ?_⟩
    rw [List.mem_dedup]
    exact mem_collected hfound

/-- A department that was made its own parent has no end for any number of calls. -/
theorem own_parent_unending : ¬ ∃ frames, ∀ depts, Produced depts → ∀ dept_id,
    ExactlyBelow depts dept_id (Dept.recursion_all_dept frames depts dept_id) := by
  rintro ⟨frames, h⟩
  have hproduced : Produced [{ id := 1, parent := some 1 }] :=
    ⟨[.create none none, .update 1 (some 1)], rfl⟩
  obtain ⟨ids, hids, -⟩ := h _ hproduced 1
  unfold Dept.recursion_all_dept at hids
  rw [collect_depts_eq] at hids
  have hself : Link (child_links [{ id := 1, parent := some 1 }]) 1 1 := List.mem_singleton.mpr rfl
  obtain ⟨chain, hchain, hlong⟩ :=
    exists_chain_of_cycle Relation.ReflTransGen.refl (Relation.TransGen.single hself) frames
  rw [gather_eq_none hchain hlong] at hids
  cases hids

end

end taurus.share
