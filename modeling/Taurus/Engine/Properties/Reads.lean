import Taurus.Engine.Context

namespace taurus.engine.context

open taurus.lib taurus.python

/-- All that a context holds, under the names of its roots. -/
def document (ctx : WorkflowContext) : Dict String Json :=
  [("workflow", .obj [("env", .obj ctx.workflow_env), ("secrets", .obj ctx.secrets)]),
    ("trigger", .obj ctx.trigger_params),
    ("nodes", .obj (ctx.node_outputs.foldl (fun d kv =>
      match afterPrefix "node_".toList kv.1.toList with
      | some key => Dict.set d (String.ofList key) kv.2
      | none => d) []))] ++
    ctx.node_outputs.filter fun kv => startswith kv.1.toList "node_".toList

/-- The field of an object, the element of a list or the character of a text. -/
def enter? : Json → Step → Option Json
  | .obj kvs, .name s => Dict.get? kvs s
  | .arr xs, .idx i => item? xs i
  | .str s, .idx i => (item? s.toList i).map fun c => .str (String.ofList [c])
  | _, _ => none

/-- The value at a position. -/
def at? : Json → List Step → Option Json
  | v, [] => some v
  | v, step :: rest => (enter? v step).bind (at? · rest)

/-- A text, a number, a boolean or null. -/
def is_scalar : Json → Bool
  | .arr _ | .obj _ => false
  | _ => true

theorem getitem_ok_iff {v w : Json} {i : Int} :
    getitem v i = .ok w ↔ enter? v (.idx i) = some w := by
  cases v with
  | arr xs =>
    simp only [getitem, enter?]
    cases item? xs i <;> simp
  | str s =>
    simp only [getitem, enter?]
    cases item? s.toList i <;> simp
  | obj kvs => simp [getitem, enter?]
  | null => simp [getitem, enter?, not_subscriptable]
  | bool b => simp [getitem, enter?, not_subscriptable]
  | int n => simp [getitem, enter?, not_subscriptable]
  | float q => simp [getitem, enter?, not_subscriptable]

section

variable {py : Builtins} {ctx : WorkflowContext} {path : List Char}

/-- A step reads the data, or an attribute of a scalar. -/
theorem walk_step_ok_iff {v : Json} {step : Step} {r : Json ⊕ py.Object} :
    walk_step py (.inl v) step = .ok r ↔
      (∃ w, r = .inl w ∧ enter? v step = some w) ∨
        ∃ s, step = .name s ∧ is_scalar v = true ∧ py.getattr (.inl v) s = some r := by
  cases step with
  | idx i =>
    have hitem := fun w => @getitem_ok_iff v w i
    simp only [walk_step, reduceCtorEq, false_and, exists_false, or_false, ← hitem]
    cases getitem v i <;> simp [Except.map, eq_comm]
  | name s =>
    cases v with
    | obj kvs =>
      simp only [walk_step, enter?, is_scalar]
      cases Dict.get? kvs s <;> simp [KeyError, eq_comm]
    | arr xs => simp [walk_step, enter?, is_scalar, KeyError]
    | null | bool _ | int _ | float _ | str _ =>
      simp only [walk_step, enter?, is_scalar]
      split <;> simp_all [KeyError]

/-- What a path leads to from a value: the value at its position, or, from the first name
that is asked of a scalar on, what the attribute of that name leads to. -/
def Leads (py : Builtins) (path : List Char) (v : Json) (steps : List Step)
    (r : Json ⊕ py.Object) : Prop :=
  (∃ w, r = .inl w ∧ at? v steps = some w) ∨
    ∃ before s after scalar attr, steps = before ++ .name s :: after ∧ at? v before = some scalar ∧
      is_scalar scalar = true ∧ py.getattr (.inl scalar) s = some attr ∧
      walk py path attr after = .ok r

theorem leads_nil {v : Json} {r : Json ⊕ py.Object} : Leads py path v [] r ↔ r = .inl v := by
  simp [Leads, at?]

/-- A path leads on by its first step. -/
theorem leads_cons {v : Json} {step : Step} {rest : List Step} {r : Json ⊕ py.Object} :
    Leads py path v (step :: rest) r ↔
      (∃ w, enter? v step = some w ∧ Leads py path w rest r) ∨
        ∃ s attr, step = .name s ∧ is_scalar v = true ∧ py.getattr (.inl v) s = some attr ∧
          walk py path attr rest = .ok r := by
  constructor
  · rintro (⟨w, rfl, hat⟩ | ⟨before, s, after, scalar, attr, hsteps, hat, hscalar, hattr, hwalk⟩)
    · obtain ⟨u, hu, hw⟩ := Option.bind_eq_some_iff.mp hat
      exact .inl ⟨u, hu, .inl ⟨w, rfl, hw⟩⟩
    · cases before with
      | nil =>
        obtain ⟨rfl, rfl⟩ := List.cons.inj hsteps
        obtain rfl := Option.some.inj hat
        exact .inr ⟨s, attr, rfl, hscalar, hattr, hwalk⟩
      | cons first before =>
        obtain ⟨rfl, rfl⟩ := List.cons.inj hsteps
        obtain ⟨u, hu, hbefore⟩ := Option.bind_eq_some_iff.mp hat
        exact .inl ⟨u, hu, .inr ⟨before, s, after, scalar, attr, rfl, hbefore, hscalar,
          hattr, hwalk⟩⟩
  · rintro (⟨w, hw, ⟨u, rfl, hu⟩ | ⟨before, s, after, scalar, attr, rfl, hat, hrest⟩⟩ |
      ⟨s, attr, rfl, hscalar, hattr, hwalk⟩)
    · exact .inl ⟨u, rfl, by rw [at?, hw]; exact hu⟩
    · exact .inr ⟨step :: before, s, after, scalar, attr, rfl, by rw [at?, hw]; exact hat, hrest⟩
    · exact .inr ⟨[], s, rest, v, attr, rfl, rfl, hscalar, hattr, hwalk⟩

theorem walk_cons_ok {current next : Json ⊕ py.Object} {step : Step} {rest : List Step}
    (h : walk_step py current step = .ok next) :
    walk py path current (step :: rest) = walk py path next rest := by
  simp only [walk, h]

/-- The walk ends where the steps lead. -/
theorem walk_ok_iff {v : Json} {steps : List Step} {r : Json ⊕ py.Object} :
    walk py path (.inl v) steps = .ok r ↔ Leads py path v steps r := by
  induction steps generalizing v with
  | nil =>
    rw [leads_nil, walk, Except.ok.injEq]
    exact eq_comm
  | cons step rest ih =>
    rw [leads_cons]
    constructor
    · intro h
      cases hwalk : walk_step py (.inl v) step with
      | error e => simp [walk, hwalk] at h
      | ok next =>
        rw [walk_cons_ok hwalk] at h
        obtain ⟨w, rfl, hw⟩ | ⟨s, hs, hscalar, hattr⟩ := walk_step_ok_iff.mp hwalk
        · exact .inl ⟨w, hw, ih.mp h⟩
        · exact .inr ⟨s, next, hs, hscalar, hattr, h⟩
    · rintro (⟨w, hw, hleads⟩ | ⟨s, attr, hs, hscalar, hattr, hrest⟩)
      · rw [walk_cons_ok (walk_step_ok_iff.mpr (.inl ⟨w, rfl, hw⟩))]
        exact ih.mpr hleads
      · rw [walk_cons_ok (walk_step_ok_iff.mpr (.inr ⟨s, hs, hscalar, hattr⟩))]
        exact hrest

/-- The root of a path is the entry of the document of that name. -/
theorem root_ok_iff {root_name : String} {v : Json} :
    root ctx path root_name = .ok v ↔ Dict.get? (document ctx) root_name = some v := by
  unfold root document
  rw [List.cons_append, List.cons_append, List.cons_append, List.nil_append]
  have hnode :=
    Dict.get?_filter ctx.node_outputs (fun k => startswith k.toList "node_".toList) root_name
  rw [Dict.get?_cons, Dict.get?_cons, Dict.get?_cons, hnode]
  by_cases hworkflow : root_name = "workflow"
  · subst hworkflow
    simp only [if_true, Except.ok.injEq, Option.some.injEq]
  by_cases htrigger : root_name = "trigger"
  · subst htrigger
    simp only [hworkflow, if_true, if_false, Except.ok.injEq, Option.some.injEq, Ne.symm hworkflow]
  by_cases hnodes : root_name = "nodes"
  · subst hnodes
    have hno : startswith "nodes".toList "node_".toList = false := by decide
    rw [hno]
    simp only [hworkflow, htrigger, if_true, if_false, Except.ok.injEq, Ne.symm hworkflow,
      Ne.symm htrigger, Bool.false_eq_true]
    exact (Option.some.injEq _ _).to_iff.symm
  simp only [hworkflow, htrigger, hnodes, if_false, Ne.symm hworkflow, Ne.symm htrigger,
    Ne.symm hnodes]
  cases startswith root_name.toList "node_".toList with
  | true =>
    simp only [if_true]
    cases Dict.get? ctx.node_outputs root_name <;> simp
  | false => simp

/-- A path resolves exactly to where it leads from its root. -/
theorem resolve_path_ok_iff {r : Json ⊕ py.Object} :
    _resolve_path py ctx path = .ok r ↔
      ∃ root_name rest v, _split_path path = .ok (.name root_name :: rest) ∧
        rest.length < _MAX_PATH_STEPS ∧
        Dict.get? (document ctx) root_name = some v ∧ Leads py path v rest r := by
  unfold _resolve_path
  cases hsplit : _split_path path with
  | error e => simp
  | ok steps =>
    simp only [Except.ok.injEq]
    by_cases hlong : _MAX_PATH_STEPS < steps.length
    · rw [if_pos hlong]
      simp only [reduceCtorEq, false_iff]
      rintro ⟨root_name, rest, v, rfl, hshort, -⟩
      simp only [List.length_cons] at hlong
      omega
    rw [if_neg hlong]
    cases steps with
    | nil => simp
    | cons step rest =>
      cases step with
      | idx i => simp
      | name root_name =>
        simp only [List.length_cons] at hlong
        simp only [List.cons.injEq, Step.name.injEq]
        constructor
        · intro h
          cases hroot : root ctx path root_name with
          | error e => simp [hroot] at h
          | ok v =>
            simp only [hroot] at h
            exact ⟨root_name, rest, v, ⟨rfl, rfl⟩, by omega, root_ok_iff.mp hroot, walk_ok_iff.mp h⟩
        · rintro ⟨name, after, v, ⟨rfl, rfl⟩, -, hroot, hleads⟩
          rw [root_ok_iff.mpr hroot]
          exact walk_ok_iff.mpr hleads

/-- For a path with no index of too many digits, nothing but an `InterpolationError` is
raised, and what is returned is the value at the position of the path in the document, or
what an attribute of a scalar on the way leads to. -/
theorem paths_read_data_or_attributes (py : Builtins) (ctx : WorkflowContext) (path : List Char)
    (hshort : long_index 0 path = none) :
    (∀ e, resolve_path py ctx path = .error e → ∃ i, e = .interpolation_error i) ∧
      ∀ r, resolve_path py ctx path = .ok r ↔
        ∃ root_name rest v, _split_path path = .ok (.name root_name :: rest) ∧
          rest.length < _MAX_PATH_STEPS ∧
          Dict.get? (document ctx) root_name = some v ∧ Leads py path v rest r := by
  have hresolve : resolve_path py ctx path =
      (_resolve_path py ctx path).mapError .interpolation_error := by
    simp only [resolve_path, hshort]
  rw [hresolve]
  constructor
  · intro e he
    cases h : _resolve_path py ctx path with
    | error i =>
      rw [h] at he
      exact ⟨i, (Except.error.inj he).symm⟩
    | ok r => simp [h, Except.mapError] at he
  · intro r
    rw [← resolve_path_ok_iff]
    cases _resolve_path py ctx path <;> simp [Except.mapError]

end

/-- The methods of texts, as far as the names below go. -/
def text_methods : Builtins where
  Object := String
  getattr := fun v name => match v, name with
    | .inl (.str _), "upper" => some (.inr "<built-in method upper of str object>")
    | _, _ => none
  getitem :=
    fun _ _ => .error "TypeError(\"'builtin_function_or_method' object is not subscriptable\")"
  str := fun v => match v with
    | .inl _ => ""
    | .inr text => text

/-- A run whose trigger names a branch. -/
def branch_given : WorkflowContext where
  workflow_env := []
  secrets := []
  trigger_params := [("branch", .str "main")]
  node_outputs := []

/-- A dictionary key leads to its value. -/
theorem branch_read :
    (∀ e, resolve_path text_methods branch_given "trigger.branch".toList = .error e →
        ∃ i, e = .interpolation_error i) ∧
      ∀ r, resolve_path text_methods branch_given "trigger.branch".toList = .ok r ↔
        ∃ root_name rest v, _split_path "trigger.branch".toList = .ok (.name root_name :: rest) ∧
          rest.length < _MAX_PATH_STEPS ∧ Dict.get? (document branch_given) root_name = some v ∧
          Leads text_methods "trigger.branch".toList v rest r :=
  paths_read_data_or_attributes text_methods branch_given "trigger.branch".toList
    (by decide +kernel)

/-- A method of the text is returned, which no position of the document holds, and an index
of too many digits raises another exception. -/
theorem method_returned :
    (∃ method, resolve_path text_methods branch_given "trigger.branch.upper".toList =
      .ok (.inr method)) ∧
      at? (.obj (document branch_given)) [.name "trigger", .name "branch", .name "upper"] = none ∧
      ∃ message, resolve_path text_methods branch_given
        ("trigger[".toList ++ (List.replicate 4301 '1' ++ [']'])) =
          .error (.value_error message) := by
  refine ⟨⟨"<built-in method upper of str object>", rfl⟩, rfl, ?_⟩
  have hlong : long_index 0
      ("trigger[".toList ++ (List.replicate 4301 '1' ++ [']'])) = some 4301 := by
    decide +kernel
  exact ⟨_, by rw [resolve_path, hlong]⟩

end taurus.engine.context
