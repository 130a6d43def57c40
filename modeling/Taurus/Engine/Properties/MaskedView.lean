import Taurus.Engine.Context
import Taurus.Engine.Runner.World

namespace taurus.engine.context

open taurus.lib taurus.python

/-- A value stands under a key, at any depth. -/
inductive Under : Json → String → Json → Prop
  | here {kvs : List (String × Json)} {key : String} {v : Json} (hmem : (key, v) ∈ kvs) : Under (.obj kvs) key v
  | field {kvs : List (String × Json)} {k key : String} {inner v : Json} (hmem : (k, inner) ∈ kvs)
    (hinner : Under inner key v) : Under (.obj kvs) key v
  | element {xs : List Json} {inner v : Json} {key : String} (hmem : inner ∈ xs)
    (hinner : Under inner key v) :
    Under (.arr xs) key v

/-- The output of a node. -/
def Output (nodes : Dict String Json) (node_key : String) (output : Json) : Prop :=
  ∃ node, (node_key, .obj node) ∈ nodes ∧ Dict.get? node "output" = some output

/-- Masking as a view: the context is left alone, so that templates render as before, and what
view and context share under a masked key is the mask. -/
structure PureView (lower : String → String) (ctx : Annotated) : Prop where
  unchanged : (view_masked lower ctx).2 = ctx.toWorkflowContext
  renders : ∀ (py : Builtins) (template : String),
    render py (view_masked lower ctx).2 template = render py ctx.toWorkflowContext template
  hidden : ∀ (node_key : String) (shown output : Json) (key : String) (v : Json),
    Output (view_masked lower ctx).1.node_outputs node_key shown →
    Output ctx.node_outputs node_key output →
    is_masked lower key = true → Under shown key v → Under output key v → v = .str "***"

section

variable {lower : String → String}

/-- Setting a key changes nothing exactly if it holds the value already. -/
theorem set_eq_self_iff {d : Dict String Json} {k : String} {v w : Json}
    (h : Dict.get? d k = some v) :
    Dict.set d k w = d ↔ w = v := by
  induction d with
  | nil => cases h
  | cons kv rest ih =>
    obtain ⟨k', v'⟩ := kv
    rw [Dict.get?_cons] at h
    rw [Dict.set]
    split_ifs at h ⊢ with hk
    · obtain rfl := Option.some.inj h
      simp
    · simp [ih h]

theorem map_eq_self_iff {α : Type} {f : α → α} {xs : List α} :
    xs.map f = xs ↔ ∀ x ∈ xs, f x = x := by
  induction xs with
  | nil => simp
  | cons x xs ih => simp [ih]

/-- The masked view is the output exactly if each masked field shows stars already. -/
theorem masked_fields_eq_self_iff {output : Dict String Json} :
    masked_fields lower output = output ↔
      ∀ key v, (key, v) ∈ output → is_masked lower key = true → v = .str "***" := by
  rw [masked_fields, map_eq_self_iff]
  constructor
  · intro h key v hmem hmasked
    have := h (key, v) hmem
    rw [if_pos hmasked] at this
    exact (Prod.mk.inj this).2.symm
  · rintro h ⟨key, v⟩ hmem
    cases hmasked : is_masked lower key with
    | false => simp
    | true => simp [h key v hmem hmasked]

/-- The call leaves a context alone when it has nothing to mask at the top of an output. -/
theorem unchanged_iff {ctx : Annotated} :
    (view_masked lower ctx).2 = ctx.toWorkflowContext ↔
      ∀ node_key output, Output ctx.node_outputs node_key (.obj output) →
        masked_fields lower output = output := by
  have hnodes : (view_masked lower ctx).2 = ctx.toWorkflowContext ↔
      ∀ kv ∈ ctx.node_outputs, (_mask_node lower kv.2).2 = kv.2 := by
    obtain ⟨inner, hdicts⟩ := ctx
    obtain ⟨env, secrets, trigger, nodes⟩ := inner
    simp only [view_masked, List.map_map, WorkflowContext.mk.injEq, true_and, map_eq_self_iff]
    constructor
    · exact fun h kv hkv => congrArg Prod.snd (h kv hkv)
    · exact fun h kv hkv => Prod.ext rfl (h kv hkv)
  rw [hnodes]
  constructor
  · rintro h node_key output ⟨node, hmem, houtput⟩
    have := h _ hmem
    simp only [_mask_node, houtput, Json.obj.injEq, set_eq_self_iff houtput] at this
    exact this
  · rintro h ⟨node_key, v⟩ hmem
    obtain ⟨node, rfl⟩ := ctx.nodes_dicts _ hmem
    rw [_mask_node]
    split
    · rename_i output houtput
      simp only [Json.obj.injEq, set_eq_self_iff houtput, h node_key output ⟨node, hmem, houtput⟩]
    · rfl

/-- What the view shows of a node is the masked fields of its output, or nothing. -/
theorem exists_of_shown {ctx : Annotated} {node_key : String} {shown : Json}
    (h : Output (view_masked lower ctx).1.node_outputs node_key shown) :
    (∃ output, Output ctx.node_outputs node_key (.obj output) ∧
      shown = .obj (masked_fields lower output)) ∨
      shown = .obj [] := by
  obtain ⟨masked, hmem, hshown⟩ := h
  simp only [view_masked, List.map_map, List.mem_map, Function.comp_apply, Prod.mk.injEq] at hmem
  obtain ⟨⟨k, v⟩, hmem, rfl, hmasked⟩ := hmem
  obtain ⟨node, rfl⟩ := ctx.nodes_dicts _ hmem
  rw [_mask_node] at hmasked
  split at hmasked
  · rename_i output houtput
    obtain rfl := Json.obj.inj hmasked
    rw [Dict.get?_set_self] at hshown
    exact Or.inl ⟨output, ⟨node, hmem, houtput⟩, (Option.some.inj hshown).symm⟩
  · obtain rfl := Json.obj.inj hmasked
    rw [Dict.get?_set_self] at hshown
    exact Or.inr (Option.some.inj hshown).symm

/-- An output that is a dict is shown with its masked fields. -/
theorem shown_of_output {ctx : Annotated} {node_key : String} {output : Dict String Json}
    (h : Output ctx.node_outputs node_key (.obj output)) :
    Output (view_masked lower ctx).1.node_outputs node_key (.obj (masked_fields lower output)) := by
  obtain ⟨node, hmem, houtput⟩ := h
  refine ⟨Dict.set node "output" (.obj (masked_fields lower output)), ?_, Dict.get?_set_self ..⟩
  simp only [view_masked, List.map_map, List.mem_map, Function.comp_apply]
  exact ⟨_, hmem, by simp only [_mask_node, houtput]⟩

/-- Nothing stands under a key of an empty dict. -/
theorem not_under_empty {key : String} {v : Json} : ¬ Under (.obj []) key v := by
  intro h
  cases h with
  | here hmem => cases hmem
  | field hmem _ => cases hmem

end

/-- The contexts of the runner are annotated so. -/
def runner_context (ctx : executor.EdgeCtx) : Annotated where
  toWorkflowContext := runner._build_workflow_context ctx
  nodes_dicts := by
    intro kv hkv
    simp only [runner._build_workflow_context, List.mem_append, List.mem_map] at hkv
    obtain ⟨_, _, rfl⟩ | ⟨_, _, rfl⟩ := hkv
    · exact ⟨_, rfl⟩
    · exact ⟨_, rfl⟩

/-- Masking is a pure view of exactly the contexts that it need not mask: no node's output holds
anything but the mask under a masked key, at any depth. -/
theorem view_pure_iff (lower : String → String) (ctx : Annotated) :
    PureView lower ctx ↔ ∀ node_key output key v, Output ctx.node_outputs node_key (.obj output) →
      is_masked lower key = true → Under (.obj output) key v → v = .str "***" := by
  constructor
  · intro hview node_key output key v houtput hmasked hunder
    have hshown := @shown_of_output lower ctx node_key output houtput
    rw [unchanged_iff.mp hview.unchanged node_key output houtput] at hshown
    exact hview.hidden node_key (.obj output)
      (.obj output) key v hshown houtput hmasked hunder hunder
  · intro h
    have hfields : ∀ node_key output, Output ctx.node_outputs node_key (.obj output) →
        masked_fields lower output = output := by
      intro node_key output houtput
      rw [masked_fields_eq_self_iff]
      exact fun key v hmem hmasked => h node_key output key v houtput hmasked (Under.here hmem)
    have hunchanged := unchanged_iff.mpr hfields
    refine ⟨hunchanged, fun py template => by rw [hunchanged], ?_⟩
    intro node_key shown _ key v hshown _ hmasked hunder _
    obtain ⟨output, houtput, rfl⟩ | rfl := exists_of_shown hshown
    · rw [hfields node_key output houtput] at hunder
      exact h node_key output key v houtput hmasked hunder
    · exact absurd hunder not_under_empty

/-- A login and what it returned. -/
def login : Annotated where
  workflow_env := []
  secrets := []
  trigger_params := []
  node_outputs :=
    [("node_login", .obj [("output", .obj [("password", .str "hunter2")]), ("status", .int 2)])]
  nodes_dicts := by simp

/-- `str.lower` on ASCII texts. -/
def ascii_lower (key : String) : String := String.ofList (key.toList.map Char.toLower)

/-- After one look at the view the next node gets the mask for a password. -/
theorem looked_at_not_pure : ¬ PureView ascii_lower login := by
  intro h
  have hmasked : is_masked ascii_lower "password" = true := by decide +kernel
  have hfields := unchanged_iff.mp h.unchanged "node_login" [("password", .str "hunter2")]
    ⟨_, List.mem_cons_self, rfl⟩
  have hpassword :=
    masked_fields_eq_self_iff.mp hfields "password" (.str "hunter2") List.mem_cons_self hmasked
  exact absurd (Json.str.inj hpassword) (by decide)

end taurus.engine.context
