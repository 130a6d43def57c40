import Taurus.Engine.Properties.Interpolation
import Taurus.Python.Texts

namespace taurus.engine.context

open taurus.lib taurus.python taurus.engine.executor

/-- A token whose path starts with `workflow.secrets`. -/
def Token.in_secrets : Token → Bool
  | dollar => false
  | expr e =>
    match _split_path (strip e) with
    | .ok (.name root_name :: .name field :: _) => root_name = "workflow" ∧ field = "secrets"
    | _ => false

/-- A text that asks for one of the secrets. -/
def asks_for_secret (template : String) : Bool := (tokensFrom 0 template.toList).any (·.in_secrets)

/-- Every text of the params that asks for a secret has its pointer in the mask. -/
def SecretsReported (params : Dict String Json) (secrets_mask : List String) : Prop :=
  ∀ leaf ∈ leavesDict "" params, asks_for_secret leaf.2 = true → leaf.1 ∈ secrets_mask

/-- The params with which the adapter answers: a dict. -/
def Answered (final_params : RenderResult) : Prop :=
  final_params.is_none = false ∧ final_params.params ≠ none

/-- The adapter itself declares the pointers of all texts that ask for a secret. -/
def SecretsDeclared (params : Dict String Json) (final_params : RenderResult) : Prop :=
  ∀ leaf ∈ leavesDict "" params, asks_for_secret leaf.2 = true →
  .str leaf.1 ∈ final_params.masked_paths

/-- The step of the loop over the declared paths. -/
def mask_path (mask : List String) (p : Json) : List String :=
  match p with
  | .str s => if s.startsWith "/" && !mask.contains s then mask ++ [s] else mask
  | _ => mask

/-- What one path adds to the mask. -/
theorem mem_mask_path {mask : List String} {p : Json} {s : String} :
    s ∈ mask_path mask p ↔ s ∈ mask ∨ (p = .str s ∧ s.startsWith "/" = true) := by
  cases p with
  | str p =>
    simp only [mask_path, Bool.and_eq_true, Bool.not_eq_true', List.contains_eq_mem,
      decide_eq_false_iff_not, Json.str.injEq]
    split_ifs with hp
    · rw [List.mem_append, List.mem_singleton]
      constructor
      · rintro (h | rfl)
        · exact .inl h
        · exact .inr ⟨rfl, hp.1⟩
      · rintro (h | ⟨rfl, -⟩)
        · exact .inl h
        · exact .inr rfl
    · refine ⟨.inl, ?_⟩
      rintro (h | ⟨rfl, hslash⟩)
      · exact h
      · by_contra hmem
        exact hp ⟨hslash, hmem⟩
  | _ => simp [mask_path]

/-- What all paths add. -/
theorem mem_mask_paths {paths : List Json} {mask : List String} {s : String} :
    s ∈ paths.foldl mask_path mask ↔ s ∈ mask ∨ (.str s ∈ paths ∧ s.startsWith "/" = true) := by
  induction paths generalizing mask with
  | nil => simp
  | cons p rest ih =>
    rw [List.foldl_cons, ih, mem_mask_path, List.mem_cons, or_assoc, or_and_right]
    refine or_congr_right (or_congr_left ?_)
    rw [eq_comm]

/-- A leaf of a dict stands below its root. -/
theorem leaf_startsWith {params : Dict String Json} {leaf : String × String}
    (h : leaf ∈ leavesDict "" params) :
    leaf.1.startsWith "/" = true := by
  obtain ⟨rest, hrest⟩ := leavesDict_extends "" params leaf h
  exact String.startsWith_string_iff.mpr ⟨rest, hrest.symm⟩

/-- The mask is what the adapter declares. -/
theorem reported_iff_declared {params : Dict String Json} {final_params : RenderResult} :
    SecretsReported params (final_params.masked_paths.foldl mask_path []) ↔
      SecretsDeclared params final_params := by
  refine forall₂_congr fun leaf hleaf => imp_congr_right fun _ => ?_
  rw [mem_mask_paths, or_iff_right List.not_mem_nil, and_iff_left (leaf_startsWith hleaf)]

section

variable {py : Builtins} {env : Env} {adapter : Adapter} {node : Node} {ctx : WorkflowContext}
  {host_id fail_strategy : String} {attempt_no : Nat}

/-- What `render_node_config` returns carries the mask of the adapter's answer. -/
theorem render_node_config_mask {mask : List String} :
    (∃ out, render_node_config
      (interpolating py env) adapter node ctx host_id attempt_no fail_strategy = .ok out ∧
      out.secrets_mask = mask) ↔
    ∃ rendered final_params, render_params py ctx (raw_params node) = .ok rendered ∧
      adapter.validate_and_render rendered ctx = .ok final_params ∧ Answered final_params ∧
      final_params.masked_paths.foldl mask_path [] = mask := by
  unfold render_node_config interpolating
  simp only [← raw_params.eq_1]
  cases render_params py ctx (raw_params node) with
  | error e => simp [bind, Except.bind]
  | ok rendered =>
    simp only [bind, Except.bind, Except.ok.injEq, exists_and_left, ↓existsAndEq, true_and]
    cases adapter.validate_and_render rendered ctx with
    | error e => simp
    | ok final_params =>
      cases hnone : final_params.is_none with
      | true => simp [Answered, hnone]
      | false =>
        cases hparams : final_params.params with
        | none => simp [Answered, hparams, hnone]
        | some params =>
          simp only [Answered, hnone, hparams, Bool.false_eq_true, if_false, Except.ok.injEq,
            ↓existsAndEq, true_and, ne_eq, reduceCtorEq, not_false_eq_true]
          exact Iff.rfl

/-- The mask is complete exactly if no params are returned, or the adapter declares all of it:
the interpolation that follows the paths into the secrets reports nothing. -/
theorem secrets_reported_iff (py : Builtins) (env : Env) (adapter : Adapter) (node : Node)
    (ctx : WorkflowContext) (host_id : String) (attempt_no : Nat) (fail_strategy : String) :
    (∀ out, render_node_config
      (interpolating py env) adapter node ctx host_id attempt_no fail_strategy = .ok out →
      SecretsReported node.params out.secrets_mask) ↔
    ∀ rendered final_params, render_params py ctx (raw_params node) = .ok rendered →
      adapter.validate_and_render rendered ctx = .ok final_params → Answered final_params →
      SecretsDeclared node.params final_params := by
  constructor
  · intro h rendered final_params hrender hadapter hanswered
    obtain ⟨out, hout, hmask⟩ :=
      render_node_config_mask.mpr ⟨rendered, final_params, hrender, hadapter, hanswered, rfl⟩
    rw [← reported_iff_declared, ← hmask]
    exact h out hout
  · intro h out hout
    obtain ⟨rendered, final_params, hrender, hadapter, hanswered, hmask⟩ :=
      render_node_config_mask.mp ⟨out, hout, rfl⟩
    rw [← hmask, reported_iff_declared]
    exact h rendered final_params hrender hadapter hanswered

/-- An adapter that declares no paths. -/
def Silent (adapter : Adapter) : Prop :=
  ∀ params ctx final_params, adapter.validate_and_render params ctx = .ok final_params →
  final_params.masked_paths = []

/-- Adapters that interpolate the params once more declare no paths. -/
theorem silent_of_endsInRender {prepare : Dict String Json → Except Exn (Dict String Json)}
    (h : EndsInRender py adapter prepare) : Silent adapter := by
  intro params ctx final_params hadapter
  rw [h] at hadapter
  cases hprepare : prepare params with
  | error e =>
    rw [hprepare] at hadapter
    cases hadapter
  | ok prepared =>
    rw [hprepare] at hadapter
    obtain ⟨final, -, rfl⟩ := map_ok_iff.mp hadapter
    rfl

/-- With such an adapter no text that asks for a secret is ever reported. -/
theorem nothing_reported (h : Silent adapter) {out : RenderedNodeParams}
    (hout : render_node_config
      (interpolating py env) adapter node ctx host_id attempt_no fail_strategy = .ok out) :
    out.secrets_mask = [] := by
  obtain ⟨rendered, final_params, -, hadapter, -, hmask⟩ :=
    render_node_config_mask.mp ⟨out, hout, rfl⟩
  rw [← hmask, h rendered ctx final_params hadapter, List.foldl_nil]

end

/-- A node that passes on a secret. -/
def password_report : Node :=
  { node_key := "report", node_type := "noop"
    params := [("value", .str "$\x7bworkflow.secrets.DB_PASSWORD\x7d")] }

/-- The secret is rendered into the params, and its pointer is not in the mask. -/
theorem password_not_reported :
    ¬ ∀ out, render_node_config (interpolating plain idle) (NoopAdapter plain) password_report
      (scanned "42 files")
        NO_HOST_SENTINEL 1 "fail_fast" = .ok out →
          SecretsReported password_report.params out.secrets_mask := by
  have hrendered : reported
    ((render_node_config (interpolating plain idle) (NoopAdapter plain) password_report
      (scanned "42 files") NO_HOST_SENTINEL 1 "fail_fast").map (·.params)) = some "s3cret" := by
      decide +kernel
  have hends : EndsInRender plain (NoopAdapter plain) .ok := fun _ _ => rfl
  have hsilent : Silent (NoopAdapter plain) := silent_of_endsInRender hends
  intro h
  cases hout : render_node_config (interpolating plain idle) (NoopAdapter plain) password_report
      (scanned "42 files") NO_HOST_SENTINEL 1 "fail_fast" with
  | error e =>
    rw [hout] at hrendered
    cases hrendered
  | ok out =>
    have hleaf : ("/value", "$\x7bworkflow.secrets.DB_PASSWORD\x7d") ∈ leavesDict "" password_report.params := by
      decide +kernel
    have hmem := h out hout _ hleaf (by decide +kernel)
    rw [nothing_reported hsilent hout] at hmem
    exact List.not_mem_nil hmem

end taurus.engine.context
