import Taurus.Engine.Executor.Nodes
import Taurus.Engine.Properties.Templates
import Taurus.Python.Texts

namespace taurus.engine.context

open taurus.lib taurus.python taurus.engine.executor

variable {py : Builtins} {ctx : WorkflowContext}

theorem map_ok_iff {ε α β : Type} {f : α → β} {e : Except ε α} {b : β} :
    e.map f = .ok b ↔ ∃ a, e = .ok a ∧ f a = b := by
  cases e <;> simp [Except.map]

mutual

/-- A value interpolates to those that agree with it but for its texts, each interpolated. -/
theorem render_structure_ok_iff : ∀ v w : Json,
    render_structure py ctx v = .ok w ↔ Related (fun s t => render py ctx s = .ok t) v w
  | .str s, w => by
    simp only [render_structure, map_ok_iff, Related]
    exact exists_congr fun t => by rw [and_comm, eq_comm]
  | .arr xs, w => by
    simp only [render_structure, map_ok_iff, Related, render_list_ok_iff xs]
    exact exists_congr fun ys => by rw [and_comm, eq_comm]
  | .obj kvs, w => by
    simp only [render_structure, map_ok_iff, Related, render_dict_ok_iff kvs]
    exact exists_congr fun kvs' => by rw [and_comm, eq_comm]
  | .null, w => by simp [render_structure, Related, eq_comm]
  | .bool b, w => by simp [render_structure, Related, eq_comm]
  | .int n, w => by simp [render_structure, Related, eq_comm]
  | .float q, w => by simp [render_structure, Related, eq_comm]

/-- A list is interpolated text by text. -/
theorem render_list_ok_iff : ∀ xs ys : List Json,
    render_list py ctx xs = .ok ys ↔ RelatedList (fun s t => render py ctx s = .ok t) xs ys
  | [], ys => by simp [render_list, RelatedList, eq_comm]
  | v :: rest, ys => by
    simp only [RelatedList, ← render_structure_ok_iff v, ← render_list_ok_iff rest]
    simp only [render_list]
    cases render_structure py ctx v with
    | error e => simp [bind, Except.bind]
    | ok w =>
      cases render_list py ctx rest with
      | error e => simp [bind, Except.bind]
      | ok rest' => simp [bind, Except.bind, pure, Except.pure, eq_comm]

theorem render_dict_ok_iff : ∀ kvs kvs' : List (String × Json),
    render_dict py ctx kvs = .ok kvs' ↔ RelatedDict (fun s t => render py ctx s = .ok t) kvs kvs'
  | [], kvs' => by simp [render_dict, RelatedDict, eq_comm]
  | (k, v) :: rest, kvs' => by
    simp only [RelatedDict, ← render_structure_ok_iff v, ← render_dict_ok_iff rest]
    simp only [render_dict]
    cases render_structure py ctx v with
    | error e => simp [bind, Except.bind]
    | ok w =>
      cases render_dict py ctx rest with
      | error e => simp [bind, Except.bind]
      | ok rest' => simp [bind, Except.bind, pure, Except.pure, eq_comm]

end

/-- The tokens in the rest of a template. -/
def tokensFrom : Nat → List Char → List Token
  | _, [] => []
  | skip + 1, _ :: cs => tokensFrom skip cs
  | 0, c :: cs =>
    match token? (c :: cs) with
    | none => tokensFrom 0 cs
    | some t => t :: tokensFrom (t.text.length - 1) cs

/-- The engine with the interpolation of `WorkflowContext`. -/
def interpolating (py : Builtins) (env : Env) : Env :=
  { env with render_structure := render_params py }

/-- The params of a node without the structural keys. -/
def raw_params (node : Node) : Dict String Json :=
  node.params.filter fun kv => !dirty_keys.contains kv.1

/-- An adapter whose `validate_and_render` prepares the params and ends in
`context.render_structure`. -/
def EndsInRender (py : Builtins) (adapter : Adapter)
    (prepare : Dict String Json → Except Exn (Dict String Json)) : Prop :=
  ∀ params ctx, adapter.validate_and_render params ctx =
    match prepare params with
    | .ok prepared => (render_params py ctx prepared).map fun params => { params := some params }
    | .error e => .error e

/-- The text begins with a character that makes no token of a dollar before it. -/
def harmless : List Char → Bool
  | [] => false
  | c :: _ => c ≠ '$' ∧ c ≠ '\x7b'

section

variable {cs text : List Char} {c : Char} {pieces : List Piece}

/-- A token begins with a dollar, and a dollar or a brace follows. -/
theorem Token.front {t : Token} (h : t.text <+: c :: cs) : c = '$' ∧ harmless cs = false := by
  obtain ⟨rest, hrest⟩ := h
  cases t with
  | dollar =>
    obtain ⟨rfl, rfl⟩ := List.cons.inj hrest
    exact ⟨rfl, rfl⟩
  | expr e =>
    obtain ⟨rfl, rfl⟩ := List.cons.inj hrest
    exact ⟨rfl, rfl⟩

namespace Scans

end Scans

end

variable {env : Env} {adapter : Adapter} {node : Node} {host_id fail_strategy : String}
  {attempt_no : Nat}
  {prepare : Dict String Json → Except Exn (Dict String Json)}

/-- Values whose paths stay inside JSON and whose texts are strings. -/
def plain : Builtins where
  Object := Empty
  getattr := fun _ _ => none
  getitem := fun o => o.elim
  str := fun _ => ""

def idle : Env where
  get_class := fun node_type => .error (.other "AdapterNotFound" node_type)
  render_structure := fun _ params => .ok params
  isoformat := fun _ => ""
  parse_datetime := fun _ => none
  now := 0

namespace NoopAdapter

def validate_config (params : Dict String Json) : ValidationResult :=
  match Dict.get? params "value" with
  | some .null =>
    { ok := false, errors := [("/params/value", ["E0101: value must be JSON serializable"])] }
  | _ => {}

/-- Echo the params. -/
def dispatch (cfg : RenderedNodeConfig) : UnitOutput :=
  let v := match getJson cfg.params "copy" with
    | .null => (Dict.get? cfg.params "value").getD (.str "noop")
    | v => v
  { status := .SUCCESS, output := [("echo", v), ("dispatch_id",
    .str cfg.dispatch_id)], exit_code := some 0 }

def cancel : UnitOutput :=
  { status := .SUCCESS
    output := [("cancelled", .bool false), ("reason",
    .str "Virtual node is terminal, no need to cancel")] }

end NoopAdapter

/-- The adapter of placeholder nodes; it prepares nothing. -/
def NoopAdapter (py : Builtins) : Adapter where
  node_type := "noop"
  requires_host := false
  construct := .ok ()
  validate_and_render :=
    fun params ctx => (render_params py ctx params).map fun params => { params := some params }
  validate_config := fun params => .ok (NoopAdapter.validate_config params)
  dispatch := fun cfg => .ok (NoopAdapter.dispatch cfg)
  poll := fun cfg _ => .ok (NoopAdapter.dispatch cfg)
  cancel := fun _ _ => .ok NoopAdapter.cancel

/-- A scan that has printed a text. -/
def scanned (stdout : String) : WorkflowContext where
  workflow_env := []
  secrets := [("DB_PASSWORD", .str "s3cret")]
  trigger_params := []
  node_outputs :=
    [("node_scan", .obj [("status", .int 2), ("output", .obj [("stdout", .str stdout)])])]

/-- The text of the report. -/
def reported (params : Except Exn (Dict String Json)) : Option String :=
  params.toOption.bind fun params => (getJson params "value").str?

end taurus.engine.context
