import Taurus.Engine.Properties.Published
import Taurus.Engine.Risk
import Taurus.Lib.Program

namespace taurus.engine.views

open taurus.lib taurus.python taurus.engine.executor taurus.engine.registry taurus.engine.dag_validator taurus.engine.runner

variable {py : Reprs} {lower : String → String} {workflow : Workflow} {node : Dict String Json}

/-- The graph of a workflow, empty where it is not a dict. -/
def graph (workflow : Workflow) : Dict String Json := (workflow.graph_definition.obj?).getD []

/-- The type by which the engine chooses the adapter of a node. -/
def adapter_type (py : Reprs) (node : Dict String Json) : String :=
  py.str (if (getJson node "node_type").truthy then getJson node "node_type"
    else .str (py.str (other_type node)))

/-- The keys under which the parameters of a command or a script have what it runs. -/
def run_keys : List String := ["command", "content", "script_content", "inline_script", "code"]

/-- The text contains one of the patterns in some letter case. -/
def Dangerous (lower : String → String) (text : String) : Prop :=
  text ≠ "" ∧ ∃ pattern ∈ dangerous_patterns, isIn (lower pattern.1) (lower text) = true

/-- A command or a script that would run a dangerous text. -/
def Destructive (py : Reprs) (lower : String → String) (node : Dict String Json) : Prop :=
  adapter_type py node ∈ ["command", "script"] ∧
    ∃ text ∈ texts_at (extract_node_params_from_vueflow node) run_keys, Dangerous lower text

def HighPoint (p : String) : Prop := "[high]".toList <+: p.toList

/-- Some high point is for the node. -/
def Marked (py : Reprs) (lower : String → String) (node : Dict String Json)
    (points : List String) : Prop :=
  ∃ own, node_points py lower node = .ok own ∧ ∃ p ∈ own, HighPoint p ∧ p ∈ points

/-- The assessment returns, and every node that would run a dangerous text has its high point. -/
def Assessed (py : Reprs) (lower : String → String) (workflow : Workflow) : Prop :=
  ∃ level points, _evaluate_workflow_risk py lower workflow = .ok (level, points) ∧
    ∀ node ∈ drawn (graph workflow) "nodes", Destructive py lower node →
    level ≠ .low ∧ Marked py lower node points

/-! What the assessment can read. -/

def IsText (v : Json) : Prop := v.truthy = true → ∃ s, v = .str s

def IsDict (v : Json) : Prop := v.truthy = true → ∃ d, v = .obj d

/-- A loop over the value raises nothing. -/
def Iterable : Json → Prop
  | .bool b => b = false
  | .int n => n = 0
  | .float q => q = 0
  | _ => True

/-- The only dict of a node whose texts are scanned. -/
def node_config (node : Dict String Json) : Dict String Json := sub_dict node "config"

def node_envs (node : Dict String Json) : Json :=
  orElse (getJson (node_config node) "envs") (getJson (node_config node) "env_vars")

def scanned_texts (node : Dict String Json) : List String :=
  texts_at (node_config node) scanned_keys ++ env_texts (((node_envs node).obj?).getD [])

structure Readable (node : Dict String Json) : Prop where
  node_type : IsText (getJson node "node_type")
  config : IsDict (getJson node "config")
  envs : IsDict (node_envs node)

/-- The fields are of their types, and a node that would run a dangerous text has one
in its `config` too. -/
structure Visible (py : Reprs) (lower : String → String) (workflow : Workflow) : Prop where
  nodes : Iterable (getJson (graph workflow) "nodes")
  edges : Iterable (getJson (graph workflow) "edges")
  readable : ∀ node ∈ drawn (graph workflow) "nodes", Readable node
  scanned : ∀ node ∈ drawn (graph workflow) "nodes", Destructive py lower node →
    ∃ text ∈ scanned_texts node, Dangerous lower text

theorem elements_ok_iff {v : Json} : (∃ xs, elements v = .ok xs) ↔ Iterable v := by
  unfold elements
  split
  next hfalse =>
    rw [Bool.not_eq_true'] at hfalse
    refine ⟨fun _ => ?_, fun _ => ⟨_, rfl⟩⟩
    cases v with
    | bool b => exact hfalse
    | int n => simpa [Json.truthy, Iterable] using hfalse
    | float q => simpa [Json.truthy, Iterable] using hfalse
    | _ => trivial
  next htrue =>
    rw [Bool.not_eq_true', Bool.not_eq_false] at htrue
    cases v with
    | null => cases htrue
    | bool b =>
      obtain rfl : b = true := htrue
      exact ⟨nofun, nofun⟩
    | int n => exact ⟨nofun, fun h => by simp [Json.truthy, show n = 0 from h] at htrue⟩
    | float q => exact ⟨nofun, fun h => by simp [Json.truthy, show q = 0 from h] at htrue⟩
    | _ => exact ⟨fun _ => trivial, fun _ => ⟨_, rfl⟩⟩

/-- What can be read as a document. -/
theorem dict_of_ok_iff {method : String} {v : Json} {d : Dict String Json} :
    dict_of method v = .ok d ↔ IsDict v ∧ (v.obj?).getD [] = d := by
  unfold dict_of
  split
  next hfalse =>
    rw [Bool.not_eq_true'] at hfalse
    have hempty : (v.obj?).getD [] = [] := by
      cases v with
      | obj kvs =>
        cases kvs with
        | nil => rfl
        | cons kv rest => cases hfalse
      | _ => rfl
    rw [hempty, Except.ok.injEq, iff_and_self]
    intro _ htrue
    rw [hfalse] at htrue
    cases htrue
  next htrue =>
    rw [Bool.not_eq_true', Bool.not_eq_false] at htrue
    cases v with
    | obj kvs =>
      rw [Except.ok.injEq]
      exact (and_iff_right fun _ => ⟨kvs, rfl⟩).symm
    | _ =>
      refine ⟨nofun, fun ⟨hdict, _⟩ => ?_⟩
      obtain ⟨d, hd⟩ := hdict htrue
      cases hd

/-- What can be lowered. -/
theorem lowered_ok_iff {v : Json} : (∃ s, lowered lower v = .ok s) ↔ IsText v := by
  unfold lowered
  split
  next hfalse =>
    rw [Bool.not_eq_true'] at hfalse
    refine ⟨fun _ htrue => ?_, fun _ => ⟨_, rfl⟩⟩
    rw [hfalse] at htrue
    cases htrue
  next htrue =>
    rw [Bool.not_eq_true', Bool.not_eq_false] at htrue
    cases v with
    | str s => exact ⟨fun _ _ => ⟨s, rfl⟩, fun _ => ⟨_, rfl⟩⟩
    | _ =>
      refine ⟨nofun, fun htext => ?_⟩
      obtain ⟨s, hs⟩ := htext htrue
      cases hs

/-- The points of a node are those for its type and those for the texts of its `config`. -/
theorem node_points_eq {own : List String} (h : node_points py lower node = .ok own) :
    Readable node ∧
    ∃ ntype label, own = type_points py ntype label (node_config node) ++
      (scanned_texts node).flatMap fun text => _scan_text lower text label := by
  obtain ⟨ntype, htype, h⟩ := bind_eq_ok.mp h
  obtain ⟨cfg, hcfg, h⟩ := bind_eq_ok.mp h
  obtain ⟨hconfig, rfl⟩ := dict_of_ok_iff.mp hcfg
  obtain ⟨envs, henvs, h⟩ := bind_eq_ok.mp h
  obtain ⟨hdict, rfl⟩ := dict_of_ok_iff.mp henvs
  obtain rfl := Except.ok.inj h
  exact ⟨⟨lowered_ok_iff.mp ⟨ntype, htype⟩, hconfig, hdict⟩, ntype, _, rfl⟩

/-- The points of a readable node are found. -/
theorem exists_node_points (py : Reprs) (lower : String → String) (h : Readable node) :
    ∃ own, node_points py lower node = .ok own := by
  obtain ⟨ntype, htype⟩ := lowered_ok_iff.mpr h.node_type
  have hcfg : dict_of "get" (getJson node "config") = .ok (node_config node) :=
    dict_of_ok_iff.mpr ⟨h.config, rfl⟩
  have henvs : dict_of "items" (node_envs node) = .ok (((node_envs node).obj?).getD []) :=
    dict_of_ok_iff.mpr ⟨h.envs, rfl⟩
  exact ⟨_, bind_eq_ok.mpr ⟨ntype, htype, bind_eq_ok.mpr ⟨_, hcfg, bind_eq_ok.mpr ⟨_, henvs, rfl⟩⟩⟩⟩

/-! High points. -/

/-- A warning is no high point. -/
theorem not_high_warning (s : String) : ¬ HighPoint ("[warning] " ++ s) := by
  rintro ⟨rest, hrest⟩
  have hsecond := congrArg (fun cs : List Char => cs[1]?) hrest
  rw [String.toList_append] at hsecond
  cases hsecond

theorem not_high_tip (s : String) : ¬ HighPoint ("[tip] " ++ s) := by
  rintro ⟨rest, hrest⟩
  have hsecond := congrArg (fun cs : List Char => cs[1]?) hrest
  rw [String.toList_append] at hsecond
  cases hsecond

theorem high_append (s : String) : HighPoint ("[high] " ++ s) :=
  ⟨' ' :: s.toList, by rw [String.toList_append]; rfl⟩

/-- The type of a node alone gives no high point. -/
theorem type_points_not_high {ntype label p : String} {cfg : Dict String Json}
    (hp : p ∈ type_points py ntype label cfg) : ¬ HighPoint p := by
  unfold type_points at hp
  simp only [List.mem_append, List.mem_ite_nil_right, List.mem_singleton, String.append_assoc] at hp
  obtain ((⟨-, rfl⟩ | ⟨-, rfl⟩) | ⟨-, rfl⟩) | ⟨-, rfl⟩ := hp
  · exact not_high_warning _
  · exact not_high_warning _
  · exact not_high_tip _
  · exact not_high_warning _

/-- All points of a scanned text are high. -/
theorem scan_text_high {text label p : String} (hp : p ∈ _scan_text lower text label) :
    HighPoint p := by
  unfold _scan_text at hp
  split at hp
  · cases hp
  · obtain ⟨⟨pattern, desc⟩, -, hp⟩ := List.mem_filterMap.mp hp
    obtain ⟨-, hp⟩ := Option.ite_none_right_eq_some.mp hp
    obtain rfl := Option.some.inj hp
    rw [String.append_assoc]
    exact high_append _

/-- It has one exactly if the text is dangerous. -/
theorem scan_text_ne_nil_iff {text : String} (label : String) :
    _scan_text lower text label ≠ [] ↔ Dangerous lower text := by
  unfold _scan_text Dangerous
  split
  next hempty => exact ⟨fun h => absurd rfl h, fun h => absurd hempty h.1⟩
  next htext =>
    rw [Ne, List.filterMap_eq_nil_iff, and_iff_right htext]
    push Not
    refine exists_congr fun pattern => and_congr_right fun _ => ?_
    split
    next hin => exact ⟨fun _ => hin, nofun⟩
    next hnot => exact ⟨fun h => absurd rfl h, fun hin => absurd hin hnot⟩

/-- A node has a high point where a text of its `config` is dangerous. -/
theorem exists_high_iff {own : List String} (h : node_points py lower node = .ok own) :
    (∃ p ∈ own, HighPoint p) ↔ ∃ text ∈ scanned_texts node, Dangerous lower text := by
  obtain ⟨-, ntype, label, rfl⟩ := node_points_eq h
  constructor
  · rintro ⟨p, hp, hhigh⟩
    obtain htyped | hscanned := List.mem_append.mp hp
    · exact absurd hhigh (type_points_not_high htyped)
    · obtain ⟨text, htext, hp⟩ := List.mem_flatMap.mp hscanned
      exact ⟨text, htext, (scan_text_ne_nil_iff label).mp (List.ne_nil_of_mem hp)⟩
  · rintro ⟨text, htext, hdangerous⟩
    obtain ⟨p, hp⟩ := List.exists_mem_of_ne_nil _ ((scan_text_ne_nil_iff label).mpr hdangerous)
    exact ⟨p, List.mem_append_right _ (List.mem_flatMap.mpr ⟨text, htext, hp⟩), scan_text_high hp⟩

/-- One high point is enough for a level above low. -/
theorem risk_level_ne_low {points : List String} {p : String} (hp : p ∈ points)
    (hhigh : HighPoint p) : risk_level points ≠ .low := by
  have hin : isIn "[high]" p = true := by
    obtain ⟨rest, hrest⟩ := hhigh
    unfold isIn
    rw [← hrest]
    exact isInfix_append _ _
  have hcount : 1 ≤ points.countP (isIn "[high]") := List.countP_pos_iff.mpr ⟨p, hp, hin⟩
  unfold risk_level
  dsimp only
  split
  · nofun
  · rw [if_pos (Or.inl hcount)]
    nofun

theorem graph_field_eq (workflow : Workflow) (k : String) :
    graph_field workflow.graph_definition k = getJson (graph workflow) k := by
  unfold graph_field graph
  cases workflow.graph_definition <;> rfl

/-- What the assessment read where it returns. -/
theorem evaluated {level : RiskLevel} {points : List String}
    (h : _evaluate_workflow_risk py lower workflow = .ok (level, points)) :
    Iterable (getJson (graph workflow) "nodes") ∧ Iterable (getJson (graph workflow) "edges") ∧
      risk_level points = level ∧
      ∀ node ∈ drawn (graph workflow) "nodes", ∃ own, node_points py lower node = .ok own ∧
        ∀ p ∈ own, p ∈ points := by
  obtain ⟨nodes, hnodes, h⟩ := bind_eq_ok.mp h
  obtain ⟨found, hfound, h⟩ := bind_eq_ok.mp h
  obtain ⟨edges, hedges, h⟩ := bind_eq_ok.mp h
  obtain ⟨rfl, rfl⟩ := Prod.mk.inj (Except.ok.inj h)
  rw [graph_field_eq] at hnodes hedges
  refine ⟨elements_ok_iff.mp ⟨nodes, hnodes⟩, elements_ok_iff.mp ⟨edges, hedges⟩, rfl,
    fun node hnode => ?_⟩
  rw [← drawn_of_elements hnodes] at hnode
  obtain ⟨own, hmem, hown⟩ := mem_of_mapM hfound hnode
  refine ⟨own, hown, fun p hp => ?_⟩
  rw [List.mem_eraseDups]
  simp only [List.mem_append]
  exact Or.inl (Or.inl (Or.inl (Or.inr (List.mem_flatten.mpr ⟨own, hmem, hp⟩))))

/-- A readable graph is evaluated. -/
theorem exists_evaluated (hnodes : Iterable (getJson (graph workflow) "nodes"))
    (hedges : Iterable (getJson (graph workflow) "edges"))
    (hreadable : ∀ node ∈ drawn (graph workflow) "nodes", Readable node) :
    ∃ level points, _evaluate_workflow_risk py lower workflow = .ok (level, points) := by
  obtain ⟨nodes, hnodes⟩ := elements_ok_iff.mpr hnodes
  obtain ⟨edges, hedges⟩ := elements_ok_iff.mpr hedges
  rw [← drawn_of_elements hnodes] at hreadable
  rw [← graph_field_eq] at hnodes hedges
  obtain ⟨found, hfound⟩ :=
    exists_mapM_iff.mpr fun node hnode => exists_node_points py lower (hreadable node hnode)
  exact ⟨_, _, bind_eq_ok.mpr
    ⟨nodes, hnodes, bind_eq_ok.mpr ⟨found, hfound, bind_eq_ok.mpr ⟨edges, hedges, rfl⟩⟩⟩⟩

/-- The assessment sees what would run exactly where every node that would run a dangerous text has
one in its `config` too, and nothing in the graph makes it raise. -/
theorem risk_seen_iff (py : Reprs) (lower : String → String) (workflow : Workflow) :
    Assessed py lower workflow ↔ Visible py lower workflow := by
  constructor
  · rintro ⟨level, points, h, hseen⟩
    obtain ⟨hnodes, hedges, -, hall⟩ := evaluated h
    refine ⟨hnodes, hedges, fun node hnode => ?_, fun node hnode hdestructive => ?_⟩
    · obtain ⟨own, hown, -⟩ := hall node hnode
      exact (node_points_eq hown).1
    · obtain ⟨-, own, hown, p, hp, hhigh, -⟩ := hseen node hnode hdestructive
      exact (exists_high_iff hown).mp ⟨p, hp, hhigh⟩
  · rintro ⟨hnodes, hedges, hreadable, hscanned⟩
    obtain ⟨level, points, h⟩ := exists_evaluated hnodes hedges hreadable
    obtain ⟨-, -, rfl, hall⟩ := evaluated h
    refine ⟨_, points, h, fun node hnode hdestructive => ?_⟩
    obtain ⟨own, hown, hkept⟩ := hall node hnode
    obtain ⟨p, hp, hhigh⟩ := (exists_high_iff hown).mpr (hscanned node hnode hdestructive)
    exact ⟨risk_level_ne_low (hkept p hp) hhigh, own, hown, p, hp, hhigh, hkept p hp⟩

/-! A command whose parameters are where the engine takes them from first. -/

def hidden_command : Dict String Json :=
  [("node_key", .str "wipe"), ("node_type", .str "command"),
    ("params", .obj [("command", .str "rm -rf /")])]

def hidden : Workflow where
  graph_definition := .obj [("nodes", .arr [.obj hidden_command]), ("edges", .arr [])]

def answers_low : Except Exn (RiskLevel × List String) → Bool
  | .ok (.low, []) => true
  | _ => false

/-- The parameters that the engine runs remove everything, and the assessment finds nothing. -/
theorem hidden_not_seen : hidden_command ∈ drawn
    (graph hidden) "nodes" ∧ Destructive .short String.toLower hidden_command ∧
    _evaluate_workflow_risk .short String.toLower hidden = .ok (.low, []) ∧
      ¬ Assessed .short String.toLower hidden := by
  have hmem : hidden_command ∈ drawn (graph hidden) "nodes" := List.mem_cons_self
  have hdestructive : Destructive .short String.toLower hidden_command := by
    refine ⟨List.mem_cons_self, "rm -rf /", List.mem_cons_self,
      by decide, ("rm -rf", "Includes rm -rf forced deletion"), List.mem_cons_self, ?_⟩
    decide +kernel
  have hlow : _evaluate_workflow_risk .short String.toLower hidden = .ok (.low, []) := by
    have h : answers_low (_evaluate_workflow_risk .short String.toLower hidden) = true := by
      decide +kernel
    unfold answers_low at h
    split at h
    next heq => exact heq
    next => cases h
  refine ⟨hmem, hdestructive, hlow, ?_⟩
  rintro ⟨level, points, h, hseen⟩
  rw [hlow] at h
  obtain ⟨rfl, rfl⟩ := Prod.mk.inj (Except.ok.inj h)
  exact (hseen hidden_command hmem hdestructive).1 rfl

end taurus.engine.views
