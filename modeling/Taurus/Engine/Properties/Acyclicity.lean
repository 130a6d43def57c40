import Taurus.Engine.DagValidator.Verdict

namespace taurus.engine.dag_validator

open taurus.lib taurus.lib.digraph taurus.python taurus.engine.executor taurus.engine.registry

variable {py : Reprs} {registry : UnitAdapterRegistry} {dag : WorkflowDAG} {strict : Bool}
  {r : DAGValidationResult}
variable {α β : Type}

section returns

/-- A DAG as its types declare it: keys, node types and conditions are texts. -/
structure WellTyped (dag : WorkflowDAG) : Prop where
  keys : ∀ n ∈ dag.nodes, ∃ k, getJson n "node_key" = .str k
  types : ∀ n ∈ dag.nodes, ∃ t, getJson n "node_type" = .str t
  ends : ∀ e ∈ dag.edges, ∃ a b, getJson e "from_key" = .str a ∧ getJson e "to_key" = .str b
  conditions : ∀ e ∈ dag.edges, getJson e "condition" = .null ∨ ∃ c, getJson e "condition" = .str c

def Returns (x : Except Exn α) : Prop := ∃ a, x = .ok a

theorem returns_ok (a : α) : Returns (.ok a) := ⟨a, rfl⟩

theorem Returns.bind {x : Except Exn α} {f : α → Except Exn β} (h : Returns x)
    (hf : ∀ a, x = .ok a → Returns (f a)) :
    Returns (x >>= f) := by
  obtain ⟨a, ha⟩ := h
  obtain ⟨b, hb⟩ := hf a ha
  exact ⟨b, bind_eq_ok.mpr ⟨a, ha, hb⟩⟩

theorem returns_ite (p : Prop) [Decidable p] {x y : Except Exn α} (hx : Returns x)
    (hy : Returns y) :
    Returns (if p then x else y) := by
  split
  · exact hx
  · exact hy

/-- A loop returns when each turn does. -/
theorem returns_foldlM {f : DAGValidationResult → α → Except Exn DAGValidationResult} {xs : List α}
    (h : ∀ x ∈ xs, ∀ r, Returns (f r x)) (r : DAGValidationResult) : Returns (xs.foldlM f r) := by
  induction xs generalizing r with
  | nil => exact returns_ok r
  | cons x rest ih =>
    rw [List.foldlM_cons]
    apply (h x List.mem_cons_self r).bind
    intro r' _
    exact ih (fun y hy => h y (List.mem_cons_of_mem _ hy)) r'

/-- The key of a terminal node can be hashed. -/
theorem WellTyped.terminal_key (h : WellTyped dag) (t : String) :
    ∃ k, terminal_key dag.nodes (places (is_type · t) dag.nodes) = .ok k ∧ unhashable k = none := by
  unfold dag_validator.terminal_key
  split
  · next i hplaces =>
    have hmap := map_places (is_type · t) dag.nodes []
    rw [hplaces, List.map_singleton] at hmap
    have hmem : dag.nodes.getD i [] ∈ dag.nodes.filter (is_type · t) := by
      rw [← hmap]
      exact List.mem_singleton_self _
    obtain ⟨k, hk⟩ := h.keys _ (List.mem_filter.mp hmem).1
    exact ⟨.str k, by rw [get?_of_getJson hk (by simp)], rfl⟩
  · exact ⟨.null, rfl, rfl⟩

/-- A key that can be hashed has a degree. -/
theorem returns_degree {deg : String → Nat} {k : Json} (h : unhashable k = none) :
    Returns (degree deg k) := by
  unfold degree
  rw [h]
  cases k <;> exact returns_ok _

/-- An edge of a well typed DAG is checked without an exception. -/
theorem WellTyped.check_edge (h : WellTyped dag) {key_to_idx : Dict String Nat}
    {e : Dict String Json × Nat} (he : e ∈ dag.edges.zipIdx) (r : DAGValidationResult) :
    Returns (check_edge py key_to_idx r e) := by
  have hall :=
    (forall_mem_zipIdx (p := fun e => ∃ a b,
      getJson e "from_key" = .str a ∧ getJson e "to_key" = .str b)).mpr h.ends
  obtain ⟨a, b, ha, hb⟩ := hall e he
  unfold dag_validator.check_edge
  simp only [ha, hb]
  apply (returns_ok _).bind
  intro source _
  apply (returns_ok _).bind
  intro target _
  exact returns_ite _ (returns_ok _) (returns_ok _)

theorem WellTyped.check_structure (h : WellTyped dag) : Returns (check_structure py dag) := by
  unfold dag_validator.check_structure
  obtain ⟨start_key, hstart, hhash⟩ := h.terminal_key "start"
  obtain ⟨end_key, hend, hhash'⟩ := h.terminal_key "end"
  simp only [hstart, hend]
  apply (returns_ok _).bind
  rintro _ ⟨⟩
  apply (returns_ok _).bind
  rintro _ ⟨⟩
  apply (returns_foldlM (fun e he r => h.check_edge he r) _).bind
  intro r _
  unfold check_terminal_edges
  refine Returns.bind ?_ fun r' _ => returns_ok _
  apply (returns_degree hhash).bind
  intro into _
  apply (returns_degree hhash').bind
  intro out _
  exact returns_ok _

theorem WellTyped.check_contents (h : WellTyped dag) (r : DAGValidationResult) :
    Returns (check_contents py registry dag strict r) := by
  have htypes := (forall_mem_zipIdx (p := fun n => ∃ t, getJson n "node_type" = .str t)).mpr h.types
  have hconditions :=
    (forall_mem_zipIdx (p := fun e => getJson e "condition" = .null ∨ ∃ c,
      getJson e "condition" = .str c)).mpr h.conditions
  unfold dag_validator.check_contents
  refine Returns.bind ?_ fun r' _ => Returns.bind ?_ fun r'' _ => returns_ok _
  · unfold check_types
    split_ifs
    · apply returns_foldlM
      intro n hn r
      obtain ⟨t, ht⟩ := htypes n hn
      refine Returns.bind ?_ fun found _ => ?_
      · simp only [type_message, ht, unhashable]
        exact returns_ite _ (returns_ok _) (returns_ok _)
      · cases found <;> exact returns_ok _
    · exact returns_ok _
  · apply returns_foldlM
    intro e he r
    unfold check_condition
    obtain hnull | ⟨c, hc⟩ := hconditions e he
    · rw [hnull]
      exact returns_ok _
    · rw [hc]
      apply returns_ite _ (returns_ok _)
      cases unsafe_token? c <;> exact returns_ok _

/-- The order of a checked structure never raises. -/
theorem check_acyclic_returns {v : View}
    (hstructure : dag_validator.check_structure py dag = .ok (v, r)) :
    Returns (check_acyclic v r) := by
  obtain ⟨basic, loops, report⟩ := check_structure_spec hstructure
  obtain ⟨-, hr⟩ | ⟨-, -, hr⟩ | ⟨-, -, m, hr, -⟩ := check_acyclic_spec report.nodup report.closed r
  · exact ⟨_, hr⟩
  · exact ⟨_, hr⟩
  · exact ⟨_, hr⟩

/-- A well typed DAG gets a verdict. -/
theorem WellTyped.validate_dag (h : WellTyped dag) :
    Returns (validate_dag py registry dag strict) := by
  unfold dag_validator.validate_dag
  apply h.check_structure.bind
  rintro ⟨v, r⟩ hstructure
  apply (check_acyclic_returns hstructure).bind
  intro r' _
  apply (h.check_contents _).bind
  intro r'' _
  exact returns_ok _

end returns

section seed

/-- `next` did not run out of elements. -/
def NoStop (x : Except Exn α) : Prop := ∀ message, x ≠ .error (.other "StopIteration" message)

theorem Returns.noStop {x : Except Exn α} (h : Returns x) : NoStop x := by
  obtain ⟨a, rfl⟩ := h
  exact fun _ => nofun

theorem noStop_bind {x : Except Exn α} {f : α → Except Exn β} (hx : NoStop x)
    (hf : ∀ a, x = .ok a → NoStop (f a)) :
    NoStop (x >>= f) := by
  cases x with
  | ok a => exact hf a rfl
  | error e =>
    intro message heq
    exact hx message (congrArg Except.error (Except.error.inj heq))

/-- A loop ends in no StopIteration when no turn does. -/
theorem noStop_foldlM {f : DAGValidationResult → α → Except Exn DAGValidationResult}
    (h : ∀ r x, NoStop (f r x)) (xs : List α) (r : DAGValidationResult) :
    NoStop (xs.foldlM f r) := by
  induction xs generalizing r with
  | nil => exact (returns_ok r).noStop
  | cons x rest ih =>
    rw [List.foldlM_cons]
    exact noStop_bind (h r x) fun r' _ => ih r'

theorem noStop_hash {message : String} :
    NoStop (.error (.other "TypeError" message) : Except Exn α) := by
  intro _ heq
  simp at heq

theorem noStop_terminal_key (nodes : List (Dict String Json)) (idxs : List Nat) :
    NoStop (terminal_key nodes idxs) := by
  unfold terminal_key
  split
  · split
    · exact (returns_ok _).noStop
    · intro _ heq
      simp at heq
  · exact (returns_ok _).noStop

theorem noStop_lookup (d : Dict String β) (k : Json) : NoStop (lookup d k) := by
  unfold lookup
  cases unhashable k with
  | some message => exact noStop_hash
  | none => cases k <;> exact (returns_ok _).noStop

theorem noStop_degree (deg : String → Nat) (k : Json) : NoStop (degree deg k) := by
  unfold degree
  cases unhashable k with
  | some message => exact noStop_hash
  | none => cases k <;> exact (returns_ok _).noStop

/-- The checks raise TypeErrors at most. -/
theorem noStop_check_edge (key_to_idx : Dict String Nat) (r : DAGValidationResult)
    (e : Dict String Json × Nat) :
    NoStop (check_edge py key_to_idx r e) := by
  unfold check_edge
  simp only
  refine noStop_bind (noStop_lookup _ _) fun source _ =>
    noStop_bind (noStop_lookup _ _) fun target _ => ?_
  exact (returns_ite _ (returns_ok _) (returns_ok _)).noStop

theorem noStop_check_structure (dag : WorkflowDAG) : NoStop (check_structure py dag) := by
  unfold check_structure
  refine noStop_bind (noStop_terminal_key _ _) fun start_key _ =>
    noStop_bind (noStop_terminal_key _ _) fun end_key _ => ?_
  refine noStop_bind (noStop_foldlM (noStop_check_edge _) _ _) fun r _ => noStop_bind ?_ fun r' _ =>
    (returns_ok _).noStop
  unfold check_terminal_edges
  exact noStop_bind (noStop_degree _ _) fun into _ => noStop_bind (noStop_degree _ _) fun out _ =>
    (returns_ok _).noStop

theorem noStop_check_type (registered : List String) (r : DAGValidationResult)
    (n : Dict String Json × Nat) :
    NoStop (check_type py registered r n) := by
  refine noStop_bind ?_ fun found _ => ?_
  · unfold type_message
    simp only
    cases unhashable (getJson n.1 "node_type") with
    | some message => exact noStop_hash
    | none => exact (returns_ite _ (returns_ok _) (returns_ok _)).noStop
  · cases found <;> exact (returns_ok _).noStop

theorem noStop_check_condition (r : DAGValidationResult) (e : Dict String Json × Nat) :
    NoStop (check_condition r e) := by
  unfold check_condition
  simp only
  split
  · exact (returns_ok _).noStop
  · next cond _ =>
    apply Returns.noStop
    apply returns_ite _ (returns_ok _)
    cases unsafe_token? cond <;> exact returns_ok _
  · intro _ heq
    cases hcond : getJson e.1 "condition" <;> simp [hcond, not_text] at heq

theorem noStop_check_contents (r : DAGValidationResult) :
    NoStop (check_contents py registry dag strict r) := by
  unfold check_contents
  refine noStop_bind ?_ fun r' _ =>
    noStop_bind (noStop_foldlM noStop_check_condition _ _) fun r'' _ => (returns_ok _).noStop
  unfold check_types
  split
  · exact noStop_foldlM (noStop_check_type _) _ _
  · exact (returns_ok _).noStop

/-- Whenever the order is too short the seed of a cycle is found. -/
theorem validate_dag_noStop : NoStop (validate_dag py registry dag strict) := by
  unfold validate_dag
  refine noStop_bind (noStop_check_structure dag) ?_
  rintro ⟨v, r⟩ hstructure
  refine noStop_bind (check_acyclic_returns hstructure).noStop fun r' _ => ?_
  exact noStop_bind (noStop_check_contents _) fun r'' _ => (returns_ok _).noStop

end seed

/-- A message with another code has not this one. -/
theorem Coded.not_code {codes ms : List String} (h : Coded codes ms) {code : String}
    (hlength : code.toList.length = 4) (hcodes : ∀ c ∈ codes, c.toList.length = 4 ∧ c ≠ code) :
    ∀ m ∈ ms, ¬code.toList <+: m.toList := by
  intro m hm hprefix
  obtain ⟨c, hc, hcprefix⟩ := h m hm
  obtain ⟨hlength', hne⟩ := hcodes c hc
  exact hne (code_unique (hlength'.trans hlength.symm) hcprefix hprefix)

/-- The checks that the graph is built on reported nothing. -/
def WellFormed (r : DAGValidationResult) : Prop :=
  ∀ code ∈ ["V-01", "V-02", "V-03", "V-06"], ¬Reports r code

/-- A well formed DAG passes the first checks. -/
theorem Verdict.basic_eq_nil {v : View} {basic loops cycles later : List String}
    (verdict : Verdict py registry dag strict r v basic loops cycles later) (h : WellFormed r) :
    basic = [] := by
  rw [List.eq_nil_iff_forall_not_mem]
  intro m hm
  obtain ⟨code, hcode, hprefix⟩ := verdict.basic_coded m hm
  exact h code hcode ⟨m, (verdict.messages m).mpr (.inl hm), hprefix⟩

/-- A report under V-04 is one of a self loop or of a longer cycle. -/
theorem Verdict.reports_cycle_iff {v : View} {basic loops cycles later : List String}
    (verdict : Verdict py registry dag strict r v basic loops cycles later) :
    Reports r "V-04" ↔ loops ≠ [] ∨ cycles ≠ [] := by
  constructor
  · rintro ⟨m, hm, hprefix⟩
    obtain hm | hm | hm | hm := (verdict.messages m).mp hm
    · exact absurd hprefix (verdict.basic_coded.not_code (by decide) (by decide) m hm)
    · exact .inl (List.ne_nil_of_mem hm)
    · exact .inr (List.ne_nil_of_mem hm)
    · exact absurd hprefix (verdict.later_coded.not_code (by decide) (by decide) m hm)
  · rintro (hne | hne)
    · obtain ⟨m, hm⟩ := List.exists_mem_of_ne_nil _ hne
      obtain ⟨code, hcode, hprefix⟩ := verdict.loops_coded m hm
      obtain rfl := List.mem_singleton.mp hcode
      exact ⟨m, (verdict.messages m).mpr (.inr (.inl hm)), hprefix⟩
    · obtain ⟨m, hm⟩ := List.exists_mem_of_ne_nil _ hne
      obtain ⟨code, hcode, hprefix⟩ := verdict.cycles_coded m hm
      obtain rfl := List.mem_singleton.mp hcode
      exact ⟨m, (verdict.messages m).mpr (.inr (.inr (.inl hm))), hprefix⟩

/-- V-04 is reported exactly for a cycle. -/
theorem Verdict.reports_iff_cyclic {v : View} {loops cycles later : List String}
    (verdict : Verdict py registry dag strict r v [] loops cycles later) :
    Reports r "V-04" ↔ Cyclic v.links := by
  rw [verdict.reports_cycle_iff]
  by_cases hloops : loops = []
  · rw [← verdict.cycles_iff rfl hloops]
    simp [hloops]
  · obtain ⟨a, ha⟩ := verdict.loops_iff.mp hloops
    have hcyclic : Cyclic v.links := ⟨a, .single ha⟩
    simp [hloops, hcyclic]

/-- A well typed DAG gets a verdict, the seed of a cycle is always found, and a DAG whose keys
and edges are in order is reported under V-04 exactly if it has a cycle, else sorted. -/
theorem acyclicity_decided (py : Reprs) (registry : UnitAdapterRegistry) (dag : WorkflowDAG)
    (strict : Bool) :
    (WellTyped dag → ∃ r, validate_dag py registry dag strict = .ok r) ∧
      (∀ message, validate_dag py registry dag strict ≠ .error (.other "StopIteration" message)) ∧
      ∀ r, validate_dag py registry dag strict = .ok r → WellFormed r →
        (Reports r "V-04" ↔ Cyclic (graph dag)) ∧
        (¬Reports r "V-04" → r.topological_order.Perm (node_keys dag) ∧
          ∀ a b, Link (graph dag) a b →
            r.topological_order.idxOf a < r.topological_order.idxOf b) := by
  refine ⟨WellTyped.validate_dag, validate_dag_noStop, fun r hvalid hwell => ?_⟩
  obtain ⟨v, basic, loops, cycles, later, verdict⟩ := validate_dag_spec hvalid
  obtain rfl := verdict.basic_eq_nil hwell
  have hstructured := verdict.structured rfl
  have hcyclic := verdict.reports_iff_cyclic
  rw [hstructured.links] at hcyclic
  refine ⟨hcyclic, fun hnot => ?_⟩
  have hnone : loops = [] ∧ cycles = [] := by
    rw [verdict.reports_cycle_iff] at hnot
    simpa using hnot
  have hlength : (kahn v.links v.keys).order.length = v.keys.length := by
    rw [kahn_length_iff verdict.nodup verdict.closed, hstructured.links]
    exact fun h => hnot (hcyclic.mpr h)
  rw [verdict.order rfl hnone.1 hnone.2, ← hstructured.keys, ← hstructured.links]
  exact ⟨kahn_perm verdict.nodup verdict.closed hlength,
    fun a b hlink => kahn_forward verdict.nodup verdict.closed hlength hlink⟩

/-- A node and an edge as the frontend sends them. -/
def drawn_node (key node_type : String) : Dict String Json :=
  [("node_key", .str key), ("node_type", .str node_type)]

def drawn_edge (src dst : String) : Dict String Json :=
  [("from_key", .str src), ("to_key", .str dst), ("condition", .str "")]

/-- A registry with a node type that needs no host. -/
def noop_registry : UnitAdapterRegistry := ⟨[("noop", ⟨"noop", false⟩)], rfl⟩

/-- Two parallel edges lead into the only node between start and end. -/
def parallel_dag : WorkflowDAG where
  nodes := [drawn_node "end" "end", drawn_node "build" "noop", drawn_node "start" "start"]
  edges := [drawn_edge "start" "build", drawn_edge "build" "end", drawn_edge "start" "build"]

theorem parallel_dag_valid :
    validate_dag .short noop_registry parallel_dag =
      .ok { topological_order := ["start", "build", "end"] } := by
  decide +kernel

theorem parallel_dag_sorted :
    ¬Cyclic (graph parallel_dag) ∧
      (["start", "build", "end"] : List String).Perm (node_keys parallel_dag) := by
  have hwell : WellFormed { topological_order := ["start", "build", "end"] } := by
    rintro code - ⟨m, hm, -⟩
    simp [messages] at hm
  have hnone : ¬Reports { topological_order := ["start", "build", "end"] } "V-04" := by
    rintro ⟨m, hm, -⟩
    simp [messages] at hm
  obtain ⟨hcyclic, hsorted⟩ :=
    (acyclicity_decided .short noop_registry parallel_dag true).2.2 _ parallel_dag_valid hwell
  exact ⟨fun h => hnone (hcyclic.mpr h), (hsorted hnone).1⟩

end taurus.engine.dag_validator
