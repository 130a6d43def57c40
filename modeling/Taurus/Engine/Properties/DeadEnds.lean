import Taurus.Engine.Properties.Acyclicity

namespace taurus.engine.dag_validator

open taurus.lib taurus.lib.digraph taurus.python taurus.engine.executor taurus.engine.registry

variable {py : Reprs} {registry : UnitAdapterRegistry} {dag : WorkflowDAG} {strict : Bool}
  {r : DAGValidationResult}

/-- The keys of the nodes of one type. -/
def keys_of_type (dag : WorkflowDAG) (t : String) : List String :=
  (dag.nodes.filter (is_type · t)).filterMap fun n => (getJson n "node_key").str?

/-- The node has at least one edge. -/
def Connected (dag : WorkflowDAG) (k : String) : Prop :=
  ∃ b, Link (graph dag) k b ∨ Link (graph dag) b k

/-- End nodes lead nowhere, and what is connected lies on a path from the start to an end. -/
structure NoDeadEnds (dag : WorkflowDAG) : Prop where
  ends : ∀ last ∈ keys_of_type dag "end", ∀ b, ¬Link (graph dag) last b
  from_start : ∀ k ∈ node_keys dag, Connected dag k →
    ∃ start ∈ keys_of_type dag "start", Reaches (graph dag) start k
  to_end : ∀ k ∈ node_keys dag, Connected dag k →
    ∃ last ∈ keys_of_type dag "end", Reaches (graph dag) k last

/-- Connected nodes lead nowhere exactly if they are end nodes. -/
def EndsAreSinks (dag : WorkflowDAG) : Prop :=
  ∀ k ∈ node_keys dag, Connected dag k → (k ∈ keys_of_type dag "end" ↔ ∀ b, ¬Link (graph dag) k b)

/-- What an accepted DAG is known to be. -/
structure Accepted (py : Reprs) (registry : UnitAdapterRegistry) (dag : WorkflowDAG) (strict : Bool)
    (v : View) : Prop where
  structured : Structured dag v
  nodup : v.keys.Nodup
  closed : ∀ a b, Link v.links a b → a ∈ v.keys ∧ b ∈ v.keys
  acyclic : ¬Cyclic v.links
  reachable : ∀ start, v.start_key = .str start → ∀ k ∈ v.keys, truly_isolated v k = false →
    Reaches v.links start k
  coreachable : ∀ start last, v.start_key = .str start → v.end_key = .str last →
    ∀ k ∈ v.keys, truly_isolated v k = false → Reaches v.links k last
  contents : Contents py registry dag strict

/-- A DAG that passes is accepted on each count. -/
theorem accepted_of_ok (h : validate_dag py registry dag strict = .ok r) (hok : r.ok = true) :
    ∃ v, Accepted py registry dag strict v := by
  obtain ⟨v, basic, loops, cycles, later, verdict⟩ := validate_dag_spec h
  obtain ⟨rfl, rfl, rfl, rfl⟩ := verdict.of_ok hok
  refine ⟨v, verdict.structured rfl, verdict.nodup, verdict.closed, ?_, ?_, ?_,
    verdict.contents rfl⟩
  · rw [← verdict.cycles_iff rfl rfl]
    simp
  · exact verdict.reachable rfl rfl rfl rfl
  · exact verdict.coreachable rfl rfl rfl rfl

section accepted

variable {v : View} (accepted : Accepted py registry dag strict v)

include accepted

/-- A connected node is not exempt from reachability. -/
theorem Accepted.not_isolated {k : String} (h : Connected dag k) : truly_isolated v k = false := by
  obtain ⟨b, hlink⟩ := h
  rw [← accepted.structured.links] at hlink
  have hdegree : in_degree v.links k ≠ 0 ∨ out_degree v.links k ≠ 0 := by
    obtain hout | hin := hlink
    · exact .inr fun hzero => not_link_of_out_degree hzero b hout
    · exact .inl fun hzero => not_link_of_in_degree hzero b hin
  unfold truly_isolated
  simp only [Bool.decide_and, Bool.and_eq_false_iff, decide_eq_false_iff_not]
  tauto

/-- An accepted DAG has its start. -/
theorem Accepted.start : ∃ start ∈ keys_of_type dag "start", v.start_key = .str start := by
  obtain ⟨n, hn, hstart⟩ := accepted.structured.start
  have hmem : n ∈ dag.nodes.filter (is_type · "start") := by
    rw [hn]
    exact List.mem_singleton_self n
  obtain ⟨k, hk, -⟩ := accepted.structured.keyed n (List.mem_filter.mp hmem).1
  exact ⟨k, List.mem_filterMap.mpr ⟨n, hmem, str?_eq_some_iff.mpr hk⟩, hstart.trans hk⟩

/-- Every connected node is reached from a start. -/
theorem Accepted.from_start {k : String} (hk : k ∈ node_keys dag) (hconnected : Connected dag k) :
    ∃ start ∈ keys_of_type dag "start", Reaches (graph dag) start k := by
  obtain ⟨start, hmem, hstart⟩ := accepted.start
  rw [← accepted.structured.links]
  rw [← accepted.structured.keys] at hk
  exact ⟨start, hmem, accepted.reachable start hstart k hk (accepted.not_isolated hconnected)⟩

/-- The only end node is the end of the backward search. -/
theorem Accepted.sole_end (h : (dag.nodes.filter (is_type · "end")).length = 1) :
    ∃ last, keys_of_type dag "end" = [last] ∧ v.end_key = .str last := by
  obtain ⟨n, hn⟩ := List.length_eq_one_iff.mp h
  have hmem : n ∈ dag.nodes.filter (is_type · "end") := by
    rw [hn]
    exact List.mem_singleton_self n
  obtain ⟨k, hk, -⟩ := accepted.structured.keyed n (List.mem_filter.mp hmem).1
  exact ⟨k, by simp [keys_of_type, hn, hk, Json.str?], (accepted.structured.sole_end n hn).trans hk⟩

/-- With one end node nothing is a dead end. -/
theorem Accepted.noDeadEnds_of_sole (h : (dag.nodes.filter (is_type · "end")).length = 1) :
    NoDeadEnds dag := by
  obtain ⟨last, hlast, hend⟩ := accepted.sole_end h
  obtain ⟨start, -, hstart⟩ := accepted.start
  constructor
  · intro k hk b
    obtain rfl : k = last := by simpa [hlast] using hk
    rw [← accepted.structured.links]
    exact accepted.structured.end_out k hend b
  · exact fun k => accepted.from_start
  · intro k hk hconnected
    rw [← accepted.structured.keys] at hk
    rw [hlast, ← accepted.structured.links]
    exact ⟨last, List.mem_singleton_self last,
      accepted.coreachable start last hstart hend k hk (accepted.not_isolated hconnected)⟩

theorem Accepted.noDeadEnds_of_sinks (h : EndsAreSinks dag) : NoDeadEnds dag := by
  have hclosed : ∀ a b, Link (graph dag) a b → a ∈ node_keys dag ∧ b ∈ node_keys dag := by
    rw [← accepted.structured.links, ← accepted.structured.keys]
    exact accepted.closed
  have hacyclic : ¬Cyclic (graph dag) := by
    rw [← accepted.structured.links]
    exact accepted.acyclic
  constructor
  · intro k hk b hlink
    exact (h k (hclosed k b hlink).1 ⟨b, .inl hlink⟩).mp hk b hlink
  · exact fun k => accepted.from_start
  · intro k hk hconnected
    -- going on from `k` ends in a node that leads nowhere
    obtain ⟨b, hb, hreach, hsink⟩ := exists_sink hclosed hacyclic hk
    have hbconnected : Connected dag b := by
      obtain heq | ⟨c, -, hlink⟩ := Relation.ReflTransGen.cases_tail hreach
      · exact heq ▸ hconnected
      · exact ⟨c, .inr hlink⟩
    exact ⟨b, (h b hb hbconnected).mpr hsink, hreach⟩

end accepted

/-- Without dead ends nothing leads out of an end. -/
theorem NoDeadEnds.endsAreSinks (h : NoDeadEnds dag) : EndsAreSinks dag := by
  intro k hk hconnected
  constructor
  · exact h.ends k
  · intro hsink
    obtain ⟨last, hlast, hreach⟩ := h.to_end k hk hconnected
    rw [← reaches_of_sink hreach hsink]
    exact hlast

/-- An accepted DAG has no dead ends exactly if it has one end node, or its connected nodes
without outgoing edges are its connected end nodes. -/
theorem no_dead_ends_iff (h : validate_dag py registry dag strict = .ok r) (hok : r.ok = true) :
    NoDeadEnds dag ↔ (dag.nodes.filter (is_type · "end")).length = 1 ∨ EndsAreSinks dag := by
  obtain ⟨v, accepted⟩ := accepted_of_ok h hok
  constructor
  · exact fun hnone => .inr hnone.endsAreSinks
  · rintro (hsole | hsinks)
    · exact accepted.noDeadEnds_of_sole hsole
    · exact accepted.noDeadEnds_of_sinks hsinks

theorem parallel_dag_no_dead_ends : NoDeadEnds parallel_dag :=
  (no_dead_ends_iff parallel_dag_valid rfl).mpr (.inl rfl)

/-- With a second end node, a node that leads nowhere is let through. -/
def two_ends_dag : WorkflowDAG where
  nodes := [drawn_node "start" "start", drawn_node "build" "noop", drawn_node "notify" "noop",
    drawn_node "done" "end", drawn_node "aborted" "end"]
  edges := [drawn_edge "start" "build", drawn_edge "start" "notify", drawn_edge "build" "done",
    drawn_edge "build" "aborted"]

theorem two_ends_dag_dead_end :
    (validate_dag .short noop_registry two_ends_dag).toOption.map (·.ok) = some true ∧
      ¬NoDeadEnds two_ends_dag := by
  refine ⟨by decide +kernel, fun h => ?_⟩
  have hgraph : graph two_ends_dag =
    [("start", "build"), ("start", "notify"), ("build", "done"), ("build", "aborted")] := rfl
  have hconnected : Connected two_ends_dag "notify" := ⟨"start", .inr (by simp [Link, hgraph])⟩
  have hsink : ∀ b, ¬Link (graph two_ends_dag) "notify" b := by
    intro b
    simp [Link, hgraph]
  have hend := (h.endsAreSinks "notify" (by decide) hconnected).mpr hsink
  exact absurd hend (by decide)

end taurus.engine.dag_validator
