import Taurus.Engine.Executor.Graphs

namespace taurus.engine.executor

open taurus.lib taurus.python

/-- The condition is the word `__else__` alone. -/
def Edge.bare_else (e : Edge) : Prop := strip e.condition.toList = "__else__".toList

/-- The source is terminal and not cancelled. -/
def Ended (status : Option Status) : Prop :=
  ∃ st, status = some st ∧ st.terminal = true ∧ st ≠ .CANCELLED

/-- Some edge of the source without an else value is true. -/
def OtherTrue (edges : List Edge) (value : Edge → CondVal) (source : String) : Prop :=
  ∃ e ∈ edges, e.from_key = source ∧ (value e).isElse = false ∧ (value e).truthy = true

theorem mem_or_isspace_of_mem {c : Char} {cs : List Char} (h : c ∈ cs) :
    c ∈ cs.dropWhile isspace ∨ isspace c = true := by
  induction cs with
  | nil => cases h
  | cons d cs ih =>
    rw [List.dropWhile_cons]
    split
    · rename_i hspace
      obtain rfl | h := List.mem_cons.mp h
      · exact Or.inr hspace
      · exact ih h
    · exact Or.inl h

/-- Stripping takes away white space only. -/
theorem mem_strip_of_mem {c : Char} {cs : List Char} (h : c ∈ cs) (hc : isspace c = false) :
    c ∈ strip cs := by
  have hleft : c ∈ cs.dropWhile isspace := (mem_or_isspace_of_mem h).resolve_right (by simp [hc])
  have hright := (mem_or_isspace_of_mem (List.mem_reverse.mpr hleft)).resolve_right (by simp [hc])
  exact List.mem_reverse.mpr hright

/-- A bare else condition does not name the source. -/
theorem Edge.bare_else.expanded {e : Edge} (h : e.bare_else) :
    expand_from e.from_key e.condition = e.condition := by
  rw [expand_from, if_neg]
  rintro ⟨_, hfound⟩
  have hf := mem_strip_of_mem ((isInfix_iff.mp hfound).subset (by decide : 'f' ∈ _)) (by decide)
  rw [h] at hf
  exact absurd hf (by decide)

/-- A bare else edge has the else value. -/
theorem Edge.bare_else.value {e : Edge} (h : e.bare_else) (ctx : EdgeCtx) :
    edge_value ctx e = .els := by
  have hblank : "__else__".toList.isEmpty = false := by decide
  rw [edge_value, h.expanded, evaluate_edge_condition, h]
  simp only [hblank, Bool.false_eq_true, if_false, if_true]

theorem Edge.bare_else.not_blank {e : Edge} (h : e.bare_else) : e.blank = false := by
  rw [Edge.blank, h.expanded, h]
  decide

section

variable {status_of : String → Option Status} {strategy : String → Option String} {ctx : EdgeCtx}
  {edges : List Edge} {e : Edge}

/-- A bare else edge out of a terminal source has the else value. -/
theorem bare_else_raw (h : e.bare_else) (hterm : (status_of e.from_key).any (·.terminal) = true) :
    edge_raw status_of strategy ctx e = .els := by
  obtain ⟨st, hst, hst'⟩ := (Option.any_eq_true _ _).mp hterm
  rw [edge_raw_terminal hst hst', h.not_blank, if_neg Bool.false_ne_true, h.value]

/-- An else edge fires when no other edge of its source is true and the source is not cancelled. -/
theorem else_fires_iff {value : Edge → CondVal} (h : value e = .els) :
    edge_bool status_of value edges e = true ↔
      ¬ OtherTrue edges value e.from_key ∧ status_of e.from_key ≠ some .CANCELLED := by
  rw [edge_bool, h]
  simp [OtherTrue]

/-- Any other edge fires when it is true. -/
theorem other_fires_iff {value : Edge → CondVal} (h : (value e).isElse = false) :
    edge_bool status_of value edges e = true ↔ (value e).truthy = true := by
  rw [edge_bool]
  cases hvalue : value e with
  | els => simp [hvalue, CondVal.isElse] at h
  | val | float => rfl

end

/-- A bare else edge out of a source that ended fires exactly when no other edge of
the source is true. -/
theorem bare_else_fires_iff (views : Dict String NodeStatusView) (edges : List Edge)
    (ctx : EdgeCtx) {e : Edge} (hbare : e.bare_else)
    (hended : Ended (view_status views e.from_key)) :
    graph_edge_bool views edges ctx e = true ↔
      ¬ OtherTrue edges (graph_edge_raw views ctx) e.from_key := by
  obtain ⟨st, hst, hterm, hcancel⟩ := hended
  have hraw : graph_edge_raw views ctx e = .els := bare_else_raw hbare (by rw [hst]; exact hterm)
  have hne : view_status views e.from_key ≠ some .CANCELLED := by
    rw [hst]
    simpa using hcancel
  rw [graph_edge_bool, else_fires_iff hraw]
  exact and_iff_left hne

/-- What `compute_next_runnables` makes of the values of the edges: a node that is ready is selected
when it has no incoming edge, or one that is true, or an else edge whose source is not cancelled and
has no other true edge. -/
theorem mem_runnables_iff_values (dag : Dag) (rows_of : String → List NodeExec) (ctx : EdgeCtx)
    (fs key : String) :
    let exec_fs := if fs = "" then "fail_fast" else fs
    let views := node_views dag.nodes rows_of exec_fs
    let value := graph_edge_raw views ctx
    key ∈ (compute_next_runnables dag rows_of ctx fs).1 ↔
      Runnable dag rows_of exec_fs key ∧ (dag.incoming key = [] ∨ ∃ e ∈ dag.incoming key,
        ((value e).isElse = false ∧ (value e).truthy = true) ∨
        (value e = .els ∧ ¬ OtherTrue dag.edges value e.from_key ∧
          view_status views e.from_key ≠ some .CANCELLED)) := by
  intro exec_fs views value
  have hfires : ∀ e, next_fires dag rows_of exec_fs ctx e = true ↔
      ((value e).isElse = false ∧ (value e).truthy = true) ∨
        (value e = .els ∧ ¬ OtherTrue dag.edges value e.from_key ∧
        view_status views e.from_key ≠ some .CANCELLED) := by
    intro e
    rw [← graph_edge_bool_dag, show graph_edge_bool _ dag.edges ctx e =
      edge_bool (view_status views) value dag.edges e from rfl]
    cases hvalue : value e with
    | els => simp [else_fires_iff hvalue, CondVal.isElse]
    | val | float =>
      have helse : (value e).isElse = false := by
        rw [hvalue]
        rfl
      rw [other_fires_iff helse]
      simp [hvalue, CondVal.isElse]
  rw [mem_runnables_iff]
  exact and_congr_right fun _ =>
    or_congr_right (exists_congr fun e => and_congr_right fun _ => hfires e)

/-- Else edges in the runnable computation: when the targets of a source that ended are ready, the
target of its bare else edge is selected unless another edge of the source is true, and some target
of the source is selected in any case; a node with no other way in is selected only then. -/
theorem else_edges_select (dag : Dag) (rows_of : String → List NodeExec) (ctx : EdgeCtx)
    (fs : String) {e : Edge} (he : e ∈ dag.edges) (hbare : e.bare_else) :
    let exec_fs := if fs = "" then "fail_fast" else fs
    let views := node_views dag.nodes rows_of exec_fs
    let others := OtherTrue dag.edges (graph_edge_raw views ctx) e.from_key
    let next := (compute_next_runnables dag rows_of ctx fs).1
    Ended (view_status views e.from_key) →
      (Runnable dag rows_of exec_fs e.to_key → ¬ others → e.to_key ∈ next) ∧
      (dag.incoming e.to_key = [e] → e.to_key ∈ next → ¬ others) ∧
      ((∀ e' ∈ dag.edges, e'.from_key = e.from_key → Runnable dag rows_of exec_fs e'.to_key) →
        ∃ e' ∈ dag.edges, e'.from_key = e.from_key ∧ e'.to_key ∈ next) := by
  intro exec_fs views others next hended
  have hfires : next_fires dag rows_of exec_fs ctx e = true ↔ ¬ others := by
    rw [← graph_edge_bool_dag]
    exact bare_else_fires_iff views dag.edges ctx hbare hended
  have hselected : ∀ e' ∈ dag.edges, Runnable dag rows_of exec_fs e'.to_key →
      next_fires dag rows_of exec_fs ctx e' = true → e'.to_key ∈ next := by
    intro e' he' hready htrue
    exact mem_runnables_iff.mpr
      ⟨hready, .inr ⟨e', List.mem_filter.mpr ⟨he', decide_eq_true rfl⟩, htrue⟩⟩
  refine ⟨fun hready hothers => hselected e he hready (hfires.mpr hothers), ?_, ?_⟩
  · intro honly hnext
    obtain ⟨-, hnone | ⟨e', he', htrue⟩⟩ := mem_runnables_iff.mp hnext
    · rw [honly] at hnone
      cases hnone
    · rw [honly] at he'
      obtain rfl := List.mem_singleton.mp he'
      exact hfires.mp htrue
  · intro hready
    by_cases hothers : others
    · obtain ⟨e', he', hfrom, helse, htrue⟩ := id hothers
      refine ⟨e', he', hfrom, hselected e' he' (hready e' he' hfrom) ?_⟩
      rw [← graph_edge_bool_dag]
      exact (other_fires_iff helse).mpr htrue
    · exact ⟨e, he, rfl, hselected e he (hready e he rfl) (hfires.mpr hothers)⟩

end taurus.engine.executor
