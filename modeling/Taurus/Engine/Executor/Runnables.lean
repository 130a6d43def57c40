import Taurus.Engine.Executor.Nodes
import Taurus.Engine.Models

namespace taurus.engine.executor

open taurus.lib taurus.python

/-- The node-level view of the rows of one node. -/
structure NodeStatusView where
  node_key : String
  status : Status
  is_expanded : Bool
  fail_strategy : String := "fail_fast"
  deriving DecidableEq, Repr

/-- The status of a node with host rows: cancelled first, then running, then the
terminal ones. -/
def expanded_status (rows : List NodeExec) : Status :=
  if rows.any (·.status = .CANCELLED) then .CANCELLED
  else if rows.any (·.status = .RUNNING) then .RUNNING
  else if !rows.all (·.status.terminal) then .RUNNING
  else if rows.any (fun r => r.status = .FAILED ∧ r.fail_strategy = "fail_fast") then .FAILED
  else if rows.all (·.status = .SUCCESS) then .SUCCESS
  else if rows.all (·.status = .SKIPPED) then .SKIPPED
  else if rows.any (·.status = .FAILED) then .FAILED
  else .SUCCESS

/-- Collapse the host rows of a node: status, is_expanded, fail_strategy. -/
def _host_view_status (rows : List NodeExec) : Status × Bool × String :=
  match rows with
  | [] => (.PENDING, false, "fail_fast")
  | first :: _ => (expanded_status rows, true, first.fail_strategy)

/-- `__from__` in a condition stands for the quoted key of the source node. -/
def expand_from (src cond : String) : String :=
  if src ≠ "" ∧ isInfix "__from__".toList cond.toList then
    let escaped := replace ['\''] ['\\', '\''] src.toList
    String.ofList (replace "__from__".toList ('\'' :: escaped ++ ['\'']) cond.toList)
  else cond

/-- The raw value of one edge, from the node statuses and failure strategies the
caller goes by: false while the source is not terminal. -/
def edge_raw (status_of : String → Option Status) (strategy_of : String → Option String)
    (ctx : EdgeCtx) (e : Edge) : CondVal :=
  match status_of e.from_key with
  | none => .bool false
  | some st =>
    if !st.terminal then .bool false
    else
      let cond := expand_from e.from_key e.condition
      if (strip cond.toList).isEmpty then
        .bool (st = .SUCCESS ∨ (st = .FAILED ∧ strategy_of e.from_key = some "continue"))
      else match evaluate_edge_condition cond ctx with
        | .ok v => v
        | .error _ => .bool false

/-- Whether an edge fires: an else edge does when no other edge of its source is
true and the source is not cancelled. -/
def edge_bool (status_of : String → Option Status) (raw : Edge → CondVal) (edges : List Edge)
    (e : Edge) : Bool :=
  match raw e with
  | .els =>
    !(edges.any fun e' => e'.from_key = e.from_key ∧ !(raw e').isElse ∧ (raw e').truthy) &&
      !(status_of e.from_key = some .CANCELLED)
  | v => v.truthy

/-- The edges into a node, in definition order. -/
def Dag.incoming (dag : Dag) (key : String) : List Edge :=
  dag.edges.filter (·.to_key = key)

/-- A strategy of `fail_fast` gives way to an execution strategy that differs. -/
def resolve_row_fail_strategy (row_fs exec_fs : String) : String :=
  if row_fs = "fail_fast" ∧ exec_fs ≠ "fail_fast" then exec_fs else row_fs

/-- The view of one node: start counts as reached, end as not yet expanded. -/
def node_view (rows_of : String → List NodeExec) (exec_fs : String) (n : Node) : NodeStatusView :=
  if n.node_type = "start" then
    { node_key := n.node_key, status := .SUCCESS, is_expanded := true }
  else if n.node_type = "end" then
    { node_key := n.node_key, status := .PENDING, is_expanded := false }
  else
    let (st, expanded, strategy) := _host_view_status (rows_of n.node_key)
    { node_key := n.node_key, status := st, is_expanded := expanded,
      fail_strategy := resolve_row_fail_strategy strategy exec_fs }

/-- `node_views.get(key)` -/
def view? (dag : Dag) (rows_of : String → List NodeExec) (exec_fs key : String) :
    Option NodeStatusView :=
  (dag.node? key).map (node_view rows_of exec_fs)

/-- The statuses the views add to a context that lacks them. -/
def merge_statuses (views : List NodeStatusView) (ctx : EdgeCtx) : EdgeCtx :=
  { ctx with
    node_statuses := views.foldl (fun d v => Dict.setdefault d v.node_key v.status)
      ctx.node_statuses }

/-- The node keys that can be expanded and dispatched next, and the context with
the node statuses filled in. -/
def compute_next_runnables (dag : Dag) (rows_of : String → List NodeExec) (ctx : EdgeCtx)
    (execution_fail_strategy : String) : List String × EdgeCtx :=
  let exec_fs := if execution_fail_strategy = "" then "fail_fast" else execution_fail_strategy
  let views := dag.nodes.map (node_view rows_of exec_fs)
  let ctx := merge_statuses views ctx
  let status_of := fun k => (view? dag rows_of exec_fs k).map (·.status)
  let strategy_of := fun k => (view? dag rows_of exec_fs k).map (·.fail_strategy)
  let raw := edge_raw status_of strategy_of ctx
  let fires := edge_bool status_of raw dag.edges
  let runnable (v : NodeStatusView) : Bool :=
    v.status = .PENDING ∧ !v.is_expanded ∧
      (dag.incoming v.node_key = [] ∨
        ((dag.incoming v.node_key).all (fun e => (status_of e.from_key).any (·.terminal)) ∧
          (dag.incoming v.node_key).any fires))
  ((views.filter runnable).map (·.node_key), ctx)

/-- What the gate of the runnable computation sees in the rows of a source: all
of them are terminal, or one is cancelled. -/
def ViewTerminal (rows : List NodeExec) : Prop :=
  (∃ r ∈ rows, r.status = .CANCELLED) ∨ (rows ≠ [] ∧ ∀ r ∈ rows, r.status.terminal = true)

/-- The status of host rows is terminal exactly when one row is cancelled or all
of them are terminal. -/
theorem expanded_status_terminal_iff {rows : List NodeExec} (hne : rows ≠ []) :
    (expanded_status rows).terminal = true ↔ ViewTerminal rows := by
  unfold expanded_status ViewTerminal
  by_cases hcancel : rows.any (·.status = .CANCELLED)
  · have hex : ∃ r ∈ rows, r.status = .CANCELLED := by simpa using hcancel
    simp only [hcancel, if_true, Status.terminal_cancelled, true_iff]
    exact Or.inl hex
  have hno : ¬ ∃ r ∈ rows, r.status = .CANCELLED := by simpa using hcancel
  by_cases hrunning : rows.any (·.status = .RUNNING)
  · simp only [hcancel, hrunning, hno, Bool.false_eq_true, if_false, if_true,
      Status.terminal_running, false_iff, false_or, not_and]
    intro _ hall
    obtain ⟨r, hr, hstatus⟩ := List.any_eq_true.mp hrunning
    have hterm := hall r hr
    simp [of_decide_eq_true hstatus] at hterm
  by_cases hall : rows.all (·.status.terminal)
  · have hterm : ∀ r ∈ rows, r.status.terminal = true := by simpa using hall
    simp only [hcancel, hrunning, hall, hno, hne, Bool.not_true, Bool.false_eq_true, if_false,
      false_or, ne_eq, not_false_eq_true, true_and]
    refine iff_of_true ?_ hterm
    split_ifs <;> rfl
  · have hterm : ¬ ∀ r ∈ rows, r.status.terminal = true := by simpa using hall
    simp [hcancel, hrunning, hall, hno, hterm]

/-- The view of host rows is terminal exactly when the gate lets them pass. -/
theorem host_view_terminal_iff (rows : List NodeExec) :
    (_host_view_status rows).1.terminal = true ↔ ViewTerminal rows := by
  cases rows with
  | nil => simp [_host_view_status, ViewTerminal]
  | cons first rest => exact expanded_status_terminal_iff (by simp)

/-- A node without rows is pending and not expanded. -/
theorem host_view_pending_iff (rows : List NodeExec) :
    ((_host_view_status rows).1 = .PENDING ∧ (_host_view_status rows).2.1 = false) ↔ rows = [] := by
  cases rows with
  | nil => simp [_host_view_status]
  | cons first rest => simp [_host_view_status]

@[simp] theorem node_view_node_key (rows_of : String → List NodeExec)
    (exec_fs : String) (n : Node) :
    (node_view rows_of exec_fs n).node_key = n.node_key := by
  unfold node_view
  split_ifs <;> rfl

/-- The status a source shows to the runnable computation. -/
def source_status (dag : Dag) (rows_of : String → List NodeExec) (exec_fs key : String) :
    Option Status :=
  (view? dag rows_of exec_fs key).map (·.status)

/-- A source whose view is terminal is a start node, or has rows that pass the gate. -/
theorem source_status_terminal {dag : Dag} {rows_of : String → List NodeExec} {exec_fs key : String}
    (h : (source_status dag rows_of exec_fs key).any (·.terminal) = true) :
    ∃ n, dag.node? key = some n ∧ n.node_type ≠ "end" ∧
      (n.node_type = "start" ∨ ViewTerminal (rows_of key)) := by
  unfold source_status view? at h
  cases hn : dag.node? key with
  | none => simp [hn] at h
  | some n =>
    have hkey : n.node_key = key := (dag.node?_eq_some_iff.mp hn).2
    simp only [hn, Option.map_some, Option.any_some] at h
    unfold node_view at h
    refine ⟨n, rfl, ?_⟩
    split_ifs at h with hstart hend
    · exact ⟨by simp [hstart], Or.inl hstart⟩
    · simp at h
    · exact ⟨hend, Or.inr ((host_view_terminal_iff _).mp (by simpa only [hkey] using h))⟩

/-- What `compute_next_runnables` selects: a node other than start, without rows
unless it is an end node, all of whose sources show a terminal status. -/
structure Runnable (dag : Dag) (rows_of : String → List NodeExec) (exec_fs : String)
    (key : String) :
    Prop where
  node : ∃ n, dag.node? key = some n ∧ n.node_type ≠ "start" ∧
    (n.node_type = "end" ∨ rows_of key = [])
  sources : ∀ e ∈ dag.incoming key,
    (source_status dag rows_of exec_fs e.from_key).any (·.terminal) = true

/-- What is selected is runnable. -/
theorem runnable_of_mem {dag : Dag} {rows_of : String → List NodeExec} {ctx : EdgeCtx}
    {fs key : String} (h : key ∈ (compute_next_runnables dag rows_of ctx fs).1) :
    Runnable dag rows_of (if fs = "" then "fail_fast" else fs) key := by
  unfold compute_next_runnables at h
  simp only [List.mem_map, List.mem_filter] at h
  obtain ⟨v, ⟨⟨n, hn, rfl⟩, hrun⟩, rfl⟩ := h
  generalize hfs : (if fs = "" then "fail_fast" else fs) = exec_fs at hrun ⊢
  rw [node_view_node_key] at hrun ⊢
  simp only [decide_eq_true_eq, Bool.not_eq_true', Bool.decide_and, Bool.and_eq_true] at hrun
  obtain ⟨hpending, hexpanded, hincoming⟩ := hrun
  constructor
  · refine ⟨n, dag.node?_eq_some_iff.mpr ⟨hn, rfl⟩, ?_⟩
    unfold node_view at hpending hexpanded
    split_ifs at hpending hexpanded with hstart hend
    · exact ⟨hstart, Or.inl hend⟩
    · exact ⟨hstart, Or.inr ((host_view_pending_iff _).mp ⟨hpending, hexpanded⟩)⟩
  · intro e he
    obtain hnone | ⟨hall, _⟩ := hincoming
    · rw [hnone] at he
      cases he
    · exact (List.all_eq_true.mp hall) e he

/-- What the runnable computation sees in a source depends on its rows alone. -/
theorem source_status_congr {dag : Dag} {rows_of rows_of' : String → List NodeExec}
    {fs key : String} (h : rows_of key = rows_of' key) :
    source_status dag rows_of fs key = source_status dag rows_of' fs key := by
  unfold source_status view?
  cases hn : dag.node? key with
  | none => rfl
  | some n =>
    have hkey : n.node_key = key := (dag.node?_eq_some_iff.mp hn).2
    simp [node_view, hkey, h]

/-- An end node stays runnable while the rows of the others stay. -/
theorem Runnable.congr_end {dag : Dag} {rows_of rows_of' : String → List NodeExec} {fs key : String}
    (h : Runnable dag rows_of fs key) {n : Node} (hn : dag.node? key = some n)
    (hend : n.node_type = "end")
    (hrows : ∀ k m, dag.node? k = some m → m.node_type ≠ "end" → rows_of k = rows_of' k) :
    Runnable dag rows_of' fs key where
  node := ⟨n, hn, by simp [hend], Or.inl hend⟩
  sources e he := by
    have hterm := h.sources e he
    obtain ⟨m, hm, hne, _⟩ := source_status_terminal hterm
    rwa [← source_status_congr (hrows e.from_key m hm hne)]

end taurus.engine.executor
