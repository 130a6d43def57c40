import Taurus.Engine.Executor.Runnables

namespace taurus.engine.executor

open taurus.lib taurus.python

/-- The condition of an edge is blank. -/
def Edge.blank (e : Edge) : Bool := (strip (expand_from e.from_key e.condition).toList).isEmpty

/-- The value of the condition of an edge in a context; one that fails is false. -/
def edge_value (ctx : EdgeCtx) (e : Edge) : CondVal :=
  match evaluate_edge_condition (expand_from e.from_key e.condition) ctx with
  | .ok v => v
  | .error _ => .bool false

variable {status_of status_of' strategy strategy' : String → _} {ctx ctx' : EdgeCtx} {e : Edge}

/-- A blank edge looks at the status of its source, any other one is evaluated. -/
theorem edge_raw_terminal {st : Status} (h : status_of e.from_key = some st)
    (hterm : st.terminal = true) :
    edge_raw status_of strategy ctx e =
      if e.blank then .bool (st = .SUCCESS ∨ (st = .FAILED ∧ strategy e.from_key = some "continue"))
      else edge_value ctx e := by
  simp only [edge_raw, h, hterm, Bool.not_true, Bool.false_eq_true, if_false]
  rfl

/-- An edge whose source is not terminal is false. -/
theorem edge_raw_open (h : (status_of e.from_key).any (·.terminal) = false) :
    edge_raw status_of strategy ctx e = .bool false := by
  unfold edge_raw
  cases hs : status_of e.from_key with
  | none => rfl
  | some st =>
    rw [hs, Option.any_some] at h
    simp [h]

/-- Two evaluations agree on an edge when they agree on the status of its source, on its
strategy if it failed, and on the value of the condition. -/
theorem edge_raw_congr (hstatus : status_of e.from_key = status_of' e.from_key)
    (hstrategy : status_of e.from_key = some .FAILED → strategy e.from_key = strategy' e.from_key)
    (hvalue : (status_of e.from_key).any (·.terminal) = true → e.blank = false →
      edge_value ctx e = edge_value ctx' e) :
    edge_raw status_of strategy ctx e = edge_raw status_of' strategy' ctx' e := by
  by_cases hterm : (status_of e.from_key).any (·.terminal) = true
  · obtain ⟨st, hst, hst'⟩ := (Option.any_eq_true _ _).mp hterm
    rw [edge_raw_terminal hst hst', edge_raw_terminal (hstatus ▸ hst) hst']
    by_cases hblank : e.blank = true
    · rw [if_pos hblank, if_pos hblank]
      by_cases hfailed : st = .FAILED
      · rw [hstrategy (hfailed ▸ hst)]
      · simp [hfailed]
    · rw [if_neg hblank, if_neg hblank]
      exact hvalue hterm (by simpa using hblank)
  · have hopen : (status_of e.from_key).any (·.terminal) = false := by simpa using hterm
    rw [edge_raw_open hopen, edge_raw_open (hstatus ▸ hopen)]

/-- So they agree on whether it fires, if they agree on all edges of its source. -/
theorem edge_bool_congr {raw raw' : Edge → CondVal} {edges : List Edge} (he : e ∈ edges)
    (hstatus : status_of e.from_key = status_of' e.from_key)
    (hraw : ∀ e' ∈ edges, e'.from_key = e.from_key → raw e' = raw' e') :
    edge_bool status_of raw edges e = edge_bool status_of' raw' edges e := by
  have hany : (edges.any fun e' => e'.from_key = e.from_key ∧ !(raw e').isElse ∧ (raw e').truthy) =
      edges.any fun e' => e'.from_key = e.from_key ∧ !(raw' e').isElse ∧ (raw' e').truthy := by
    rw [Bool.eq_iff_iff]
    simp only [List.any_eq_true, decide_eq_true_eq]
    refine exists_congr fun e' => and_congr_right fun he' => and_congr_right fun hfrom => ?_
    rw [hraw e' he' hfrom]
  unfold edge_bool
  rw [hraw e he rfl, hstatus, hany]

/-- A false edge does not fire. -/
theorem edge_bool_of_falsy {raw : Edge → CondVal} {edges : List Edge} (h : (raw e).truthy = false) :
    edge_bool status_of raw edges e = false := by
  unfold edge_bool
  cases hraw : raw e with
  | els => simp [hraw, CondVal.truthy] at h
  | val | float => simpa [hraw] using h

/-- An edge that fires out of a cancelled source has a true condition. -/
theorem edge_bool_cancelled {edges : List Edge} (h : status_of e.from_key = some .CANCELLED)
    (hfires : edge_bool status_of (edge_raw status_of strategy ctx) edges e = true) :
    e.blank = false ∧ (edge_value ctx e).isElse = false ∧ (edge_value ctx e).truthy = true := by
  have hraw : edge_raw status_of strategy ctx e = _ := edge_raw_terminal h rfl
  unfold edge_bool at hfires
  rw [hraw] at hfires
  by_cases hblank : e.blank = true
  · simp [hblank, CondVal.bool, CondVal.truthy, Json.truthy] at hfires
  · rw [if_neg hblank] at hfires
    refine ⟨by simpa using hblank, ?_⟩
    cases hvalue : edge_value ctx e with
    | els => simp [hvalue, h] at hfires
    | val | float => exact ⟨rfl, by simpa [hvalue] using hfires⟩

/-- An edge whose condition is true fires out of every terminal source. -/
theorem edge_bool_of_value {edges : List Edge} {st : Status} (h : status_of e.from_key = some st)
    (hterm : st.terminal = true) (hblank : e.blank = false)
    (hvalue : (edge_value ctx e).isElse = false) (htrue : (edge_value ctx e).truthy = true) :
    edge_bool status_of (edge_raw status_of strategy ctx) edges e = true := by
  unfold edge_bool
  rw [edge_raw_terminal h hterm, hblank, if_neg (by simp)]
  cases hv : edge_value ctx e with
  | els => simp [hv, CondVal.isElse] at hvalue
  | val | float => simpa [hv] using htrue

/-- A business node with rows shows the status of its rows and the strategy of the first. -/
theorem view?_of_rows {dag : Dag} {rows_of : String → List NodeExec}
    {exec_fs key : String} {n : Node} (hn : dag.node? key = some n) (hstart : n.node_type ≠ "start")
    (hend : n.node_type ≠ "end") {first : NodeExec} {rest : List NodeExec}
    (hrows : rows_of key = first :: rest) :
    view? dag rows_of exec_fs key = some
      { node_key := key, status := expanded_status (first :: rest), is_expanded := true,
        fail_strategy := resolve_row_fail_strategy first.fail_strategy exec_fs } := by
  obtain ⟨_, rfl⟩ := dag.node?_eq_some_iff.mp hn
  simp [view?, hn, node_view, hstart, hend, hrows, _host_view_status]

/-- The failure strategy of a source as the runnable computation sees it. -/
def source_strategy (dag : Dag) (rows_of : String → List NodeExec) (exec_fs key : String) :
    Option String :=
  (view? dag rows_of exec_fs key).map (·.fail_strategy)

/-- The context the runnable computation evaluates conditions in. -/
def runnable_ctx (dag : Dag) (rows_of : String → List NodeExec) (exec_fs : String) (ctx : EdgeCtx) :
    EdgeCtx :=
  merge_statuses (dag.nodes.map (node_view rows_of exec_fs)) ctx

/-- The context goes before the views. -/
theorem get?_merge_statuses (views : List NodeStatusView) (ctx : EdgeCtx) (key : String) :
    Dict.get? (merge_statuses views ctx).node_statuses key =
      (Dict.get? ctx.node_statuses key).or ((views.find? (·.node_key = key)).map (·.status)) := by
  unfold merge_statuses
  generalize ctx.node_statuses = d
  induction views generalizing d with
  | nil => simp
  | cons v rest ih =>
    rw [List.foldl_cons, ih, Dict.get?_setdefault]
    by_cases hkey : v.node_key = key
    · cases Dict.get? d key <;> simp [hkey]
    · simp [hkey]

/-- The runnable computation fills in the view of the nodes the context lacks. -/
theorem get?_runnable_ctx (dag : Dag) (rows_of : String → List NodeExec) (exec_fs : String)
    (ctx : EdgeCtx) (key : String) :
    Dict.get? (runnable_ctx dag rows_of exec_fs ctx).node_statuses key =
      (Dict.get? ctx.node_statuses key).or (source_status dag rows_of exec_fs key) := by
  unfold runnable_ctx source_status view? Dag.node?
  rw [get?_merge_statuses, List.find?_map, Option.map_map, Option.map_map]
  congr 3
  funext n
  simp

/-- The edges that fire in the runnable computation. -/
def next_fires (dag : Dag) (rows_of : String → List NodeExec) (exec_fs : String) (ctx : EdgeCtx)
    (e : Edge) : Bool :=
  let status_of := source_status dag rows_of exec_fs
  edge_bool status_of (edge_raw status_of (source_strategy dag rows_of exec_fs)
    (runnable_ctx dag rows_of exec_fs ctx)) dag.edges e

/-- What `compute_next_runnables` selects. -/
theorem mem_runnables_iff {dag : Dag} {rows_of : String → List NodeExec} {ctx : EdgeCtx}
    {fs key : String} :
    key ∈ (compute_next_runnables dag rows_of ctx fs).1 ↔
      Runnable dag rows_of (if fs = "" then "fail_fast" else fs) key ∧
        (dag.incoming key = [] ∨ ∃ e ∈ dag.incoming key,
          next_fires dag rows_of (if fs = "" then "fail_fast" else fs) ctx e = true) := by
  constructor
  · intro h
    refine ⟨runnable_of_mem h, ?_⟩
    unfold compute_next_runnables at h
    simp only [List.mem_map, List.mem_filter] at h
    obtain ⟨v, ⟨⟨n, hn, rfl⟩, hrun⟩, rfl⟩ := h
    simp only [decide_eq_true_eq, Bool.decide_and, Bool.and_eq_true] at hrun
    obtain ⟨_, _, hincoming⟩ := hrun
    exact hincoming.imp_right fun hedges => List.any_eq_true.mp hedges.2
  · rintro ⟨hrun, hfires⟩
    obtain ⟨n, hn, hstart, hnew⟩ := hrun.node
    obtain ⟨hmem, rfl⟩ := dag.node?_eq_some_iff.mp hn
    unfold compute_next_runnables
    simp only [List.mem_map, List.mem_filter]
    refine ⟨_, ⟨⟨n, hmem, rfl⟩, ?_⟩, node_view_node_key _ _ n⟩
    simp only [decide_eq_true_eq, Bool.not_eq_true', Bool.decide_and, Bool.and_eq_true]
    refine ⟨?_, ?_, ?_⟩
    · obtain hend | hrows := hnew
      · simp [node_view, hend]
      · by_cases hend : n.node_type = "end"
        · simp [node_view, hend]
        · simp [node_view, hstart, hend, hrows, _host_view_status]
    · obtain hend | hrows := hnew
      · simp [node_view, hend]
      · by_cases hend : n.node_type = "end"
        · simp [node_view, hend]
        · simp [node_view, hstart, hend, hrows, _host_view_status]
    · rw [node_view_node_key]
      exact hfires.imp_right fun hedge => ⟨List.all_eq_true.mpr hrun.sources,
        List.any_eq_true.mpr hedge⟩

/-- The node whose success the condition `success(<key>)` asks for. -/
def Edge.asks_success (e : Edge) : Option String :=
  match _tokenize (strip (expand_from e.from_key e.condition).toList) with
  | .ok ["success", "(", a, ")"] =>
    if isBareKey a then some a
    else match _parse_literal a with
    | some v => v.text?
    | none => none
  | _ => none

/-- The condition is empty or `success(...)`. -/
def Edge.plain (e : Edge) : Bool := e.blank || e.asks_success.isSome

/-- A literal that is a text is quoted. -/
theorem quoted_of_parse_literal {tok k : String} (h : _parse_literal tok = some (.val (.str k))) :
    ∃ q body, tok.toList = q :: body ∧ (q = '\'' ∨ q = '"') := by
  unfold _parse_literal at h
  split_ifs at h
  · cases h
  · cases h
  · cases h
  · simp only at h
    split at h
    · rename_i q body l hbody hlast
      split_ifs at h with hquote hpoint
      · exact ⟨q, body, hbody, hquote.1⟩
      · simp at h
      · simp at h
    · cases h

/-- The arguments of `success(<a>)`. -/
private theorem success_argument (ctx : EdgeCtx) {a k : String}
    (h : (if isBareKey a then some a else
      match _parse_literal a with
      | some v => v.text?
      | none => none) = some k) :
    callArgs (_eval_atom ctx 3) "success" 3 true [] [a, ")"] = .ok ([.val (.str k)], []) := by
  by_cases hbare : isBareKey a = true
  · rw [if_pos hbare] at h
    obtain rfl := Option.some.inj h
    have hclose : a ≠ ")" := by rintro rfl; simp [isBareKey, isIdentStart] at hbare
    have hcomma : a ≠ "," := by rintro rfl; simp [isBareKey, isIdentStart] at hbare
    simp [callArgs, hclose, hcomma, hbare]
  · rw [if_neg hbare] at h
    have hliteral : _parse_literal a = some (.val (.str k)) := by
      cases hparse : _parse_literal a with
      | none => simp [hparse] at h
      | some v =>
        rw [hparse] at h
        exact congrArg some (CondVal.text?_eq_some_iff.mp h)
    obtain ⟨q, body, hlist, hq⟩ := quoted_of_parse_literal hliteral
    have hne : ∀ s : String, s.toList.head? ≠ some '\'' → s.toList.head? ≠ some '"' → a ≠ s := by
      rintro s hsingle hdouble rfl
      obtain rfl | rfl := hq
      · exact hsingle (by rw [hlist]; rfl)
      · exact hdouble (by rw [hlist]; rfl)
    have hatom : ∀ rest, _eval_atom ctx 3 (a :: rest) = .ok (.val (.str k), rest) := by
      intro rest
      simp [_eval_atom, literalOrComparison, hliteral, hne "(" (by decide) (by decide),
        hne "success" (by decide) (by decide), hne "failed" (by decide) (by decide),
        hne "skipped" (by decide) (by decide), hne "cancelled" (by decide) (by decide),
        hne "status" (by decide) (by decide), hne "AND" (by decide) (by decide),
        hne "OR" (by decide) (by decide), hne "NOT" (by decide) (by decide),
        hne "__else__" (by decide) (by decide)]
    simp [callArgs, hne ")" (by decide) (by decide), hne "," (by decide) (by decide), hbare, hatom,
      bind, Except.bind]

/-- `success(<key>)` is true if and only if the status of that node is SUCCESS. -/
theorem edge_value_of_asks_success {e : Edge} {k : String} (h : e.asks_success = some k)
    (ctx : EdgeCtx) :
    edge_value ctx e = .bool (Dict.get? ctx.node_statuses k == some .SUCCESS) := by
  unfold Edge.asks_success at h
  split at h
  · rename_i a htokens
    have hargs := success_argument ctx h
    have hatom : _eval_atom ctx 4 ["success", "(", a, ")"] =
        .ok (.bool (Dict.get? ctx.node_statuses k == some .SUCCESS), []) := by
      simp [_eval_atom, hargs, statusCall, status_map, bind, Except.bind]
    have hempty : (strip (expand_from e.from_key e.condition).toList).isEmpty = false := by
      by_contra hnil
      rw [Bool.not_eq_false, List.isEmpty_iff] at hnil
      rw [hnil] at htokens
      cases htokens
    have helse : strip (expand_from e.from_key e.condition).toList ≠ "__else__".toList := by
      intro heq
      rw [heq] at htokens
      revert htokens
      have hels : _tokenize "__else__".toList = .ok ["__else__"] := by decide +kernel
      rw [hels]
      simp
    have heval : evaluate_edge_condition (expand_from e.from_key e.condition) ctx =
        .ok (.bool (Dict.get? ctx.node_statuses k == some .SUCCESS)) := by
      unfold evaluate_edge_condition
      simp only [hempty, helse, Bool.false_eq_true, if_false, htokens]
      have hlen : ["success", "(", a, ")"].length = 4 := rfl
      simp only [bind, Except.bind, hlen, hatom]
      rfl
    rw [edge_value, heval]
  · cases h

end taurus.engine.executor
