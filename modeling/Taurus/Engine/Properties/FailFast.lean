import Taurus.Engine.Executor.Edges
import Taurus.Engine.Properties.Dependency

namespace taurus.engine.runner

open taurus.lib taurus.python taurus.engine.executor

variable {ver : DagVersion} {dag : Dag} {rows : List NodeExec} {fs key : String} {ctx : EdgeCtx}

/-- The node is reached through edges with an empty condition or `success(...)` only. -/
def OnlyPlain (dag : Dag) (key : String) : Prop :=
  dag.incoming key ≠ [] ∧ ∀ e ∈ dag.incoming key, e.plain = true

instance (dag : Dag) (key : String) : Decidable (OnlyPlain dag key) := by
  unfold OnlyPlain; infer_instance

/-- A node has succeeded: all its rows have, or it has none and is a start node. -/
def all_succeeded (dag : Dag) (rows : List NodeExec) (fs key : String) : Bool :=
  if node_rows rows key = [] then source_status dag (node_rows rows) fs key = some .SUCCESS
  else (node_rows rows key).all (·.status = .SUCCESS)

/-- An empty condition lets pass a success, and a failure that is to be continued after;
`success(...)` lets pass when the node it names has succeeded. -/
def opens (dag : Dag) (rows : List NodeExec) (fs : String) (e : Edge) : Bool :=
  if e.blank then
    source_status dag (node_rows rows) fs e.from_key = some .SUCCESS ∨
      (source_status dag (node_rows rows) fs e.from_key = some .FAILED ∧
        source_strategy dag (node_rows rows) fs e.from_key = some "continue")
  else e.asks_success.any (all_succeeded dag rows fs)

/-- A node without rows whose sources are all settled while one of its edges is open. -/
def opened (dag : Dag) (rows : List NodeExec) (fs key : String) : Bool :=
  node_rows rows key = [] ∧
    (dag.incoming key).all (fun e =>
    (source_status dag (node_rows rows) fs e.from_key).any (·.terminal)) ∧
    (dag.incoming key).any (opens dag rows fs)

/-- The status of a node in the context of the runnable computation is SUCCESS if and only
if the node has succeeded. -/
theorem runnable_ctx_success_iff (k : String) :
    Dict.get? (runnable_ctx dag (node_rows rows) fs (refresh_ctx rows ctx)).node_statuses k =
      some .SUCCESS ↔
      all_succeeded dag rows fs k = true := by
  rw [get?_runnable_ctx]
  change (Dict.get? (refreshStatuses rows) k).or _ = _ ↔ _
  unfold all_succeeded
  by_cases hrows : node_rows rows k = []
  · rw [refreshStatuses_eq_none.mpr hrows, if_pos hrows]
    simp
  · obtain ⟨s, hs⟩ := refreshStatuses_isSome hrows
    obtain ⟨⟨r, hr, hstatus⟩, hle⟩ := refreshStatuses_eq_some hs
    rw [hs, if_neg hrows, Option.some_or, Option.some.injEq, List.all_eq_true]
    constructor
    · rintro rfl q hq
      have hzero := hle q hq
      cases hqs : q.status <;> simp_all [statusOrder]
    · intro hall
      rw [← hstatus]
      simpa using hall r hr

/-- Behind settled sources a plain edge fires if and only if it is open. -/
theorem next_fires_iff_opens {e : Edge} (hplain : e.plain = true)
    (hterm : (source_status dag (node_rows rows) fs e.from_key).any (·.terminal) = true) :
    next_fires dag (node_rows rows) fs (refresh_ctx rows ctx) e = opens dag rows fs e := by
  obtain ⟨st, hst, hst'⟩ := (Option.any_eq_true _ _).mp hterm
  unfold next_fires opens
  simp only [edge_bool, edge_raw_terminal hst hst']
  by_cases hblank : e.blank = true
  · simp only [hblank, if_true, CondVal.bool, CondVal.truthy, Json.truthy, hst, Option.some.injEq]
  · have hasks : e.asks_success.isSome = true := by simpa [Edge.plain, hblank] using hplain
    obtain ⟨k, hk⟩ := Option.isSome_iff_exists.mp hasks
    have hsucceeded : Dict.get?
      (runnable_ctx dag (node_rows rows) fs (refresh_ctx rows ctx)).node_statuses k =
        some .SUCCESS ↔ all_succeeded dag rows fs k = true := runnable_ctx_success_iff k
    simp only [hblank, Bool.false_eq_true, if_false, edge_value_of_asks_success hk, CondVal.bool,
      CondVal.truthy, Json.truthy, hk, Option.any_some]
    rw [Bool.eq_iff_iff, ← hsucceeded, beq_iff_eq]

/-- A business node that is reached through plain edges only is runnable if and only if it
is opened. -/
theorem runnable_iff_opened {n : Node} (hn : dag.node? key = some n)
    (hstart : n.node_type ≠ "start") (hend : n.node_type ≠ "end") (hplain : OnlyPlain dag key) :
    key ∈ (compute_next_runnables dag (node_rows rows) (refresh_ctx rows ctx) fs).1 ↔
      opened dag rows (if fs = "" then "fail_fast" else fs) key = true := by
  rw [mem_runnables_iff]
  unfold opened
  simp only [Bool.decide_and, Bool.and_eq_true, decide_eq_true_eq, List.all_eq_true,
    List.any_eq_true]
  constructor
  · rintro ⟨hrun, hnone | ⟨e, he, hfires⟩⟩
    · exact absurd hnone hplain.1
    · obtain ⟨m, hm, _, hnew⟩ := hrun.node
      obtain rfl : n = m := Option.some.inj (hn.symm.trans hm)
      refine ⟨hnew.resolve_left hend, hrun.sources, e, he, ?_⟩
      rwa [next_fires_iff_opens (hplain.2 e he) (hrun.sources e he)] at hfires
  · rintro ⟨hnew, hsources, e, he, hopens⟩
    refine ⟨⟨⟨n, hn, hstart, Or.inr hnew⟩, hsources⟩, Or.inr ⟨e, he, ?_⟩⟩
    rwa [next_fires_iff_opens (hplain.2 e he) (hsources e he)]

/-- Once a row of a fail-fast execution has failed, no row of a node that is reached through
plain edges only is dispatched; rows of loop children are none of a node of the DAG. -/
def FailFastStops (dag : Dag) (w : World) (log : List Entry) : Prop :=
  ∀ x, w.execution = some x → x.fail_strategy = "fail_fast" → (∃ r ∈ w.rows, r.status = .FAILED) →
    ∀ e ∈ log, ∀ row, e.act = .dispatch row → is_loop_child row = false →
    ¬ OnlyPlain dag row.node_key

/-- No business node that is reached through plain edges only is opened when rows are created. -/
def NothingOpened (dag : Dag) (e : Entry) : Prop :=
  ∀ created, e.act = .create created → ∀ n ∈ dag.nodes, n.node_type ≠ "start" →
  n.node_type ≠ "end" →
    OnlyPlain dag n.node_key → opened dag e.before "fail_fast" n.node_key = false

/-- The execution fails fast. -/
private def FailsFast (s : Db) : Prop := ∃ x, s.1 = some x ∧ x.fail_strategy = "fail_fast"

/-- A step keeps the strategies. -/
private theorem Step.failsFast {w w' : World} (h : Step ver w w')
    (hw : FailsFast (recorded.view w)) : FailsFast (recorded.view w') := by
  obtain ⟨x, hx, hfast⟩ := hw
  cases h with
  | begin y hnone _ => exact absurd hx (by simp [recorded, hnone])
  | note | insert | save => exact ⟨x, hx, hfast⟩
  | finish f hf =>
    refine ⟨f x, ?_, ((hf x).fail_strategy).trans hfast⟩
    change w.execution.map f = _
    rw [show w.execution = some x from hx, Option.map_some]

/-- A create entry creates its rows for a reason in a fail-fast execution. -/
private def CreatesFailingFast (ver : DagVersion) (e : Entry) : Prop :=
  ∀ created, e.act = .create created → ∀ c ∈ created,
    ∃ x, x.fail_strategy = "fail_fast" ∧ CreatedRow ver x e.before c

private theorem creates_failing_fast {w w' : World} (h : Moves ver w w')
    (hw : FailsFast (recorded.view w)) (hlog : ∀ e ∈ w.log, CreatesFailingFast ver e) :
    ∀ e ∈ w'.log, CreatesFailingFast ver e := by
  refine Moves.noted_entries (C := fun _ => True)
    (T := FailsFast) (fun _ _ h _ hw => h.failsFast hw) ?_ h
    (fun _ _ => trivial) hw hlog
  rintro w x act hx ⟨y, hy, hfast⟩ _ _ hnoted created rfl c hc
  obtain rfl : x = y := Option.some.inj (hx.symm.trans hy)
  exact ⟨x, hfast, hnoted c hc⟩

/-- In every run of a fail-fast execution in which no node that is reached through plain
edges only is opened, none is dispatched after a failure. -/
theorem fail_fast_stops {w w' : World} (hw : Reachable ver w)
    (hrun : Run ver { w with log := [] } w') (hnothing : ∀ e ∈ w'.log, NothingOpened ver.dag e) :
    FailFastStops ver.dag w w'.log := by
  intro x hx hfast _
  have hempty : NoneEmpty (recorded.view w) := reachable_noneEmpty hw
  have hmoves := run_moves hrun hempty
  have hcreates := creates_failing_fast hmoves ⟨x, hx, hfast⟩ (by simp)
  refine Moves.noted_entries (C := fun e => CreatesFailingFast ver e ∧ NothingOpened ver.dag e)
    (T := fun _ => True) (fun _ _ _ _ _ => trivial) ?_ hmoves
    (fun e he => ⟨hcreates e he, hnothing e he⟩)
    trivial (by simp)
  rintro w x act _ _ hlog _ hnoted row rfl hchild hplain
  obtain ⟨r, _, hid, hstate, hpending, hcand⟩ := hnoted
  cases hcand with
  | child hflag =>
    have hrow : is_loop_child row = is_loop_child r := by simp only [is_loop_child, hstate]
    rw [hrow, hflag] at hchild
    cases hchild
  | created created before hentry hrow _ hsince =>
    obtain ⟨c, hc, heq⟩ := hrow
    obtain ⟨hreason, hclosed⟩ := hlog _ hentry
    obtain ⟨x', hfast', n, hn, hstartable, hf, hcontrol⟩ := hreason created rfl c hc
    have hstatus : c.status = .PENDING := by rw [← hpending, heq]
    have hkey : row.node_key = n.node_key := by rw [hid.node_key, heq, ← hf.node_key]
    rw [hkey] at hplain
    cases hstartable with
    | start htype _ => simp [hcontrol (Or.inl htype)] at hstatus
    | reach_end htype _ => simp [hcontrol (Or.inr htype)] at hstatus
    | node hstart hend _ hrun =>
      have hopened :=
        (runnable_iff_opened (ver.dag.node?_eq_some_iff.mpr ⟨hn, rfl⟩) hstart hend hplain).mp hrun
      rw [hfast', if_neg (by decide)] at hopened
      rw [hclosed created rfl n hn hstart hend hplain] at hopened
      cases hopened

/-- Two branches of which one ends in a test, as a fail-fast execution. -/
def twoBranches : DagVersion where
  dag :=
    { nodes := [{ node_key := "start", node_type := "start" },
        { node_key := "lint", node_type := "command" },
        { node_key := "build", node_type := "command" },
        { node_key := "test", node_type := "command" }]
      edges := [{ from_key := "start", to_key := "lint" },
        { from_key := "start", to_key := "build" }, { from_key := "build", to_key := "test" }]
      keys_nodup := by decide
      edges_closed := by decide }
  workflow := { pk := 1, name := "two branches", fail_strategy := "fail_fast" }

/-- The linter fails at once and everything else succeeds. -/
def lintFails (minute : Int) : Env :=
  scripted minute (fun key _ => { status := if key = "lint" then .FAILED else .SUCCESS })
    fun _ _ => running

/-- The two branches after the trigger. -/
def lintFailed : World := started twoBranches (lintFails 0) []

/-- The tick after the linter has failed dispatches the test behind the other branch. -/
theorem test_dispatched_after_failure :
    ∃ w w', Reachable twoBranches w ∧ Run twoBranches { w with log := [] } w' ∧
      ¬ FailFastStops twoBranches.dag w w'.log := by
  refine ⟨lintFailed, Call.run twoBranches (.scheduled (lintFails 1)) { lintFailed with log := [] },
    started_reachable _ _ _ rfl, .single ⟨.scheduled (lintFails 1), trivial, rfl⟩, fun hstops => ?_⟩
  have hfailed : (∃ x ∈ lintFailed.execution, x.fail_strategy = "fail_fast") ∧
      ∃ r ∈ lintFailed.rows, r.status = .FAILED := by decide +kernel
  have htest : ∃ e ∈ (Call.run twoBranches
    (.scheduled (lintFails 1)) { lintFailed with log := [] }).log,
      ∃ row ∈ e.act.dispatched?, is_loop_child row = false ∧
        OnlyPlain twoBranches.dag row.node_key := by
    decide +kernel
  obtain ⟨⟨x, hx, hfast⟩, hrows⟩ := hfailed
  obtain ⟨e, he, row, hrow, hchild, hplain⟩ := htest
  exact hstops x hx hfast hrows e he row (by simpa using hrow) hchild hplain

/-- A linter with a report for the case that it fails and a test for the case that it does not. -/
def failureReport : DagVersion where
  dag :=
    { nodes := [{ node_key := "start", node_type := "start" },
        { node_key := "lint", node_type := "command" },
        { node_key := "report", node_type := "command" },
        { node_key := "test", node_type := "command" }]
      edges := [{ from_key := "start", to_key := "lint" },
        { from_key := "lint", to_key := "report", condition := "failed(lint)" },
        { from_key := "lint", to_key := "test" }]
      keys_nodup := by decide
      edges_closed := by decide }
  workflow := { pk := 1, name := "failure report", fail_strategy := "fail_fast" }

/-- The report on the linter after the trigger. -/
def lintReported : World := started failureReport (lintFails 0) []

/-- After the failure the report is dispatched and the test is not. -/
theorem only_report_after_failure :
    ∃ w', Run failureReport { lintReported with log := [] } w' ∧
      (∃ e ∈ w'.log, ∃ row ∈ e.act.dispatched?, row.node_key = "report") ∧
      (∃ r ∈ lintReported.rows, r.status = .FAILED) ∧
        FailFastStops failureReport.dag lintReported w'.log := by
  refine ⟨Call.run failureReport (.scheduled (lintFails 1)) { lintReported with log := [] },
    .single ⟨.scheduled (lintFails 1), trivial, rfl⟩, by decide +kernel, by decide +kernel, ?_⟩
  apply fail_fast_stops (started_reachable _ _ _ rfl)
    (.single ⟨.scheduled (lintFails 1), trivial, rfl⟩)
  have hclosed : ∀ e ∈ (Call.run failureReport
    (.scheduled (lintFails 1)) { lintReported with log := [] }).log,
      ∀ n ∈ failureReport.dag.nodes, OnlyPlain failureReport.dag n.node_key →
        opened failureReport.dag e.before "fail_fast" n.node_key = false := by decide +kernel
  exact fun e he _ _ n hn _ _ hplain => hclosed e he n hn hplain

end taurus.engine.runner
