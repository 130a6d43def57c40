import Taurus.Engine.Executor.Edges
import Taurus.Engine.Properties.Finality
import Taurus.Engine.Properties.Healing

namespace taurus.engine.runner

open taurus.lib taurus.python taurus.engine.executor

variable {ver : DagVersion} {x : Execution}

/-- The rows of all other nodes. -/
def without (key : String) (rows : List NodeExec) : List NodeExec := rows.filter (·.node_key ≠ key)

/-- The skip of a node agrees with the runnable computation: all rows of its sources are
terminal after the pass, and the node would not be runnable without its own rows. -/
structure SkipAgrees (ver : DagVersion) (x : Execution) (before created : List NodeExec)
    (key : String) : Prop where
  upstream : ∀ e ∈ ver.dag.incoming key, ∀ r ∈ before ++ created, r.node_key = e.from_key →
    r.status.terminal = true
  not_runnable : ∀ (t t' : Table) (stored : List NodeExec), t.rows = before →
    t.bulk_create created = some (t', stored) →
    key ∉ (compute_next_runnables ver.dag (node_rows (without key t'.rows))
      (refresh_ctx (without key t'.rows) (_build_edge_ctx x ver)) x.fail_strategy).1

/-- A context with the statuses and outputs of `rows` for all nodes that have rows, and with
any for the others. -/
structure UpToDate (rows : List NodeExec) (ctx c : EdgeCtx) : Prop where
  workflow : c.workflow = ctx.workflow
  trigger : c.trigger = ctx.trigger
  statuses : ∀ k, node_rows rows k ≠ [] →
    Dict.get? c.node_statuses k = Dict.get? (refreshStatuses rows) k
  outputs : ∀ k, node_rows rows k ≠ [] →
    Dict.get? c.node_outputs k = Dict.get? (refreshOutputs rows) k

/-- A source whose host rows leave no doubt about its status, while `ctx` is up to date on
it and on what the conditions on its edges read. -/
structure SettledSource (dag : Dag) (rows : List NodeExec) (ctx : EdgeCtx)
    (key : String) : Prop where
  current : Dict.get? ctx.node_statuses key = Dict.get? (refreshStatuses rows) key
  started : ∀ n, dag.node? key = some n → n.node_type = "start" →
    ∀ r ∈ node_rows rows key, r.status = .SUCCESS
  finished : (∃ r ∈ node_rows rows key, r.status = .FAILED ∨ r.status = .CANCELLED) →
    ∀ r ∈ node_rows rows key, r.status.terminal = true
  skipped : (∃ r ∈ node_rows rows key, r.status = .SKIPPED) →
    ∀ r ∈ node_rows rows key, r.status ≠ .SUCCESS
  strategy : ∃ fs, fs ≠ "" ∧ ∀ r ∈ node_rows rows key, r.fail_strategy = fs
  values : ∀ e ∈ dag.edges, e.from_key = key → e.blank = false → ∀ c, UpToDate rows ctx c →
    edge_value c e = edge_value ctx e

/-- The source of an edge is settled; or it is yet to be skipped, and then the condition of
the edge is false. -/
structure SettledEdge (dag : Dag) (rows : List NodeExec) (ctx : EdgeCtx) (e : Edge) : Prop where
  terminal : (Dict.get? ctx.node_statuses e.from_key).any (·.terminal) = true →
    SettledSource dag rows ctx e.from_key
  quiet : (Dict.get? ctx.node_statuses e.from_key).any (·.terminal) = false → e.blank = false →
    ∀ c, UpToDate rows ctx c → Dict.get? c.node_statuses e.from_key = some .SKIPPED →
      (edge_value c e).truthy = false

/-- In a skip pass all edges into the nodes it may skip are settled. -/
def SkipsOnSettledEdges (dag : Dag) (entry : Entry) : Prop :=
  ∀ x ctx created, entry.act = .skip x ctx created → ∀ n ∈ dag.nodes, n.node_type ≠ "start" →
    n.node_type ≠ "end" → Skippable dag entry.before ctx n.node_key →
      ∀ e ∈ dag.incoming n.node_key, SettledEdge dag entry.before ctx e

/-- The rows that a skip pass creates agree with the runnable computation. -/
def SkipsAgree (ver : DagVersion) (entry : Entry) : Prop :=
  ∀ x ctx created, entry.act = .skip x ctx created → ∀ r ∈ created,
    SkipAgrees ver x entry.before created r.node_key

namespace SettledSource

variable {dag : Dag} {rows : List NodeExec} {ctx : EdgeCtx} {key : String}

/-- The context shows the status of a row of the source, and all rows are terminal. -/
theorem status (h : SettledSource dag rows ctx key)
    (hterm : (Dict.get? ctx.node_statuses key).any (·.terminal) = true) :
    ∃ s, Dict.get? ctx.node_statuses key = some s ∧ (∃ r ∈ node_rows rows key, r.status = s) ∧
      (∀ r ∈ node_rows rows key, statusOrder r.status ≤ statusOrder s) ∧
      ∀ r ∈ node_rows rows key, r.status.terminal = true := by
  obtain ⟨s, hs, hst⟩ := (Option.any_eq_true _ _).mp hterm
  obtain ⟨⟨q, hq, rfl⟩, hle⟩ := refreshStatuses_eq_some (h.current ▸ hs)
  refine ⟨q.status, hs, ⟨q, hq, rfl⟩, hle, fun r hr => ?_⟩
  cases hstatus : q.status with
  | PENDING | RUNNING => simp [hstatus] at hst
  | FAILED => exact h.finished ⟨q, hq, Or.inl hstatus⟩ r hr
  | CANCELLED => exact h.finished ⟨q, hq, Or.inr hstatus⟩ r hr
  | SUCCESS | SKIPPED =>
    have hr := hle r hr
    cases hrs : r.status <;> simp [hrs, hstatus, statusOrder] at hr ⊢

/-- An edge of a settled source that fires in the runnable computation over rows that
have not changed for the source also fires in the skip pass. -/
theorem fires (h : SettledSource dag rows ctx key)
    (hterm : (Dict.get? ctx.node_statuses key).any (·.terminal) = true)
    {rows' : List NodeExec} {ctx' : EdgeCtx} {exec_fs : String}
    (hsame : node_rows rows' key = node_rows rows key)
    (huptodate : UpToDate rows ctx (runnable_ctx dag (node_rows rows') exec_fs ctx'))
    (hview : (source_status dag (node_rows rows') exec_fs key).any (·.terminal) = true) {e : Edge}
    (he : e ∈ dag.edges) (hfrom : e.from_key = key)
    (hfires : next_fires dag (node_rows rows') exec_fs ctx' e = true) :
    skip_fires dag rows ctx exec_fs e = true := by
  subst hfrom
  obtain ⟨s, hs, hrow, hle, hall⟩ := h.status hterm
  obtain ⟨n, hn, hend, _⟩ := source_status_terminal hview
  have hst : s.terminal = true := by
    obtain ⟨r, hr, rfl⟩ := hrow
    exact hall r hr
  have hvalue : ∀ e' ∈ dag.edges, e'.from_key = e.from_key → e'.blank = false →
      edge_value (runnable_ctx dag (node_rows rows') exec_fs ctx') e' = edge_value ctx e' :=
    fun e' he' hfrom hblank => h.values e' he' hfrom hblank _ huptodate
  have hne : node_rows rows e.from_key ≠ [] := by
    obtain ⟨r, hr, _⟩ := hrow
    exact List.ne_nil_of_mem hr
  have hagree : source_status dag (node_rows rows') exec_fs e.from_key = some s ∨
      (source_status dag (node_rows rows') exec_fs e.from_key = some .CANCELLED ∧ s = .FAILED) := by
    by_cases hstart : n.node_type = "start"
    · obtain ⟨r, hr, rfl⟩ := hrow
      rw [h.started n hn hstart r hr]
      simp [source_status, view?, hn, node_view, hstart]
    · obtain ⟨first, rest, hrows⟩ := List.exists_cons_of_ne_nil hne
      have hexpanded := expanded_status_of_terminal hall hrow hle h.skipped
      rw [hrows] at hexpanded
      simpa [source_status, view?_of_rows hn hstart hend (hsame.trans hrows)] using hexpanded
  obtain hagree | ⟨hcancelled, rfl⟩ := hagree
  · -- both go by the same status
    have hstrategy : s = .FAILED → source_strategy dag (node_rows rows') exec_fs e.from_key =
        Dict.get? (node_fail_strategies rows exec_fs) e.from_key := by
      intro hfailed
      obtain ⟨fs, hfs, hrows⟩ := h.strategy
      rw [node_fail_strategies_eq hfs hne hrows]
      have hstart : n.node_type ≠ "start" := by
        intro hstart
        simp [source_status, view?, hn, node_view, hstart, hfailed] at hagree
      obtain ⟨first, rest, hcons⟩ := List.exists_cons_of_ne_nil hne
      have hfirst := hrows first (hcons ▸ List.mem_cons_self)
      simp [source_strategy, view?_of_rows hn hstart hend (hsame.trans hcons), hfirst]
    have hsame_status : source_status dag (node_rows rows') exec_fs e.from_key =
        Dict.get? ctx.node_statuses e.from_key := hagree.trans hs.symm
    unfold next_fires at hfires
    unfold skip_fires
    rw [← hfires]
    refine (edge_bool_congr he hsame_status fun e' he' hfrom => ?_).symm
    rw [← hfrom] at hsame_status hstrategy hagree
    refine edge_raw_congr hsame_status (fun hfailed => hstrategy ?_) fun _ hblank =>
      hvalue e' he' hfrom hblank
    exact Option.some.inj (hagree.symm.trans hfailed)
  · -- a cancelled host hides the failure from the runnable computation
    obtain ⟨hblank, hother, htrue⟩ := edge_bool_cancelled hcancelled hfires
    rw [hvalue e he rfl hblank] at hother htrue
    exact edge_bool_of_value hs rfl hblank hother htrue

end SettledSource

/-- An edge out of a node with skipped rows only does not fire in the runnable computation
when its condition is blank or false. -/
theorem next_fires_skipped {dag : Dag} {rows : List NodeExec} {exec_fs : String} {ctx : EdgeCtx}
    {e : Edge} {n : Node} (hn : dag.node? e.from_key = some n) (hstart : n.node_type ≠ "start")
    (hend : n.node_type ≠ "end") (hne : node_rows rows e.from_key ≠ [])
    (hall : ∀ r ∈ node_rows rows e.from_key, r.status = .SKIPPED)
    (hquiet : e.blank = false →
      (edge_value (runnable_ctx dag (node_rows rows) exec_fs ctx) e).truthy = false) :
    next_fires dag (node_rows rows) exec_fs ctx e = false := by
  obtain ⟨first, rest, hrows⟩ := List.exists_cons_of_ne_nil hne
  have hstatus : expanded_status (first :: rest) = .SKIPPED := by
    rw [hrows] at hall
    have hskipped : expanded_status (first :: rest) = .SKIPPED ∨ _ :=
      expanded_status_of_terminal (fun r hr => by simp [hall r hr])
        ⟨first, List.mem_cons_self, hall first List.mem_cons_self⟩ (fun r hr => by simp [hall r hr])
        fun _ r hr => by simp [hall r hr]
    simpa using hskipped
  have hview : source_status dag (node_rows rows) exec_fs e.from_key = some .SKIPPED := by
    simp [source_status, view?_of_rows hn hstart hend hrows, hstatus]
  refine edge_bool_of_falsy ?_
  rw [edge_raw_terminal hview rfl]
  split_ifs with hblank
  · rfl
  · exact hquiet (by simpa using hblank)

/-- The context of a skip pass has the workflow and trigger data of the execution. -/
theorem SkipContext.base {log : List Entry} {rows : List NodeExec} {ctx : EdgeCtx}
    (h : SkipContext ver x log rows ctx) :
    ctx.workflow = (_build_edge_ctx x ver).workflow ∧
      ctx.trigger = (_build_edge_ctx x ver).trigger := by
  obtain ⟨_, _, _, rfl | rfl⟩ := h <;> exact ⟨rfl, rfl⟩

/-- A skip on settled edges agrees with the runnable computation. -/
theorem skipAgrees_of_settled {env : Env} {user_id : Option Int} {before created : List NodeExec}
    {ctx : EdgeCtx} (hbase : ctx.workflow = (_build_edge_ctx x ver).workflow ∧
      ctx.trigger = (_build_edge_ctx x ver).trigger)
    (hcreated : created = skip_inserts env x ver.dag before ctx user_id) {n : Node}
    (hn : SkippedNode ver.dag x.strategy before ctx created n)
    (hsettled : ∀ e ∈ ver.dag.incoming n.node_key, SettledEdge ver.dag before ctx e) :
    SkipAgrees ver x before created n.node_key := by
  have hrows : ∀ r ∈ created, r.status = .SKIPPED ∧ node_rows before r.node_key = [] := by
    rintro r hr
    obtain ⟨m, hm, hrm⟩ := skip_inserts_spec (hcreated ▸ hr)
    obtain ⟨hkey, _, hstatus, _⟩ := firstRow_of_skipped hrm
    refine ⟨hstatus, node_rows_eq_nil.mpr fun b hb hbkey => ?_⟩
    exact hm.skippable.new (List.mem_map.mpr ⟨b, hb, hbkey.trans hkey⟩)
  constructor
  · intro e he r hr hkey
    obtain hb | hc := List.mem_append.mp hr
    · by_cases hterm : (Dict.get? ctx.node_statuses e.from_key).any (·.terminal) = true
      · obtain ⟨_, _, _, _, hall⟩ := ((hsettled e he).terminal hterm).status hterm
        exact hall r (mem_node_rows.mpr ⟨hb, hkey⟩)
      · obtain ⟨c, hc, hckey⟩ := (hn.sources e he).resolve_left hterm
        exact absurd hkey (hckey ▸ node_rows_eq_nil.mp (hrows c hc).2 r hb)
    · simp [(hrows r hc).1]
  · rintro t t' stored rfl hins hrun
    have hc := Table.bulk_create_created hins
    set after := without n.node_key t'.rows with hafter
    obtain ⟨hrunnable, hfires⟩ := mem_runnables_iff.mp hrun
    obtain ⟨e, he, hfires⟩ := hfires.resolve_left hn.incoming
    change next_fires ver.dag (node_rows after) x.strategy _ e = true at hfires
    have hview := hrunnable.sources e he
    have hedge : e ∈ ver.dag.edges := (List.mem_filter.mp he).1
    have hnew : node_rows t.rows n.node_key = [] :=
      node_rows_eq_nil.mpr fun b hb hkey => hn.skippable.new (List.mem_map.mpr ⟨b, hb, hkey⟩)
    -- nodes with rows keep them, as the pass creates rows only for nodes without any
    have hsame : ∀ k, node_rows t.rows k ≠ [] → node_rows after k = node_rows t.rows k := by
      intro k hk
      have hkn : k ≠ n.node_key := fun heq => hk (heq ▸ hnew)
      have hother : node_rows after k = node_rows t'.rows k := by
        rw [hafter, without, node_rows, node_rows, List.filter_filter]
        refine List.filter_congr fun r _ => ?_
        by_cases hrk : r.node_key = k <;> simp [hrk, hkn]
      rw [hother]
      refine hc.filter _ fun r hr pk => decide_eq_false fun (heq : r.node_key = k) => ?_
      exact hk (heq ▸ (hrows r hr).2)
    have huptodate : UpToDate t.rows ctx (runnable_ctx ver.dag (node_rows after) x.strategy
        (refresh_ctx after (_build_edge_ctx x ver))) := by
      refine ⟨hbase.1.symm, hbase.2.symm, fun k hk => ?_, fun k hk => ?_⟩
      · obtain ⟨s, hs⟩ := refreshStatuses_isSome hk
        rw [get?_runnable_ctx]
        change (Dict.get? (refreshStatuses after) k).or _ = _
        rw [refreshStatuses_congr (hsame k hk), hs]
        rfl
      · exact refreshOutputs_congr (hsame k hk)
    by_cases hterm : (Dict.get? ctx.node_statuses e.from_key).any (·.terminal) = true
    · have hsource := (hsettled e he).terminal hterm
      obtain ⟨_, _, ⟨r, hr, _⟩, _⟩ := hsource.status hterm
      have hskip :=
        hsource.fires hterm (hsame _ (List.ne_nil_of_mem hr)) huptodate hview hedge rfl hfires
      rw [hn.quiet e he] at hskip
      cases hskip
    · -- the source was skipped in the same pass
      obtain ⟨c, hcm, hckey⟩ := (hn.sources e he).resolve_left hterm
      obtain ⟨m, hm, hrm⟩ := skip_inserts_spec (hcreated ▸ hcm)
      have hmkey : m.node_key = e.from_key := (firstRow_of_skipped hrm).1.symm.trans hckey
      have hmnode : ver.dag.node? e.from_key = some m :=
        ver.dag.node?_eq_some_iff.mpr ⟨hm.node, hmkey⟩
      have hskipped : ∀ r ∈ node_rows after e.from_key, r.status = .SKIPPED := by
        intro r hr
        obtain ⟨hr, hrkey⟩ := mem_node_rows.mp hr
        obtain hr | hr := (hc.mem r).mp (List.mem_filter.mp hr).1
        · obtain ⟨s, hs, heq⟩ := hc.row_of_mem r hr
          rw [heq]
          exact (hrows s hs).1
        · exact absurd (hrkey.trans hckey.symm) (node_rows_eq_nil.mp (hrows c hcm).2 r hr)
      have hne : node_rows after e.from_key ≠ [] := by
        obtain ⟨m', hm', _, hgate⟩ := source_status_terminal hview
        obtain rfl : m = m' := Option.some.inj (hmnode.symm.trans hm')
        obtain ⟨r, hr, _⟩ | ⟨hne, _⟩ := hgate.resolve_left hm.not_start
        · exact List.ne_nil_of_mem hr
        · exact hne
      have hstatus : Dict.get? (runnable_ctx ver.dag (node_rows after) x.strategy
          (refresh_ctx after (_build_edge_ctx x ver))).node_statuses e.from_key =
            some .SKIPPED := by
        obtain ⟨s, hs⟩ := refreshStatuses_isSome hne
        obtain ⟨⟨r, hr, rfl⟩, _⟩ := refreshStatuses_eq_some hs
        rw [get?_runnable_ctx]
        change (Dict.get? (refreshStatuses after) e.from_key).or _ = _
        rw [hs, hskipped r hr]
        rfl
      rw [next_fires_skipped hmnode hm.not_start hm.not_end hne hskipped fun hblank =>
        (hsettled e he).quiet (by simpa using hterm) hblank _ huptodate hstatus] at hfires
      cases hfires

/-- In every run whose skip passes go by settled edges, every skip agrees with the
runnable computation. -/
theorem skips_agree {w : World} (hw : Reachable ver w)
    (hsettled : ∀ e ∈ w.log, SkipsOnSettledEdges ver.dag e) : ∀ e ∈ w.log, SkipsAgree ver e := by
  refine Moves.noted_entries (T := fun _ => True) (fun _ _ _ _ _ => trivial) ?_ (reachable_moves hw)
    hsettled trivial (by simp [World.initial])
  rintro w x act _ _ _ hsettled hnoted y ctx created rfl r hr
  obtain ⟨rfl, hctx, env, user_id, hcreated⟩ := hnoted
  obtain ⟨n, hn, hrn⟩ := skip_inserts_spec (hcreated ▸ hr)
  rw [(firstRow_of_skipped hrn).1]
  rw [← hcreated] at hn
  exact skipAgrees_of_settled hctx.base hcreated hn fun e he =>
    hsettled y ctx created rfl n hn.node hn.not_start hn.not_end hn.skippable e he

/-- A check with a deployment for the case that it succeeds. -/
def checkedDeploy : DagVersion where
  dag :=
    { nodes := [{ node_key := "start", node_type := "start" },
        { node_key := "check", node_type := "command" },
        { node_key := "deploy", node_type := "command" }]
      edges := [{ from_key := "start", to_key := "check" },
        { from_key := "check", to_key := "deploy", condition := "success('check')" }]
      keys_nodup := by decide
      edges_closed := by decide }
  workflow := { pk := 1, name := "checked deploy", fail_strategy := "continue" }

/-- The only condition asks for the status of the check. -/
theorem checkedDeploy_value {c : EdgeCtx} {e : Edge} (he : e ∈ checkedDeploy.dag.edges)
    (hfrom : e.from_key = "check") :
    edge_value c e = .bool (Dict.get? c.node_statuses "check" == some .SUCCESS) := by
  have hcond : expand_from e.from_key e.condition = "success('" ++ "check" ++ "')" := by
    simp only [checkedDeploy, List.mem_cons, List.not_mem_nil, or_false] at he
    obtain rfl | rfl := he
    · simp at hfrom
    · decide
  have hvalue : evaluate_edge_condition ("success('" ++ "check" ++ "')") c = _ :=
    evaluate_success (by decide) c
  unfold edge_value
  rw [hcond, hvalue]
  rfl

/-- When the check has failed, the edge to the deployment is settled. -/
theorem checkedDeploy_settled :
    ∀ e ∈ (started checkedDeploy (checkFails 0) [.scheduled (checkFails 1)]).log,
      SkipsOnSettledEdges checkedDeploy.dag e := by
  intro entry hentry x ctx created hact n hn hstart _ hskip e he
  have hlog : ∀ e ∈ (started checkedDeploy (checkFails 0) [.scheduled (checkFails 1)]).log,
      ∀ p ∈ e.act.skipped?, Dict.get? p.2.1.node_statuses "check" = some .FAILED ∧
        Dict.get? (refreshStatuses e.before) "check" = some .FAILED ∧
        (∃ r ∈ e.before, r.node_key = "check") ∧ ∀ r ∈ e.before, r.node_key = "check" →
          r.status = .FAILED ∧ r.fail_strategy = "continue" := by decide +kernel
  obtain ⟨hctx, hcurrent, ⟨q, hq, hqkey⟩, hrows⟩ :=
    hlog entry hentry (x, ctx, created) (by simpa using hact)
  have hfrom : e.from_key = "check" := by
    have hn : n.node_key = "start" ∨ n.node_key = "check" ∨ n.node_key = "deploy" := by
      simp only [checkedDeploy, List.mem_cons, List.not_mem_nil, or_false] at hn
      rcases hn with rfl | rfl | rfl <;> simp
    have hcheck : n.node_key ≠ "check" :=
      fun h => hskip.new (List.mem_map.mpr ⟨q, hq, hqkey.trans h.symm⟩)
    simp only [checkedDeploy, Dag.incoming, List.mem_filter, List.mem_cons, List.not_mem_nil,
      or_false] at he
    obtain ⟨rfl | rfl, hto⟩ := he
    · exact absurd (by simpa using hto) (Ne.symm hcheck)
    · rfl
  have hedge : e ∈ checkedDeploy.dag.edges := (List.mem_filter.mp he).1
  constructor
  · intro _
    rw [hfrom]
    refine ⟨hctx.trans hcurrent.symm, fun m hm htype => ?_, fun _ r hr => ?_, fun hskipped => ?_,
      ⟨"continue", by simp, fun r hr => ?_⟩, fun e' he' hfrom' _ c hc => ?_⟩
    · have htypes : (checkedDeploy.dag.node? "check").map (·.node_type) =
          some "command" := by decide
      simp [hm, htype] at htypes
    · obtain ⟨hr, hkey⟩ := mem_node_rows.mp hr
      simp [(hrows r hr hkey).1]
    · obtain ⟨r, hr, hskipped⟩ := hskipped
      obtain ⟨hr, hkey⟩ := mem_node_rows.mp hr
      simp [(hrows r hr hkey).1] at hskipped
    · obtain ⟨hr, hkey⟩ := mem_node_rows.mp hr
      exact (hrows r hr hkey).2
    · rw [checkedDeploy_value he' hfrom', checkedDeploy_value he' hfrom', hctx,
        hc.statuses "check" (List.ne_nil_of_mem (mem_node_rows.mpr ⟨hq, hqkey⟩)), hcurrent]
  · intro hopen
    simp [hfrom, hctx] at hopen

/-- The deployment is skipped, in agreement with the runnable computation. -/
theorem deploy_skip_agrees :
    ∃ w, Reachable checkedDeploy w ∧
      (∃ e ∈ w.log, ∃ p ∈ e.act.skipped?, ∃ r ∈ p.2.2, r.node_key = "deploy") ∧
      ∀ e ∈ w.log, SkipsAgree checkedDeploy e :=
  ⟨started checkedDeploy (checkFails 0) [.scheduled (checkFails 1)], started_reachable _ _ _ rfl,
    by decide +kernel, skips_agree (started_reachable _ _ _ rfl) checkedDeploy_settled⟩

/-- A command on two hosts, with a report for the case that it succeeds. -/
def packReport : DagVersion where
  dag :=
    { nodes := [{ node_key := "start", node_type := "start" },
        { node_key := "pack", node_type := "command", requires_host := some true, host_ids := ["1",
        "2"] }, { node_key := "report", node_type := "command", node_name := "pack report" }]
      edges := [{ from_key := "start", to_key := "pack" },
        { from_key := "pack", to_key := "report", condition := "success('pack')" }]
      keys_nodup := by decide
      edges_closed := by decide }
  workflow := { pk := 1, name := "pack report", fail_strategy := "continue" }

/-- The command fails on the first host and runs on on the second. -/
def firstHostFails (minute : Int) : Env :=
  scripted minute (fun _ _ => running) fun _ host =>
    if host = "1" then { status := .FAILED } else running

/-- The report is skipped while the command still runs on the second host. -/
theorem report_skipped_early :
    ∃ w, Reachable packReport w ∧ ∃ e ∈ w.log, ¬ SkipsAgree packReport e := by
  refine ⟨started packReport (firstHostFails 0) [.scheduled (firstHostFails 1)],
    started_reachable _ _ _ rfl, ?_⟩
  have hearly : ∃ e ∈ (started packReport (firstHostFails 0) [.scheduled (firstHostFails 1)]).log,
      ∃ p ∈ e.act.skipped?, (∃ r ∈ p.2.2, r.node_key = "report") ∧
        ∃ q ∈ e.before, q.node_key = "pack" ∧ q.status = .RUNNING := by decide +kernel
  obtain ⟨e, he, ⟨x, ctx, created⟩, hact, ⟨r, hr, hkey⟩, q, hq, hqkey, hrunning⟩ := hearly
  refine ⟨e, he, fun hagree => ?_⟩
  have hup := (hagree x ctx created (by simpa using hact) r hr).upstream
  have hedge : { from_key := "pack", to_key := "report", condition := "success('pack')" } ∈
      packReport.dag.incoming r.node_key := by rw [hkey]; decide
  have hterm := hup _ hedge q (List.mem_append_left _ hq) hqkey
  simp [hrunning] at hterm

end taurus.engine.runner
