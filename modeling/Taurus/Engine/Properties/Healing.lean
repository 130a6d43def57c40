import Taurus.Engine.Executor.Condition
import Taurus.Engine.Steps.Context

namespace taurus.engine.runner

open taurus.lib taurus.python taurus.engine.executor

/-- On every host that the node has rows on, the row of the highest attempt is successful. -/
def LatestSucceed (rows : List NodeExec) (key : String) : Prop :=
  node_rows rows key ≠ [] ∧ ∀ r ∈ node_rows rows key,
    (∀ s ∈ node_rows rows key, s.host_id = r.host_id → s.attempt_no ≤ r.attempt_no) →
      r.status = .SUCCESS

/-- The row failed and a later attempt of its node and host exists. -/
def supersededFailure (rows : List NodeExec) (key : String) (r : NodeExec) : Bool :=
  r.node_key = key ∧ r.status = .FAILED ∧
    rows.any fun s => s.node_key = key ∧ s.host_id = r.host_id ∧ r.attempt_no < s.attempt_no

/-- The engine takes a node for healed: the runnable computation sees it successful and
lets its empty edges fire, `success(node)` is true in the refreshed context, and
its superseded failures alone do not make the execution a failed one. -/
structure HealedNode (dag : Dag) (strategy : String) (ctx : EdgeCtx) (rows : List NodeExec)
    (key : String) : Prop where
  view : source_status dag (node_rows rows) strategy key = some .SUCCESS
  fires : ∀ (strategy_of : String → Option String) (e : Edge), e.from_key = key → e.condition = "" →
    edge_raw (source_status dag (node_rows rows) strategy) strategy_of (refresh_ctx rows ctx) e =
      .bool true
  success : statusCall "success" [.val (.str key)] (refresh_ctx rows ctx) = .ok (.bool true)
  final : final_status dag rows = some .FAILED →
    final_status dag (rows.filter fun r => !supersededFailure rows key r) = some .FAILED

/-- A node whose rows have all succeeded has. -/
theorem expanded_status_success {rows : List NodeExec} (h : ∀ r ∈ rows, r.status = .SUCCESS) :
    expanded_status rows = .SUCCESS := by
  have hany : ∀ p : NodeExec → Bool, (∀ r ∈ rows, p r = false) → rows.any p = false :=
    fun p hp => List.any_eq_false.mpr fun r hr => by simp [hp r hr]
  have hall : ∀ p : NodeExec → Bool, (∀ r ∈ rows, p r = true) → rows.all p = true :=
    fun p hp => List.all_eq_true.mpr hp
  unfold expanded_status
  rw [hany _ fun r hr => by simp [h r hr], hany _ fun r hr => by simp [h r hr],
    hall _ fun r hr => by simp [h r hr], hany _ fun r hr => by simp [h r hr],
    hall _ fun r hr => by simp [h r hr]]
  rfl

/-- `success(node)` is true exactly when all rows of the node are successful. -/
theorem success_iff {rows : List NodeExec} {ctx : EdgeCtx} {key : String}
    (hne : node_rows rows key ≠ []) :
    statusCall "success" [.val (.str key)] (refresh_ctx rows ctx) = .ok (.bool true) ↔
      ∀ r ∈ node_rows rows key, r.status = .SUCCESS := by
  obtain ⟨s, hs⟩ := refreshStatuses_isSome hne
  obtain ⟨⟨r, hr, rfl⟩, hle⟩ := refreshStatuses_eq_some hs
  have hcall : statusCall "success" [.val (.str key)] (refresh_ctx rows ctx) =
      .ok (.bool (some r.status == some .SUCCESS)) := by
    simp [statusCall, status_map, refresh_ctx, hs]
  rw [hcall]
  constructor
  · intro h
    have hsuccess : r.status = .SUCCESS := by simpa [CondVal.bool] using h
    intro q hq
    have hq := hle q hq
    rw [hsuccess] at hq
    cases hstatus : q.status <;> simp [hstatus, statusOrder] at hq ⊢
  · intro h
    simp [h r hr]

/-- A node whose latest attempts are all successful is taken for healed if and only
if no attempt of it, superseded ones included, ended otherwise. -/
theorem healed_iff (dag : Dag) (strategy : String) (ctx : EdgeCtx) (rows : List NodeExec) {n : Node}
    (hn : n ∈ dag.nodes) (hstart : n.node_type ≠ "start") (hend : n.node_type ≠ "end")
    (hlatest : LatestSucceed rows n.node_key) :
    HealedNode dag strategy ctx rows n.node_key ↔
      ∀ r ∈ node_rows rows n.node_key, r.status = .SUCCESS := by
  constructor
  · exact fun h => (success_iff hlatest.1).mp h.success
  · intro h
    have hview : source_status dag (node_rows rows) strategy n.node_key = some .SUCCESS := by
      have hnode : dag.node? n.node_key = some n := dag.node?_eq_some_iff.mpr ⟨hn, rfl⟩
      obtain ⟨first, rest, hrows⟩ := List.exists_cons_of_ne_nil hlatest.1
      have hstatus : expanded_status (first :: rest) = .SUCCESS :=
        expanded_status_success (hrows ▸ h)
      simp [source_status, view?, hnode, node_view, hstart, hend, _host_view_status, hrows, hstatus]
    refine ⟨hview, fun strategy_of e hkey hcond => ?_, (success_iff hlatest.1).mpr h,
      fun hfinal => ?_⟩
    · have hempty : expand_from e.from_key "" = "" := by
        unfold expand_from
        rw [if_neg (by simp [isInfix])]
      simp [edge_raw, hkey, hview, hcond, hkey ▸ hempty, strip, CondVal.bool]
    · have hfilter : rows.filter (fun r => !supersededFailure rows n.node_key r) = rows := by
        refine List.filter_eq_self.mpr fun r hr => ?_
        by_cases hkey : r.node_key = n.node_key
        · simp [supersededFailure, h r (mem_node_rows.mpr ⟨hr, hkey⟩)]
        · simp [supersededFailure, hkey]
      rwa [hfilter]

/-- In a healed node the condition `success('<key>')` is true. -/
theorem HealedNode.evaluate_success {dag : Dag} {strategy : String} {ctx : EdgeCtx}
    {rows : List NodeExec} {key : String} (h : HealedNode dag strategy ctx rows key)
    (hquote : '\'' ∉ key.toList) :
    evaluate_edge_condition ("success('" ++ key ++ "')") (refresh_ctx rows ctx) =
      .ok (.bool true) :=
  (executor.evaluate_success hquote _).trans h.success

/-- Row of attempt `attempt_no` of a command on the first host. -/
def attemptRow (attempt_no : Nat) (status : Status) : NodeExec :=
  { pk := attempt_no, node_key := "deploy", node_type := "command", node_name := "deploy",
    host_id := "1", dispatch_id := _make_dispatch_id 1 "deploy" "1" attempt_no, attempt_no, status,
    fail_strategy := "fail_fast" }

/-- A command that failed once and succeeded at its second attempt. -/
def secondAttempt : List NodeExec := [attemptRow 2 .SUCCESS, attemptRow 1 .FAILED]

def deployOnly : Dag where
  nodes :=
    [{ node_key := "start", node_type := "start" },
      { node_key := "deploy", node_type := "command" }]
  edges := [{ from_key := "start", to_key := "deploy" }]
  keys_nodup := by decide
  edges_closed := by decide

def emptyContext : EdgeCtx :=
  { workflow := [], trigger := [], node_statuses := [], node_outputs := [] }

theorem second_attempt_latest : LatestSucceed secondAttempt "deploy" := by
  refine ⟨by simp [secondAttempt, attemptRow, node_rows], fun r hr hlast => ?_⟩
  obtain ⟨hr, _⟩ := mem_node_rows.mp hr
  obtain rfl | hr := List.mem_cons.mp hr
  · rfl
  · obtain rfl := List.mem_singleton.mp hr
    have hlater : attemptRow 2 .SUCCESS ∈ node_rows secondAttempt "deploy" :=
      mem_node_rows.mpr ⟨List.mem_cons_self, rfl⟩
    exact absurd (hlast _ hlater rfl) (by simp [attemptRow])

/-- The second attempt heals nothing: the node still counts as failed to the runnable
computation, to `success(node)` and to the final status. -/
theorem second_attempt_not_healed :
    LatestSucceed secondAttempt "deploy" ∧
      source_status deployOnly (node_rows secondAttempt) "fail_fast" "deploy" = some .FAILED ∧
      statusCall "success" [.val (.str "deploy")] (refresh_ctx secondAttempt emptyContext) =
        .ok (.bool false) ∧
      final_status deployOnly secondAttempt = some .FAILED ∧
      final_status deployOnly (secondAttempt.filter fun r =>
        !supersededFailure secondAttempt "deploy" r) = some .SUCCESS ∧
      ¬ HealedNode deployOnly "fail_fast" emptyContext secondAttempt "deploy" := by
  have hview : source_status deployOnly (node_rows secondAttempt) "fail_fast" "deploy" =
      some .FAILED := by
    decide +kernel
  refine ⟨second_attempt_latest, hview, rfl, by decide +kernel, by decide +kernel, fun h => ?_⟩
  have hsuccess := h.view
  rw [hview] at hsuccess
  cases hsuccess

/-- The criterion on the two attempts. -/
theorem second_attempt_healed_iff :
    HealedNode deployOnly "fail_fast" emptyContext secondAttempt "deploy" ↔
      ∀ r ∈ node_rows secondAttempt "deploy", r.status = .SUCCESS :=
  healed_iff deployOnly "fail_fast" emptyContext secondAttempt
    (List.mem_cons_of_mem _ List.mem_cons_self) (by simp) (by simp) second_attempt_latest

end taurus.engine.runner
