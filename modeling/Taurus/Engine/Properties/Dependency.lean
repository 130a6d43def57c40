import Taurus.Engine.Steps.Context

namespace taurus.engine.runner

open taurus.lib taurus.python taurus.engine.executor

variable {ver : DagVersion}

/-- A create entry creates its rows for a reason. -/
def CreatesForReason (ver : DagVersion) (e : Entry) : Prop :=
  ∀ created, e.act = .create created → ∀ c ∈ created, ∃ x, CreatedRow ver x e.before c

/-- Every node of a reachable state was created for a reason. -/
theorem creates_for_reason {w : World} (hw : Reachable ver w) :
    ∀ e ∈ w.log, CreatesForReason ver e := by
  refine Moves.noted_entries (C := fun _ => True) (T := fun _ => True) (fun _ _ _ _ _ => trivial) ?_
    (reachable_moves hw) (fun _ _ => trivial) trivial (by simp [World.initial])
  rintro w x act _ _ _ _ hnoted created rfl c hc
  exact ⟨x, hnoted c hc⟩

/-- All rows of a node are terminal; a start node counts as terminal. -/
def AllTerminal (dag : Dag) (rows : List NodeExec) (key : String) : Prop :=
  (∃ n, dag.node? key = some n ∧ n.node_type = "start") ∨
    ∀ r ∈ node_rows rows key, r.status.terminal = true

/-- The gate a source passes: it is a start node, a host row of it is cancelled, or it
has rows and all of them are terminal. A pending loop child whose generated key is
the key of the node is none of its rows. -/
def PassesGate (dag : Dag) (rows : List NodeExec) (key : String) : Prop :=
  (∃ n, dag.node? key = some n ∧ n.node_type = "start") ∨
    (∃ c ∈ node_rows rows key, c.status = .CANCELLED) ∨
    (node_rows rows key ≠ [] ∧ ∀ r ∈ node_rows rows key, r.status.terminal = true ∨
      (r.status = .PENDING ∧ is_loop_child r = true))

/-- A row other than a loop child is dispatched while all rows of its sources are terminal. -/
def DependencySafe (dag : Dag) (e : Entry) : Prop :=
  ∀ row, e.act = .dispatch row → is_loop_child row = false →
    ∀ edge ∈ dag.incoming row.node_key, AllTerminal dag e.before edge.from_key

/-- A row other than a loop child is dispatched while its sources pass the gate. -/
def DispatchesBehindGate (dag : Dag) (e : Entry) : Prop :=
  ∀ row, e.act = .dispatch row → is_loop_child row = false →
    ∀ edge ∈ dag.incoming row.node_key, PassesGate dag e.before edge.from_key

/-- A created key of a source would be a key without rows, or the one of an end node. -/
private theorem source_not_created {x : Execution} {before : List NodeExec} {c : NodeExec}
    (hc : CreatedRow ver x before c) {m : Node} (hm : ver.dag.node? c.node_key = some m)
    (hend : m.node_type ≠ "end") (hrows : node_rows before c.node_key ≠ []) : False := by
  obtain ⟨n, hn, hstart, hf, _⟩ := hc
  rw [hf.node_key] at hm hrows
  obtain rfl : n = m := by
    rw [ver.dag.node?_eq_some_iff.mpr ⟨hn, rfl⟩] at hm
    exact Option.some.inj hm
  cases hstart with
  | start _ hempty => exact hrows (by simp [hempty, node_rows])
  | node _ _ hnew _ => exact hrows hnew
  | reach_end htype _ => exact hend htype

/-- What the gate let through stays through while the phase dispatches. -/
theorem passesGate_of_since {before now : List NodeExec} {created : List NodeExec} {key : String}
    {m : Node} (hm : ver.dag.node? key = some m) (hend : m.node_type ≠ "end")
    (hgate : m.node_type = "start" ∨ ViewTerminal (node_rows before key))
    (hcreated : ∀ c ∈ created, ∃ x, CreatedRow ver x before c)
    (hsince : Since before (created.map (·.node_key)) now) : PassesGate ver.dag now key := by
  obtain hstart | ⟨c, hc, hcancelled⟩ | ⟨hne, hterm⟩ := hgate
  · exact Or.inl ⟨m, hm, hstart⟩
  · obtain ⟨hin, hkey⟩ := mem_node_rows.mp hc
    have hnow := hsince.kept c hin (by simp [hcancelled])
    exact Or.inr (Or.inl ⟨c, mem_node_rows.mpr ⟨hnow, hkey⟩, hcancelled⟩)
  · refine Or.inr (Or.inr ⟨?_, fun r hr => ?_⟩)
    · obtain ⟨b, hb⟩ := List.exists_mem_of_ne_nil _ hne
      obtain ⟨hin, hkey⟩ := mem_node_rows.mp hb
      exact List.ne_nil_of_mem (mem_node_rows.mpr ⟨hsince.kept b hin (hterm b hb), hkey⟩)
    · obtain ⟨hin, rfl⟩ := mem_node_rows.mp hr
      obtain hb | hkey | ⟨b, hb, _, hkey, hpending, _⟩ | ⟨hpending, hchild, _⟩ :=
        hsince.origin r hin
      · exact Or.inl (hterm r (mem_node_rows.mpr ⟨hb, rfl⟩))
      · obtain ⟨c, hc, hckey⟩ := List.mem_map.mp hkey
        obtain ⟨x, hrow⟩ := hcreated c hc
        rw [← hckey] at hm hne
        exact absurd hrow fun h => source_not_created h hm hend hne
      · have hb := hterm b (mem_node_rows.mpr ⟨hb, hkey⟩)
        simp [hpending] at hb
      · exact Or.inr ⟨hpending, hchild⟩

/-- In every run a row other than a loop child is dispatched only while every source
of its node passes the gate. -/
theorem dispatched_behind_gate {w : World} (hw : Reachable ver w) :
    ∀ e ∈ w.log, DispatchesBehindGate ver.dag e := by
  refine Moves.noted_entries (C := CreatesForReason ver) (T := fun _ => True)
    (fun _ _ _ _ _ => trivial) ?_ (reachable_moves hw) (creates_for_reason hw) trivial
    (by simp [World.initial])
  rintro w x act _ _ hlog _ hnoted row rfl hchild edge hedge
  obtain ⟨r, _, hid, hstate, hpending, hcand⟩ := hnoted
  cases hcand with
  | child hflag =>
    have hrow : is_loop_child row = is_loop_child r := by simp only [is_loop_child, hstate]
    rw [hrow, hflag] at hchild
    cases hchild
  | created created before hentry hrow _ hsince =>
    obtain ⟨c, hc, heq⟩ := hrow
    have hreason := hlog _ hentry created rfl
    obtain ⟨x', n, hn, hstartable, hf, hcontrol⟩ := hreason c hc
    have hstatus : c.status = .PENDING := by rw [← hpending, heq]
    have hkey : row.node_key = n.node_key := by rw [hid.node_key, heq, ← hf.node_key]
    rw [hkey] at hedge
    cases hstartable with
    | start htype _ => simp [hcontrol (Or.inl htype)] at hstatus
    | reach_end htype _ => simp [hcontrol (Or.inr htype)] at hstatus
    | node _ _ _ hrun =>
      obtain ⟨m, hm, hend, hgate⟩ :=
        source_status_terminal ((runnable_of_mem hrun).sources edge hedge)
      exact passesGate_of_since hm hend hgate hreason hsince

/-- A command on two hosts, with a report for the case that it is cancelled. -/
def cancelReport : DagVersion where
  dag :=
    { nodes := [{ node_key := "start", node_type := "start" },
        { node_key := "pack", node_type := "command", requires_host := some true, host_ids := ["1",
        "2"] }, { node_key := "report", node_type := "command" }]
      edges := [{ from_key := "start", to_key := "pack" },
        { from_key := "pack", to_key := "report", condition := "cancelled(pack)" }]
      keys_nodup := by decide
      edges_closed := by decide }
  workflow := { pk := 1, name := "cancel report", fail_strategy := "continue" }

/-- The command is cancelled on the first host and runs on on the second. -/
def firstHostCancelled (minute : Int) : Env :=
  scripted minute (fun _ _ => running) fun _ host =>
    if host = "1" then { status := .CANCELLED } else running

/-- The report is dispatched while the command still runs on the second host. -/
theorem report_dispatched_early :
    ∃ w, Reachable cancelReport w ∧ ∃ e ∈ w.log, ¬ DependencySafe cancelReport.dag e := by
  refine ⟨started cancelReport (firstHostCancelled 0) [.scheduled (firstHostCancelled 1)],
    started_reachable _ _ _ rfl, ?_⟩
  have hearly : ∃ e ∈ (started cancelReport (firstHostCancelled 0)
      [.scheduled (firstHostCancelled 1)]).log, ∃ row ∈ e.act.dispatched?, row.node_key = "report" ∧
        is_loop_child row = false ∧ ∃ r ∈ node_rows e.before "pack", r.status = .RUNNING := by
    decide +kernel
  obtain ⟨e, he, row, hrow, hkey, hchild, r, hr, hrunning⟩ := hearly
  refine ⟨e, he, fun hsafe => ?_⟩
  have hedge : { from_key := "pack", to_key := "report", condition := "cancelled(pack)" } ∈
      cancelReport.dag.incoming row.node_key := by rw [hkey]; decide
  obtain ⟨n, hn, htype⟩ | hterm := hsafe row (by simpa using hrow) hchild _ hedge
  · have hpack : (cancelReport.dag.node? "pack").map (·.node_type) = some "command" := by decide
    rw [hn] at hpack
    simp [htype] at hpack
  · have hr := hterm r hr
    simp [hrunning] at hr

/-- The same run respects the gate: a host of the command is cancelled. -/
theorem report_behind_gate :
    ∃ w, Reachable cancelReport w ∧
      (∃ e ∈ w.log, ∃ row ∈ e.act.dispatched?, row.node_key = "report") ∧
      ∀ e ∈ w.log, DispatchesBehindGate cancelReport.dag e :=
  ⟨started cancelReport (firstHostCancelled 0) [.scheduled (firstHostCancelled 1)],
    started_reachable _ _ _ rfl, by decide +kernel,
    dispatched_behind_gate (started_reachable _ _ _ rfl)⟩

end taurus.engine.runner
