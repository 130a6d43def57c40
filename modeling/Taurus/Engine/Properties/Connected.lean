import Taurus.Engine.Properties.DeadEnds
import Taurus.Engine.Properties.Dependency
import Taurus.Engine.Properties.Retries

namespace taurus.engine.runner

open taurus.lib taurus.lib.digraph taurus.python taurus.engine.executor taurus.engine.registry
open taurus.engine.dag_validator

variable {ver : DagVersion} {w : World}

/-- The key of a node, or of a loop child below a row of the node. -/
inductive BelongsTo (k : String) : String → Prop
  | node : BelongsTo k k
  | child {p : String} (i : Nat) (h : BelongsTo k p) : BelongsTo k (childKey p i)

/-- The key belongs to a node that is neither a start nor an end. -/
def OfBusiness (dag : Dag) (key : String) : Prop :=
  ∃ n ∈ dag.nodes, n.node_type ≠ "start" ∧ n.node_type ≠ "end" ∧ BelongsTo n.node_key key

/-- What holds of a dispatched row: it is a row of a business node, or of a loop below one. -/
def DispatchesBusiness (dag : Dag) (e : Entry) : Prop :=
  ∀ row, e.act = .dispatch row → OfBusiness dag row.node_key ∧
    (is_loop_child row = false →
    ∃ n ∈ dag.nodes, n.node_type ≠ "start" ∧ n.node_type ≠ "end" ∧ n.node_key = row.node_key)

/-- Pending loop children belong to a business node. -/
def ChildrenOfBusiness (dag : Dag) (rows : List NodeExec) : Prop :=
  ∀ r ∈ rows, r.status = .PENDING → is_loop_child r = true → OfBusiness dag r.node_key

theorem not_loop_child {r : NodeExec} (h : r.adapter_state = []) : is_loop_child r = false := by
  simp [is_loop_child, h, getJson, Json.truthy]

/-- A row inserted as a pending loop child belongs to the node of its parent. -/
theorem inserted_child {x : Execution} {w : World} {act : Act} (h : Noted ver x w.log w.rows act)
    (hlog : ∀ e ∈ w.log, DispatchesBusiness ver.dag e) {r : NodeExec} (hr : r ∈ act.rows)
    (hpending : r.status = .PENDING) (hchild : is_loop_child r = true) :
    OfBusiness ver.dag r.node_key := by
  have hfirst : r.adapter_state = [] → OfBusiness ver.dag r.node_key := by
    intro hstate
    rw [not_loop_child hstate] at hchild
    cases hchild
  cases act with
  | dispatch | poll | cancel | aggregate => cases hr
  | create created =>
    obtain ⟨n, _, _, hf, _⟩ := h r hr
    exact hfirst hf.adapter_state
  | retry completed created =>
    obtain ⟨env, user_id, rfl⟩ := h
    obtain ⟨old, -, n, -, rfl⟩ := (mem_retry_rows w.table.attempt_nodup).mp hr
    exact hfirst rfl
  | expand parent created =>
    obtain ⟨hexpandable, -, hrows⟩ := h
    obtain ⟨e, he, row, hact, hkey⟩ := hexpandable.dispatched
    obtain ⟨⟨n, hn, hstart, hend, hbelongs⟩, -⟩ := hlog e he row hact
    obtain ⟨i, hi⟩ := (hrows r hr).node_key
    rw [hi, ← hkey]
    exact ⟨n, hn, hstart, hend, .child i hbelongs⟩
  | skip y ctx created =>
    obtain ⟨_, _, env, user_id, rfl⟩ := h
    obtain ⟨n, _, hrow⟩ := skip_inserts_spec hr
    rw [(firstRow_of_skipped hrow).2.2.1] at hpending
    cases hpending

/-- A row that may be dispatched belongs to a business node. -/
theorem noted_dispatch {x : Execution} {w : World} {row : NodeExec}
    (h : Noted ver x w.log w.rows (.dispatch row)) (hrows : ChildrenOfBusiness ver.dag w.rows)
    (hlog : ∀ e ∈ w.log, CreatesForReason ver e) (before : List NodeExec) :
    DispatchesBusiness ver.dag { act := .dispatch row, before } := by
  rintro row' ⟨⟩
  obtain ⟨r, hr, hid, hstate, hpending, hcand⟩ := h
  have hflag : is_loop_child row = is_loop_child r := by simp only [is_loop_child, hstate]
  rw [hid.node_key]
  cases hcand with
  | child hchild =>
    refine ⟨hrows r hr hpending hchild, fun hnot => ?_⟩
    rw [hflag, hchild] at hnot
    cases hnot
  | created created before' hentry hrow _ _ =>
    obtain ⟨c, hc, heq⟩ := hrow
    obtain ⟨_, n, hn, _, hf, hcontrol⟩ := hlog _ hentry created rfl c hc
    have hkey : r.node_key = n.node_key := by rw [heq, ← hf.node_key]
    have hstatus : c.status = .PENDING := by rw [← hpending, heq]
    have hbusiness : n.node_type ≠ "start" ∧ n.node_type ≠ "end" := by
      constructor
      · intro htype
        simp [hcontrol (Or.inl htype)] at hstatus
      · intro htype
        simp [hcontrol (Or.inr htype)] at hstatus
    rw [hkey]
    exact ⟨⟨n, hn, hbusiness.1, hbusiness.2, .node⟩,
      fun _ => ⟨n, hn, hbusiness.1, hbusiness.2, rfl⟩⟩

/-- Rows of no other nodes are dispatched. -/
theorem dispatches_business (hw : Reachable ver w) : ∀ e ∈ w.log, DispatchesBusiness ver.dag e := by
  have hjoint := history.Moves.joint (T := fun s : Db => ChildrenOfBusiness ver.dag s.2.rows)
    (P := fun e => CreatesForReason ver e ∧ DispatchesBusiness ver.dag e) ?_ (reachable_moves hw)
    (by simp [ChildrenOfBusiness, recorded, World.initial, Table.empty]) (by simp [recorded,
      World.initial])
  · exact fun e he => (hjoint.2 e he).2
  intro w w' hstep hrows hlog
  have hcreates := fun e he => (hlog e he).1
  have hdispatches := fun e he => (hlog e he).2
  have hnote : ∀ x act, Noted ver x w.log w.rows act →
      ∀ e ∈ w.log ++ [{ act, before := w.rows }], CreatesForReason ver e ∧
        DispatchesBusiness ver.dag e := by
    intro x act hnoted e he
    obtain he | he := List.mem_append.mp he
    · exact hlog e he
    obtain rfl := List.mem_singleton.mp he
    constructor
    · rintro created rfl c hc
      exact ⟨x, hnoted c hc⟩
    · cases act with
      | dispatch row => exact noted_dispatch hnoted hrows hcreates w.rows
      | _ =>
        intro row hrow
        cases hrow
  cases hstep with
  | begin | finish => exact ⟨hrows, hlog⟩
  | note act hx h => exact ⟨hrows, hnote _ act h⟩
  | insert act hx h hins =>
    rename_i x table created
    refine ⟨fun r hr hpending hchild => ?_, hnote _ act h⟩
    have hc := Table.bulk_create_created hins
    obtain hr | hr := (hc.mem r).mp hr
    · obtain ⟨r₀, hr₀, heq⟩ := hc.row_of_mem r hr
      rw [heq] at hpending hchild ⊢
      have hbusiness : OfBusiness ver.dag r₀.node_key :=
        inserted_child h hdispatches hr₀ hpending hchild
      exact hbusiness
    · exact hrows r hr hpending hchild
  | save old row now fields hold hpk h =>
    refine ⟨fun r hr hpending hchild => ?_, hlog⟩
    obtain ⟨hr, _⟩ | rfl := (w.table.mem_save hold hpk r).mp hr
    · exact hrows r hr hpending hchild
    · exact absurd hpending h.status_ne_pending

/-- The engine reads the definition that was validated: nodes and edges in order. -/
structure Reads (raw : WorkflowDAG) (dag : Dag) : Prop where
  nodes : List.Forall₂ (fun n m => getJson n "node_key" = .str m.node_key ∧
    getJson n "node_type" = .str m.node_type)
    raw.nodes dag.nodes
  edges : List.Forall₂ (fun e f => getJson e "from_key" = .str f.from_key ∧
    getJson e "to_key" = .str f.to_key)
    raw.edges dag.edges

/-- The start node reaches the node. -/
def FromStart (raw : WorkflowDAG) (k : String) : Prop :=
  ∃ start ∈ keys_of_type raw "start", Reaches (graph raw) start k

/-- Every dispatched row, and the loop above it, belongs to a node the start reaches. -/
def OnlyReachable (raw : WorkflowDAG) (log : List Entry) : Prop :=
  ∀ e ∈ log, ∀ row, e.act = .dispatch row → ∃ k ∈ node_keys raw, BelongsTo k row.node_key ∧
    (is_loop_child row = false → k = row.node_key) ∧ FromStart raw k

/-- No node other than start and end is left without edges. -/
def NoDrafts (raw : WorkflowDAG) : Prop :=
  ∀ n ∈ raw.nodes, is_type n "start" = false → is_type n "end" = false →
  ∀ k, getJson n "node_key" = .str k → Connected raw k

theorem exists_of_forall₂ {α β : Type} {R : α → β → Prop} {xs : List α} {ys : List β}
    (h : List.Forall₂ R xs ys) :
    (∀ x ∈ xs, ∃ y ∈ ys, R x y) ∧ ∀ y ∈ ys, ∃ x ∈ xs, R x y := by
  induction h with
  | nil => simp
  | cons hhead _ ih =>
    constructor
    · intro x hx
      obtain rfl | hx := List.mem_cons.mp hx
      · exact ⟨_, List.mem_cons_self, hhead⟩
      · obtain ⟨y, hy, hxy⟩ := ih.1 x hx
        exact ⟨y, List.mem_cons_of_mem _ hy, hxy⟩
    · intro y hy
      obtain rfl | hy := List.mem_cons.mp hy
      · exact ⟨_, List.mem_cons_self, hhead⟩
      · obtain ⟨x, hx, hxy⟩ := ih.2 y hy
        exact ⟨x, List.mem_cons_of_mem _ hx, hxy⟩

section reads

variable {raw : WorkflowDAG} {dag : Dag} (hreads : Reads raw dag) {m : Node} (hm : m ∈ dag.nodes)

include hreads hm

/-- A node that is read was drawn. -/
theorem Reads.node : ∃ n ∈ raw.nodes, getJson n "node_key" = .str m.node_key ∧
  getJson n "node_type" = .str m.node_type :=
  (exists_of_forall₂ hreads.nodes).2 m hm

theorem Reads.mem_node_keys : m.node_key ∈ node_keys raw := by
  obtain ⟨n, hn, hkey, -⟩ := hreads.node hm
  exact List.mem_filterMap.mpr ⟨n, hn, str?_eq_some_iff.mpr hkey⟩

/-- The key of a business node is not the key of a start node. -/
theorem Reads.not_start (hstart : m.node_type ≠ "start") :
    m.node_key ∉ keys_of_type raw "start" := by
  intro hmem
  obtain ⟨n, hn, hkey⟩ := List.mem_filterMap.mp hmem
  obtain ⟨hn, htype⟩ := List.mem_filter.mp hn
  obtain ⟨m', hm', hkey', htype'⟩ := (exists_of_forall₂ hreads.nodes).1 n hn
  have hsame : m'.node_key = m.node_key := by
    rw [str?_eq_some_iff, hkey'] at hkey
    simpa using hkey
  obtain rfl := List.inj_on_of_nodup_map dag.keys_nodup hm' hm hsame
  rw [is_type, isText_iff, htype'] at htype
  exact hstart (by simpa using htype)

end reads

section run

variable {py : Reprs} {registry : UnitAdapterRegistry} {raw : WorkflowDAG} {strict : Bool}
  {r : DAGValidationResult}
variable (hvalid : validate_dag py registry raw strict = .ok r) (hok : r.ok = true)

include hvalid hok

/-- In an accepted DAG the start reaches the connected business nodes and no others. -/
theorem fromStart_iff_connected {k : String} (hk : k ∈ node_keys raw)
    (hstart : k ∉ keys_of_type raw "start") :
    FromStart raw k ↔ Connected raw k := by
  obtain ⟨v, accepted⟩ := accepted_of_ok hvalid hok
  constructor
  · rintro ⟨start, hmem, hreach⟩
    obtain rfl | ⟨b, -, hlink⟩ := Relation.ReflTransGen.cases_tail hreach
    · exact absurd hmem hstart
    · exact ⟨b, .inr hlink⟩
  · exact accepted.from_start hk

/-- In a run of an accepted DAG a dispatched node is reachable exactly if it is connected, and
every dispatched row belongs to a reachable node if no node is left without edges. -/
theorem only_reachable_dispatched (hreads : Reads raw ver.dag) (hw : Reachable ver w) :
    (∀ e ∈ w.log, ∀ row, e.act = .dispatch row → is_loop_child row = false →
      (FromStart raw row.node_key ↔ Connected raw row.node_key)) ∧
    (NoDrafts raw → OnlyReachable raw w.log) := by
  constructor
  · intro e he row hact hchild
    obtain ⟨n, hn, hstart, -, hkey⟩ := (dispatches_business hw e he row hact).2 hchild
    rw [← hkey]
    exact fromStart_iff_connected hvalid hok (hreads.mem_node_keys hn) (hreads.not_start hn hstart)
  · intro hdrafts e he row hact
    have hreach : ∀ n ∈ ver.dag.nodes, n.node_type ≠ "start" → n.node_type ≠ "end" →
        FromStart raw n.node_key := by
      intro n hn hstart hend
      rw [fromStart_iff_connected hvalid hok (hreads.mem_node_keys hn) (hreads.not_start hn hstart)]
      obtain ⟨n', hn', hkey, htype⟩ := hreads.node hn
      exact hdrafts n' hn' (by simp [is_type, htype, isText, hstart]) (by simp [is_type, htype,
        isText, hend]) _ hkey
    obtain ⟨⟨n, hn, hstart, hend, hbelongs⟩, hown⟩ := dispatches_business hw e he row hact
    by_cases hchild : is_loop_child row = true
    · refine ⟨n.node_key, hreads.mem_node_keys hn, hbelongs, fun hnot => ?_,
        hreach n hn hstart hend⟩
      rw [hchild] at hnot
      cases hnot
    · obtain ⟨m, hm, hstart', hend', hkey⟩ := hown (by simpa using hchild)
      rw [← hkey]
      exact ⟨m.node_key, hreads.mem_node_keys hm, .node, fun _ => rfl, hreach m hm hstart' hend'⟩

end run

/-- A definition as the frontend sends it. -/
def drawn (dag : Dag) : WorkflowDAG where
  nodes := dag.nodes.map fun n => drawn_node n.node_key n.node_type
  edges := dag.edges.map fun e => drawn_edge e.from_key e.to_key

/-- A drawn DAG is read as itself. -/
theorem reads_drawn (dag : Dag) : Reads (drawn dag) dag := by
  constructor
  · rw [drawn, List.forall₂_map_left_iff, List.forall₂_same]
    exact fun n _ => ⟨rfl, rfl⟩
  · rw [drawn, List.forall₂_map_left_iff, List.forall₂_same]
    exact fun e _ => ⟨rfl, rfl⟩

/-- A node between start and end. -/
def buildVersion : DagVersion where
  dag :=
    { nodes := [{ node_key := "start", node_type := "start" },
      { node_key := "build", node_type := "noop" },
        { node_key := "end", node_type := "end" }]
      edges := [{ from_key := "start", to_key := "build" },
        { from_key := "build", to_key := "end" }]
      keys_nodup := by decide
      edges_closed := by decide }
  workflow := { pk := 1, name := "build" }

theorem buildVersion_valid :
    validate_dag .short noop_registry (drawn buildVersion.dag) =
      .ok { topological_order := ["start", "build", "end"] } := by
  decide +kernel

/-- The only dispatched row is reachable. -/
theorem build_dispatched_reachable :
    OnlyReachable (drawn buildVersion.dag)
      (started buildVersion (scripted 0 (fun _ _ => running) fun _ _ => running) []).log := by
  have hrun := only_reachable_dispatched buildVersion_valid rfl (reads_drawn buildVersion.dag)
    (started_reachable buildVersion (scripted 0 (fun _ _ => running) fun _ _ => running) [] rfl)
  apply hrun.2
  intro n hn hstart hend k hk
  have hkey : k = "build" := by
    simp only [drawn, buildVersion, List.map_cons, List.map_nil, List.mem_cons, List.not_mem_nil,
      or_false] at hn
    obtain rfl | rfl | rfl := hn
    · exact absurd hstart (by decide)
    · simpa [drawn_node, getJson, Dict.get?] using hk.symm
    · exact absurd hend (by decide)
  subst hkey
  exact ⟨"end", .inl (by simp [Link, graph, drawn, buildVersion, drawn_edge, getJson, Dict.get?])⟩

/-- The same beside a node that was never connected. -/
def draftVersion : DagVersion where
  dag :=
    { nodes := [{ node_key := "start", node_type := "start" },
      { node_key := "build", node_type := "noop" },
        { node_key := "draft", node_type := "noop" }, { node_key := "end", node_type := "end" }]
      edges := [{ from_key := "start", to_key := "build" },
        { from_key := "build", to_key := "end" }]
      keys_nodup := by decide
      edges_closed := by decide }
  workflow := { pk := 1, name := "draft" }

/-- The DAG is accepted, and the trigger hands the leftover node to its adapter. -/
theorem draft_dispatched :
    (validate_dag .short noop_registry (drawn draftVersion.dag)).toOption.map (·.ok) = some true ∧
      ∃ w, Reachable draftVersion w ∧ ¬OnlyReachable (drawn draftVersion.dag) w.log := by
  refine ⟨by decide +kernel, started draftVersion (scripted 0 (fun _ _ => running) fun _ _ => running) [],
    started_reachable _ _ _ rfl, fun hall => ?_⟩
  have hdispatched : ∃ e ∈ (started draftVersion
    (scripted 0 (fun _ _ => running) fun _ _ => running) []).log,
      ∃ row ∈ e.act.dispatched?, row.node_key = "draft" ∧ is_loop_child row = false := by
    decide +kernel
  obtain ⟨e, he, row, hrow, hkey, hchild⟩ := hdispatched
  obtain ⟨k, -, -, hown, start, hstart, hreach⟩ := hall e he row (by simpa using hrow)
  rw [hown hchild, hkey] at hreach
  have hgraph : graph (drawn draftVersion.dag) = [("start", "build"), ("build", "end")] := rfl
  -- nothing leads to the leftover node, and it is not the start
  obtain rfl | ⟨b, -, hlink⟩ := Relation.ReflTransGen.cases_tail hreach
  · exact absurd hstart (by decide)
  · simp [Link, hgraph] at hlink

end taurus.engine.runner
