import Taurus.Engine.Executor.Edges

namespace taurus.engine.executor

open taurus.lib taurus.python

/-- `key_to_node`: of several nodes with one key the last one counts. -/
def key_to_node (nodes : List Node) : Dict String Node :=
  nodes.foldl (fun d n => Dict.set d n.node_key n) []

/-- The view of each key. -/
def node_views (nodes : List Node) (rows_of : String → List NodeExec) (exec_fs : String) :
    Dict String NodeStatusView :=
  (key_to_node nodes).map fun kn => (kn.1, node_view rows_of exec_fs kn.2)

/-- The status of a source; none for a key without a node. -/
def view_status (views : Dict String NodeStatusView) (key : String) : Option Status :=
  (Dict.get? views key).map (·.status)

def view_strategy (views : Dict String NodeStatusView) (key : String) : Option String :=
  (Dict.get? views key).map (·.fail_strategy)

/-- `edge_raw` of the runnable computation on any nodes and edges: a source need not exist. -/
def graph_edge_raw (views : Dict String NodeStatusView) (ctx : EdgeCtx) : Edge → CondVal :=
  edge_raw (view_status views) (view_strategy views) (merge_statuses (views.map (·.2)) ctx)

/-- `edge_bool` of the runnable computation on any nodes and edges. -/
def graph_edge_bool (views : Dict String NodeStatusView) (edges : List Edge) (ctx : EdgeCtx) :
    Edge → Bool :=
  edge_bool (view_status views) (graph_edge_raw views ctx) edges

/-- `src_out`: the places of the edges out of each source. -/
def src_out (edges : List Edge) : Dict String (List Nat) :=
  Dict.group (fun p => p.1.from_key) (fun p => p.2) edges.zipIdx

/-- `has_non_else_true`: one of these places holds a true value that is no else. -/
def has_non_else_true (edge_raw : List CondVal) (idxs : List Nat) : Bool :=
  idxs.any fun i => (edge_raw[i]?).any fun r => !r.isElse && r.truthy

/-- The value the second pass writes at one place of a source. -/
def place_bool (src_cancel other : Bool) : CondVal → Bool
  | .els => !other && !src_cancel
  | r => r.truthy

/-- `edge_bool` as the code fills it, one source after the other. -/
def edge_bools (src_cancel : String → Bool) (edge_raw : List CondVal)
    (edges : List Edge) : List Bool :=
  (src_out edges).foldl (fun bools src =>
    let other := has_non_else_true edge_raw src.2
    src.2.foldl (fun bools i =>
      bools.set i ((edge_raw[i]?).any (place_bool (src_cancel src.1) other))) bools)
    (List.replicate edges.length false)

/-- With different keys no node is lost. -/
theorem key_to_node_of_nodup {nodes : List Node} (h : (nodes.map (·.node_key)).Nodup) :
    key_to_node nodes = nodes.map fun n => (n.node_key, n) := by
  suffices happend : ∀ (rest : List Node) (d : Dict String Node),
    (d.map (·.1) ++ rest.map (·.node_key)).Nodup →
      rest.foldl (fun d n => Dict.set d n.node_key n) d = d ++ rest.map fun n => (n.node_key, n) by
    rw [key_to_node, happend nodes [] (by simpa using h), List.nil_append]
  intro rest
  induction rest with
  | nil => simp
  | cons n rest ih =>
    intro d hnodup
    have hnew : Dict.get? d n.node_key = none := by
      rw [Dict.get?_eq_none_iff]
      intro hmem
      exact (List.nodup_append.mp hnodup).2.2 _ hmem _ List.mem_cons_self rfl
    rw [List.foldl_cons, Dict.set_of_get?_eq_none n hnew, ih]
    · simp
    · simpa using hnodup

/-- Nodes stand under their own keys. -/
theorem key_of_mem {nodes : List Node} {kn : String × Node} (h : kn ∈ key_to_node nodes) :
    kn.2.node_key = kn.1 := by
  suffices hfold : ∀ (rest : List Node) (d : Dict String Node), (∀ kn ∈ d, kn.2.node_key = kn.1) →
      ∀ kn ∈ rest.foldl (fun d n => Dict.set d n.node_key n) d, kn.2.node_key = kn.1 by
    exact hfold nodes [] (by simp) kn h
  intro rest
  induction rest with
  | nil => exact fun d hd => hd
  | cons n rest ih =>
    intro d hd
    apply ih
    intro kn hkn
    obtain rfl | hkn := Dict.mem_of_mem_set hkn
    · rfl
    · exact hd kn hkn

/-- The status of a source in a state: what the context says of it, else what its rows show. -/
def state_status (views : Dict String NodeStatusView) (ctx : EdgeCtx) (key : String) :
    Option Status :=
  (Dict.get? ctx.node_statuses key).or (view_status views key)

/-- It is the status that conditions see. -/
theorem get?_merged (nodes : List Node) (rows_of : String → List NodeExec) (exec_fs : String)
    (ctx : EdgeCtx) (key : String) :
    Dict.get? (merge_statuses
      ((node_views nodes rows_of exec_fs).map (·.2)) ctx).node_statuses key =
      state_status (node_views nodes rows_of exec_fs) ctx key := by
  have hkeys : ∀ kv ∈ node_views nodes rows_of exec_fs, kv.2.node_key = kv.1 := by
    intro kv hkv
    obtain ⟨kn, hkn, rfl⟩ := List.mem_map.mp hkv
    exact (node_view_node_key rows_of exec_fs kn.2).trans (key_of_mem hkn)
  rw [get?_merge_statuses, state_status, view_status]
  congr 1
  generalize node_views nodes rows_of exec_fs = views at hkeys
  induction views with
  | nil => rfl
  | cons kv views ih =>
    have hkey := hkeys kv List.mem_cons_self
    have hrest := ih fun kv' hkv' => hkeys kv' (List.mem_cons_of_mem _ hkv')
    rw [List.map_cons, List.find?_cons, hkey, Dict.get?_cons]
    by_cases hk : kv.1 = key
    · simp [hk]
    · rw [if_neg hk, ← hrest]
      simp only [hk, decide_false]

/-- On a stored DAG every node has its view. -/
theorem node_views_dag (dag : Dag) (rows_of : String → List NodeExec) (exec_fs : String) :
    node_views dag.nodes rows_of exec_fs =
      dag.nodes.map fun n => (n.node_key, node_view rows_of exec_fs n) := by
  rw [node_views, key_to_node_of_nodup dag.keys_nodup, List.map_map]
  rfl

/-- It is the one looked up by key. -/
theorem get?_node_views_dag (dag : Dag) (rows_of : String → List NodeExec) (exec_fs key : String) :
    Dict.get? (node_views dag.nodes rows_of exec_fs) key = view? dag rows_of exec_fs key := by
  rw [node_views_dag, view?, Dag.node?]
  induction dag.nodes with
  | nil => rfl
  | cons n rest ih =>
    rw [List.map_cons, Dict.get?_cons, List.find?_cons]
    by_cases hkey : n.node_key = key
    · simp [hkey]
    · simp [hkey, ih]

/-- On a stored DAG these are the edges that fire in the runnable computation. -/
theorem graph_edge_bool_dag (dag : Dag) (rows_of : String → List NodeExec) (exec_fs : String)
    (ctx : EdgeCtx) :
    graph_edge_bool (node_views dag.nodes rows_of exec_fs) dag.edges ctx =
      next_fires dag rows_of exec_fs ctx := by
  have hstatus : view_status (node_views dag.nodes rows_of exec_fs) =
      source_status dag rows_of exec_fs := by
    funext key
    rw [view_status, get?_node_views_dag, source_status]
  have hstrategy : view_strategy (node_views dag.nodes rows_of exec_fs) =
      source_strategy dag rows_of exec_fs := by
    funext key
    rw [view_strategy, get?_node_views_dag, source_strategy]
  have hctx : merge_statuses ((node_views dag.nodes rows_of exec_fs).map (·.2)) ctx =
      runnable_ctx dag rows_of exec_fs ctx := by
    rw [node_views_dag, List.map_map, runnable_ctx]
    rfl
  funext e
  rw [graph_edge_bool, graph_edge_raw, hstatus, hstrategy, hctx]
  rfl

/-- Assignments that write a function of the place. -/
theorem getElem?_foldl_set {α : Type} {f : Nat → α} (places : List (Nat × α)) (xs : List α)
    (hf : ∀ p ∈ places, p.2 = f p.1) (i : Nat) :
    (places.foldl (fun xs p => xs.set p.1 p.2) xs)[i]? =
      if i ∈ places.map (·.1) then (xs[i]?).map fun _ => f i else xs[i]? := by
  induction places generalizing xs with
  | nil => rfl
  | cons p rest ih =>
    rw [List.foldl_cons, ih _ fun q hq => hf q (List.mem_cons_of_mem _ hq), List.getElem?_set,
      hf p List.mem_cons_self]
    by_cases hp : p.1 = i
    · by_cases hlt : p.1 < xs.length <;> simp [← hp, hlt]
    · have hmem : i ∈ (p :: rest).map (·.1) ↔ i ∈ rest.map (·.1) :=
        List.mem_cons.trans (or_iff_right (Ne.symm hp))
      simp only [if_neg hp, hmem]

section places

variable {edges : List Edge} {src : String × List Nat}

/-- The places under a source are those of its edges. -/
theorem mem_src_out (hsrc : src ∈ src_out edges) (i : Nat) :
    i ∈ src.2 ↔ ∃ e, edges[i]? = some e ∧ e.from_key = src.1 := by
  rw [Dict.mem_group hsrc]
  simp only [List.mem_map, List.mem_filter, decide_eq_true_eq, Prod.exists,
    List.mk_mem_zipIdx_iff_getElem?]
  constructor
  · rintro ⟨e, _, ⟨he, hfrom⟩, rfl⟩
    exact ⟨e, he, hfrom⟩
  · rintro ⟨e, he, hfrom⟩
    exact ⟨e, i, ⟨he, hfrom⟩, rfl⟩

/-- The places of a source hold a true value that is no else if one of its edges does. -/
theorem has_non_else_true_iff (hsrc : src ∈ src_out edges) (raw : Edge → CondVal) :
    has_non_else_true (edges.map raw) src.2 = true ↔
      ∃ e ∈ edges, e.from_key = src.1 ∧ (raw e).isElse = false ∧ (raw e).truthy = true := by
  rw [has_non_else_true, List.any_eq_true]
  constructor
  · rintro ⟨i, hi, htrue⟩
    obtain ⟨e, he, hfrom⟩ := (mem_src_out hsrc i).mp hi
    rw [List.getElem?_map, he] at htrue
    exact ⟨e, List.mem_of_getElem? he, hfrom, by simpa using htrue⟩
  · rintro ⟨e, hmem, hfrom, htrue⟩
    obtain ⟨i, he⟩ := List.mem_iff_getElem?.mp hmem
    refine ⟨i, (mem_src_out hsrc i).mpr ⟨e, he, hfrom⟩, ?_⟩
    rw [List.getElem?_map, he]
    simpa using htrue

/-- What is written at a place of a source is whether its edge fires. -/
theorem place_bool_eq {status_of : String → Option Status} (hsrc : src ∈ src_out edges)
    (raw : Edge → CondVal) {e : Edge} (hfrom : e.from_key = src.1) :
    place_bool (status_of src.1 = some .CANCELLED)
      (has_non_else_true (edges.map raw) src.2) (raw e) =
      edge_bool status_of raw edges e := by
  have hother : has_non_else_true (edges.map raw) src.2 =
      edges.any fun e' => e'.from_key = e.from_key ∧ !(raw e').isElse ∧ (raw e').truthy := by
    rw [Bool.eq_iff_iff, has_non_else_true_iff hsrc, List.any_eq_true]
    simp [hfrom]
  rw [hother, edge_bool, ← hfrom]
  cases raw e <;> rfl

end places

/-- The two passes by place give every edge the value `edge_bool`. -/
theorem edge_bools_eq (status_of : String → Option Status) (raw : Edge → CondVal)
    (edges : List Edge) :
    edge_bools (fun src => status_of src = some .CANCELLED) (edges.map raw) edges =
      edges.map (edge_bool status_of raw edges) := by
  let fires (i : Nat) : Bool := (edges[i]?).any (edge_bool status_of raw edges)
  let places := (src_out edges).flatMap fun src => src.2.map fun i =>
    (i, ((edges.map raw)[i]?).any
      (place_bool (status_of src.1 = some .CANCELLED) (has_non_else_true (edges.map raw) src.2)))
  have hflat : edge_bools (fun src => status_of src = some .CANCELLED) (edges.map raw) edges =
      places.foldl (fun bools p => bools.set p.1 p.2) (List.replicate edges.length false) := by
    rw [List.foldl_flatMap]
    simp only [List.foldl_map]
    rfl
  have hfires : ∀ p ∈ places, p.2 = fires p.1 := by
    intro p hp
    obtain ⟨src, hsrc, hp⟩ := List.mem_flatMap.mp hp
    obtain ⟨i, hi, rfl⟩ := List.mem_map.mp hp
    obtain ⟨e, he, hfrom⟩ := (mem_src_out hsrc i).mp hi
    simp only [fires, List.getElem?_map, he, Option.map_some, Option.any_some]
    exact place_bool_eq hsrc raw hfrom
  have hall : ∀ i < edges.length, i ∈ places.map (·.1) := by
    intro i hi
    have he : edges[i]? = some edges[i] := List.getElem?_eq_getElem hi
    have hsrc : (edges[i].from_key, _) ∈ src_out edges :=
      Dict.exists_mem_group (List.mk_mem_zipIdx_iff_getElem?.mpr he)
    refine List.mem_map.mpr ⟨(i, _), List.mem_flatMap.mpr
      ⟨_, hsrc, List.mem_map.mpr ⟨i, ?_, rfl⟩⟩, rfl⟩
    exact (mem_src_out hsrc i).mpr ⟨_, he, rfl⟩
  apply List.ext_getElem?
  intro i
  rw [hflat, getElem?_foldl_set places _ hfires, List.getElem?_map, List.getElem?_replicate]
  by_cases hi : i < edges.length
  · simp [hi, hall i hi, fires]
  · simp [hi]

/-- A node is selected by what the arrays hold at the places of its incoming edges. -/
theorem mem_runnables_iff_places (dag : Dag) (rows_of : String → List NodeExec) (ctx : EdgeCtx)
    (fs key : String) :
    let exec_fs := if fs = "" then "fail_fast" else fs
    let views := node_views dag.nodes rows_of exec_fs
    let bools := edge_bools (fun src => view_status views src = some .CANCELLED)
      (dag.edges.map (graph_edge_raw views ctx)) dag.edges
    key ∈ (compute_next_runnables dag rows_of ctx fs).1 ↔
      Runnable dag rows_of exec_fs key ∧ (dag.incoming key = [] ∨
        ∃ (i : Nat) (e : Edge), dag.edges[i]? = some e ∧ e.to_key = key ∧
        bools[i]? = some true) := by
  intro exec_fs views bools
  have hbools : ∀ (i : Nat) (e : Edge), dag.edges[i]? = some e →
      bools[i]? = some (next_fires dag rows_of exec_fs ctx e) := by
    intro i e he
    rw [show bools = _ from edge_bools_eq (view_status views) _ dag.edges, List.getElem?_map, he,
      ← graph_edge_bool_dag]
    rfl
  rw [mem_runnables_iff]
  refine and_congr_right fun _ => or_congr_right ⟨?_, ?_⟩
  · rintro ⟨e, he, hfires⟩
    obtain ⟨hmem, hto⟩ := List.mem_filter.mp he
    obtain ⟨i, hi⟩ := List.mem_iff_getElem?.mp hmem
    exact ⟨i, e, hi, of_decide_eq_true hto, by rw [hbools i e hi, hfires]⟩
  · rintro ⟨i, e, hi, hto, htrue⟩
    rw [hbools i e hi] at htrue
    exact ⟨e, List.mem_filter.mpr ⟨List.mem_of_getElem? hi, decide_eq_true hto⟩,
      Option.some.inj htrue⟩

end taurus.engine.executor
