import Taurus.Engine.DagValidator.Verdict
import Taurus.Engine.Properties.Connected
import Taurus.Engine.Steps.Dispatching

namespace taurus.engine.runner

open taurus.lib taurus.lib.Prog taurus.python taurus.engine.executor taurus.engine.dag_validator

/-- The rows that were handed to `bulk_create` for start nodes and runnable nodes. -/
def created_rows (log : List Entry) : List NodeExec :=
  log.flatMap fun e => match e.act with
    | .create rows => rows
    | _ => []

/-- The hosts of the rows of a node; the placeholder row has the sentinel. -/
def row_hosts (n : Node) : List String :=
  match expand_hosts n with
  | [] => [NO_HOST_SENTINEL]
  | hosts => hosts

/-- The key columns of the first rows of a node. -/
def first_keys (n : Node) : List (String × String × Nat) :=
  (row_hosts n).map fun h => (n.node_key, h, 1)

/-- The nodes that are runnable when nothing has been created. -/
def initial_nodes (x : Execution) (ver : DagVersion) : List Node :=
  (compute_next_runnables ver.dag (fun _ => [])
    (_build_edge_ctx x ver) x.fail_strategy).1.filterMap ver.dag.node?

/-- The end nodes that are runnable in a world. -/
def runnable_ends (x : Execution) (ver : DagVersion) (w : World) : List Node :=
  ((compute_next_runnables ver.dag (node_rows w.rows) (refresh_ctx w.rows (_build_edge_ctx x ver))
    x.fail_strategy).1.filterMap ver.dag.node?).filter (·.node_type = "end")

/-- The rows created before the first dispatch. -/
def first_rows (env : Env) (x : Execution) (ver : DagVersion) (user_id : Option Int) :
    List NodeExec :=
  start_rows env x ver.dag user_id ++ rows_for_keys env x ver.dag user_id (fun _ => [])
    (compute_next_runnables ver.dag (fun _ => []) (_build_edge_ctx x ver) x.fail_strategy).1

/-- The part of `start_execution` up to the first dispatch. -/
def first_wave (env : Env) (x : Execution) (ver : DagVersion) (user_id : Option Int) :
    RunnerM Unit := do
  let inserts ← create_rows (first_rows env x ver user_id)
  let _ ← _dispatch_pending env x ver.dag inserts
    (compute_next_runnables ver.dag (fun _ => []) (_build_edge_ctx x ver) x.fail_strategy).2 user_id
  pure ()

/-- The world in which the first rows of a new execution are created. -/
def executing (x : Execution) : World := { World.initial with execution := some x }

/-- No created node lists a host twice, and no end node that is runnable at the beginning
is runnable again after the first wave. -/
def ReachedOnce (env : Env) (x : Execution) (ver : DagVersion) (user_id : Option Int) : Prop :=
  (∀ n ∈ ver.dag.nodes, n.node_type = "start" ∨ n ∈ initial_nodes x ver → (expand_hosts n).Nodup) ∧
    ∀ w, first_wave env x ver user_id (executing x) = (.ok (), w) → ∀ n ∈ runnable_ends x ver w,
      (expand_hosts n).Nodup ∧ n ∉ initial_nodes x ver

/-- The rows of a node differ exactly if its hosts do. -/
theorem row_hosts_nodup_iff (n : Node) : (row_hosts n).Nodup ↔ (expand_hosts n).Nodup := by
  unfold row_hosts
  split
  · next h => simp [h]
  · rfl

theorem first_keys_nodup_iff (n : Node) : (first_keys n).Nodup ↔ (expand_hosts n).Nodup := by
  rw [first_keys, List.nodup_map_iff, row_hosts_nodup_iff]
  intro a b hab
  simpa using hab

theorem node_key_of_mem_first_keys {n : Node} {k : String × String × Nat} (h : k ∈ first_keys n) :
    k.1 = n.node_key := by
  obtain ⟨host, -, rfl⟩ := List.mem_map.mp h
  rfl

theorem first_keys_ne_nil (n : Node) : first_keys n ≠ [] := by
  unfold first_keys row_hosts
  split <;> simp_all

/-- The rows of nodes with distinct keys are distinct if no node lists a host twice. -/
theorem flatMap_first_keys_nodup_iff {ns : List Node} (hkeys : (ns.map (·.node_key)).Nodup) :
    (ns.flatMap first_keys).Nodup ↔ ∀ n ∈ ns, (expand_hosts n).Nodup := by
  have hdisjoint : ns.Pairwise (Function.onFun List.Disjoint first_keys) := by
    refine (List.pairwise_map.mp hkeys).imp ?_
    intro a b hne k ha hb
    exact hne ((node_key_of_mem_first_keys ha).symm.trans (node_key_of_mem_first_keys hb))
  rw [List.nodup_flatMap, and_iff_left hdisjoint]
  simp only [first_keys_nodup_iff]

/-- The keys of prepared rows. -/
theorem prep_keys (env : Env) (x : Execution) (n : Node) (user_id : Option Int) (attempt_no : Nat) :
    (_prep_node_rows env x n user_id attempt_no).map (·.attempt_key) =
      (row_hosts n).map fun h => (n.node_key, h, attempt_no) := by
  unfold _prep_node_rows row_hosts
  cases expand_hosts n with
  | nil => rfl
  | cons hid hids => simp [NodeExec.attempt_key]

/-- The first attempt on each host. -/
theorem prep_attempt_keys (env : Env) (x : Execution) (n : Node) (user_id : Option Int) :
    (_prep_node_rows env x n user_id).map (·.attempt_key) = first_keys n :=
  prep_keys env x n user_id 1

/-- Those of the rows of a runnable node. -/
theorem runnable_attempt_keys (env : Env) (x : Execution) (n : Node) (user_id : Option Int) :
    (runnable_rows env x user_id n).map (·.attempt_key) = first_keys n := by
  rw [← prep_attempt_keys env x n user_id]
  unfold runnable_rows
  simp only
  split_ifs
  · rw [List.map_map]
    rfl
  · rfl

section

variable (env : Env) (x : Execution) (ver : DagVersion) (user_id : Option Int)

/-- The start nodes, and then the nodes that are runnable when nothing has been created. -/
def first_nodes : List Node := ver.dag.nodes.filter (·.node_type = "start") ++ initial_nodes x ver

/-- Those of the start rows. -/
theorem start_attempt_keys :
    (start_rows env x ver.dag user_id).map (·.attempt_key) =
      (ver.dag.nodes.filter (·.node_type = "start")).flatMap first_keys := by
  rw [start_rows, List.map_flatMap]
  congr 1
  funext n
  rw [← prep_attempt_keys env x n user_id, List.map_map]
  rfl

/-- Those of the rows of several nodes. -/
theorem keys_attempt_keys (keys : List String) :
    (rows_for_keys env x ver.dag user_id (fun _ => []) keys).map (·.attempt_key) =
      (keys.filterMap ver.dag.node?).flatMap first_keys := by
  induction keys with
  | nil => rfl
  | cons key rest ih =>
    unfold rows_for_keys at ih ⊢
    rw [List.flatMap_cons, List.map_append, ih]
    cases hn : ver.dag.node? key with
    | none => simp [hn]
    | some n => simp [hn, runnable_attempt_keys]

/-- Those of all first rows. -/
theorem first_attempt_keys :
    (first_rows env x ver user_id).map (·.attempt_key) =
      (first_nodes x ver).flatMap first_keys := by
  rw [first_rows, List.map_append, start_attempt_keys, keys_attempt_keys, first_nodes,
    List.flatMap_append]
  rfl

/-- The start is the first wave, the end nodes and the final status. -/
theorem start_execution_eq :
    start_execution env x ver user_id = (do
      first_wave env x ver user_id
      reach_end_nodes env x ver user_id
      let _ ← _finalize_workflow_if_done env ver.dag
      pure { execution_id := x.pk,
             initial_runnables :=
  (compute_next_runnables ver.dag (fun _ => []) (_build_edge_ctx x ver)
               x.fail_strategy).1 }) := by
  funext w
  unfold start_execution first_wave first_rows
  simp only [bind, andThen, pure, ret]
  obtain ⟨_ | inserts, w₁⟩ := create_rows _ w
  · rfl
  · simp only
    rcases _dispatch_pending env x ver.dag inserts _ user_id w₁ with ⟨_ | n, w₂⟩ <;> rfl

end

section

variable {x : Execution} {ver : DagVersion}

/-- No node is listed twice. -/
theorem nodes_nodup (dag : Dag) : dag.nodes.Nodup := .of_map _ dag.keys_nodup

/-- None is selected twice. -/
theorem runnables_nodup (dag : Dag) (rows_of : String → List NodeExec) (ctx : EdgeCtx)
    (fs : String) :
    ((compute_next_runnables dag rows_of ctx fs).1.filterMap dag.node?).Nodup := by
  apply List.Nodup.filterMap
  · intro k k' n hk hk'
    rw [← (dag.node?_eq_some_iff.mp hk).2, ← (dag.node?_eq_some_iff.mp hk').2]
  · unfold compute_next_runnables
    simp only
    refine List.Nodup.sublist (List.filter_sublist.map _) ?_
    have hkeys : (fun v : NodeStatusView => v.node_key) ∘ node_view rows_of
      (if fs = "" then "fail_fast" else fs) =
        (·.node_key) := funext fun n => node_view_node_key ..
    rw [List.map_map, hkeys]
    exact dag.keys_nodup

/-- Selected nodes are nodes of the DAG. -/
theorem mem_nodes_of_runnable {rows_of : String → List NodeExec} {ctx : EdgeCtx}
    {fs : String} {n : Node} (h : n ∈
      (compute_next_runnables ver.dag rows_of ctx fs).1.filterMap ver.dag.node?) :
    n ∈ ver.dag.nodes ∧ n.node_type ≠ "start" := by
  obtain ⟨key, hkey, hn⟩ := List.mem_filterMap.mp h
  obtain ⟨m, hm, hstart, -⟩ := (runnable_of_mem hkey).node
  obtain rfl := Option.some.inj (hn.symm.trans hm)
  exact ⟨(ver.dag.node?_eq_some_iff.mp hn).1, hstart⟩

theorem keys_nodup_of_nodup {dag : Dag} {ns : List Node} (hns : ns.Nodup)
    (hmem : ∀ n ∈ ns, n ∈ dag.nodes) :
    (ns.map (·.node_key)).Nodup :=
  hns.map_on fun a ha b hb heq =>
    List.inj_on_of_nodup_map dag.keys_nodup (hmem a ha) (hmem b hb) heq

theorem first_nodes_mem : ∀ n ∈ first_nodes x ver, n ∈ ver.dag.nodes := by
  intro n hn
  obtain hn | hn := List.mem_append.mp hn
  · exact List.mem_of_mem_filter hn
  · exact (mem_nodes_of_runnable hn).1

/-- No node has its first rows twice. -/
theorem first_nodes_nodup : (first_nodes x ver).Nodup := by
  refine List.nodup_append.mpr ⟨(nodes_nodup ver.dag).filter _, runnables_nodup .., ?_⟩
  intro a ha b hb heq
  have hstart := (List.mem_filter.mp ha).2
  exact (mem_nodes_of_runnable hb).2 (by simpa [heq] using hstart)

/-- They are the start nodes and those selected first. -/
theorem mem_first_nodes_iff {n : Node} :
    n ∈ first_nodes x ver ↔ n ∈ ver.dag.nodes ∧
      (n.node_type = "start" ∨ n ∈ initial_nodes x ver) := by
  simp only [first_nodes, List.mem_append, List.mem_filter, decide_eq_true_eq, and_or_left]
  exact or_congr_right (and_iff_right_of_imp fun h => (mem_nodes_of_runnable h).1).symm

/-- The first rows are distinct if and only if no first node lists a host twice. -/
theorem first_rows_nodup_iff (env : Env) (user_id : Option Int) :
    ((first_rows env x ver user_id).map (·.attempt_key)).Nodup ↔
      ∀ n ∈ ver.dag.nodes, n.node_type = "start" ∨ n ∈ initial_nodes x ver →
        (expand_hosts n).Nodup := by
  rw [first_attempt_keys, flatMap_first_keys_nodup_iff
    (keys_nodup_of_nodup first_nodes_nodup first_nodes_mem)]
  simp only [mem_first_nodes_iff, and_imp]

/-- The created rows after one more act. -/
theorem created_rows_note (w : World) (act : Act) :
    created_rows (w.note act).log = created_rows w.log ++ match act with
      | .create rows => rows
      | _ => [] := by
  simp [created_rows, World.note, List.flatMap_append]

/-- What was created is known, and the rows of `before` are still there. -/
structure Kept (created before : List NodeExec) (w : World) : Prop where
  created : created_rows w.log = created
  keeps : KeepsRows before w.rows

/-- Dispatching creates nothing and keeps the keys. -/
theorem kept_by_dispatch (created before : List NodeExec) :
    KeptByDispatch (fun _ => True) (Kept created before) where
  dispatch w row h := ⟨by rw [created_rows_note, h.created, List.append_nil], h.keeps⟩
  expand w parent rows h := ⟨by rw [created_rows_note, h.created, List.append_nil], h.keeps⟩
  save w row now fields _ h := by
    refine ⟨h.created, h.keeps.trans fun b hb => ?_⟩
    obtain ⟨r, hr, hsame⟩ := w.table.exists_mem_save row now fields hb
    exact ⟨r, hr, hsame⟩
  insert w rows table created hins h := by
    refine ⟨h.created, h.keeps.trans (.of_subset fun b hb => ?_)⟩
    exact ((Table.bulk_create_created hins).mem b).mpr (.inr hb)

/-- What `create_rows` leaves behind. -/
theorem triple_create {created before rows : List NodeExec} :
    Triple (Kept created before) (create_rows rows)
      (fun _ w => Kept (created ++ rows) before w ∧ ∀ r ∈ rows, ∃ s ∈ w.rows,
        s.attempt_key = r.attempt_key)
      (fun w => created_rows w.log = created ++ rows) := by
  intro w hw
  unfold create_rows
  by_cases hrows : rows = []
  · subst hrows
    rw [if_pos rfl]
    exact ⟨⟨by rw [hw.created, List.append_nil], hw.keeps⟩, by simp⟩
  rw [if_neg hrows]
  have hnote : created_rows (w.note (.create rows)).log = created ++ rows := by
    rw [created_rows_note, hw.created]
  simp only [bind, andThen, record, modifyState, bulk_create]
  cases hins : (w.note (.create rows)).table.bulk_create rows with
  | none => exact hnote
  | some p =>
    have hc := Table.bulk_create_created hins
    refine ⟨⟨hnote, hw.keeps.trans (.of_subset fun b hb => (hc.mem b).mpr (.inr hb))⟩,
      fun r hr => ?_⟩
    obtain ⟨s, hs, heq⟩ := hc.mem_of_row r hr
    exact ⟨s, (hc.mem s).mpr (.inl hs), by rw [heq]; rfl⟩

/-- Rows that are not distinct, or have the key of a stored row, are refused. -/
theorem create_rows_refused {rows : List NodeExec} {w : World}
    (h : ¬ Table.Insertable w.rows rows) :
    (create_rows rows w).1 = .error (.IntegrityError "UNIQUE constraint failed") := by
  have hrows : rows ≠ [] := by
    rintro rfl
    exact h ((w.table.bulk_create_isSome_iff []).mp rfl)
  have hnone : w.table.bulk_create rows = none := by
    rw [← Option.not_isSome_iff_eq_none, w.table.bulk_create_isSome_iff]
    exact h
  unfold create_rows
  rw [if_neg hrows]
  simp only [bind, andThen, record, modifyState, bulk_create, World.note, hnone]

/-- Creating rows fails on a duplicate only. -/
theorem create_rows_error {rows : List NodeExec} {w : World} {e : Exn}
    (h : (create_rows rows w).1 = .error e) :
    e = .IntegrityError "UNIQUE constraint failed" := by
  by_cases hins : Table.Insertable w.rows rows
  · unfold create_rows at h
    split_ifs at h with hrows
    · cases h
    obtain ⟨p, hp⟩ := Option.isSome_iff_exists.mp ((w.table.bulk_create_isSome_iff rows).mpr hins)
    simp [bind, andThen, record, modifyState, bulk_create, World.note, hp] at h
  · exact (Except.error.inj ((create_rows_refused hins).symm.trans h)).symm

/-- The end nodes among keys that are runnable. -/
def ends_of (dag : Dag) (keys : List String) : List Node :=
  (keys.filterMap dag.node?).filter (·.node_type = "end")

theorem ends_of_cons (dag : Dag) (key : String) (rest : List String) :
    ends_of dag (key :: rest) = match dag.node? key with
      | none => ends_of dag rest
      | some n => if n.node_type = "end" then n :: ends_of dag rest else ends_of dag rest := by
  unfold ends_of
  cases hn : dag.node? key with
  | none => rw [List.filterMap_cons_none hn]
  | some n =>
    rw [List.filterMap_cons_some hn, List.filter_cons]
    simp only [decide_eq_true_eq]

/-- The rows of the follow-up are those of its end nodes, as far as it gets. -/
theorem reach_end_nodes_created (env : Env) (x : Execution) (ver : DagVersion)
    (user_id : Option Int) (w : World) :
    ∃ reached, reached <+: runnable_ends x ver w ∧
      (created_rows (reach_end_nodes env x ver user_id w).2.log).map (·.attempt_key) =
        (created_rows w.log).map (·.attempt_key) ++ reached.flatMap first_keys := by
  set ends := runnable_ends x ver w with hends
  suffices h : Triple (fun s => s = w) (reach_end_nodes env x ver user_id)
      (fun _ s => ∃ reached, reached <+: ends ∧ (created_rows s.log).map (·.attempt_key) =
        (created_rows w.log).map (·.attempt_key) ++ reached.flatMap first_keys)
      (fun s => ∃ reached, reached <+: ends ∧ (created_rows s.log).map (·.attempt_key) =
        (created_rows w.log).map (·.attempt_key) ++ reached.flatMap first_keys) from h.state rfl
  refine triple_bind (triple_getState (Q := fun s s' => s = w ∧ s' = w) fun s hs => ⟨hs, hs⟩)
    fun s => ?_
  refine triple_bind (R := fun ctx s' => s = w ∧ s' = w ∧
    ctx = refresh_ctx w.rows (_build_edge_ctx x ver)) ?_
    fun ctx => ?_
  · rintro _ ⟨rfl, rfl⟩
    exact ⟨rfl, rfl, rfl⟩
  simp only
  refine triple_bind (R := fun _ s => ∃ reached, reached <+: ends ∧
    (created_rows s.log).map (·.attempt_key) =
    (created_rows w.log).map (·.attempt_key) ++ reached.flatMap first_keys) ?_ fun _ =>
      triple_pure fun _ h => h
  -- the end nodes reached so far, and those of the remaining keys
  refine (triple_forEach (I := fun rest s' => ∃ reached, ends = reached ++ ends_of ver.dag rest ∧
    (created_rows s'.log).map (·.attempt_key) =
      (created_rows w.log).map (·.attempt_key) ++ reached.flatMap first_keys)
    (E := fun s => ∃ reached, reached <+: ends ∧ (created_rows s.log).map (·.attempt_key) =
      (created_rows w.log).map (·.attempt_key) ++ reached.flatMap first_keys)
      (fun key rest => ?_) _).conseq ?_
    (fun _ s ⟨reached, hreached, hcreated⟩ => ⟨reached, ⟨_, hreached.symm⟩, hcreated⟩) fun _ h => h
  · rintro s' ⟨reached, hreached, hcreated⟩
    rw [ends_of_cons] at hreached
    cases hn : ver.dag.node? key with
    | none =>
      rw [hn] at hreached
      exact ⟨reached, hreached, hcreated⟩
    | some n =>
      rw [hn] at hreached
      by_cases hend : n.node_type = "end"
      · simp only [hend, if_true] at hreached
        have hafter : (created_rows s'.log ++ runnable_rows env x user_id n).map (·.attempt_key) =
            (created_rows w.log).map (·.attempt_key) ++ (reached ++ [n]).flatMap first_keys := by
          rw [List.map_append, hcreated, runnable_attempt_keys, List.flatMap_append,
            List.flatMap_singleton, List.append_assoc]
        simp only [ne_eq, hend, not_true_eq_false, if_false]
        refine triple_create.conseq (fun _ h => h) (fun _ s'' h => ?_)
          (fun s'' h => ?_) s' ⟨rfl, .refl _⟩
        · exact ⟨reached ++ [n], by rw [hreached, List.append_assoc]; rfl, by rw [h.1.created,
            hafter]⟩
        · exact ⟨reached ++ [n], ⟨ends_of ver.dag rest, by rw [hreached, List.append_assoc]; rfl⟩,
            by rw [h, hafter]⟩
      · simp only [hend, if_false] at hreached
        simp only [ne_eq, hend, not_false_eq_true, if_true]
        exact ⟨reached, hreached, hcreated⟩
  · rintro _ ⟨rfl, rfl, rfl⟩
    exact ⟨[], rfl, by simp⟩

/-- The body of the follow-up loop. -/
def reach_key (env : Env) (x : Execution) (ver : DagVersion) (user_id : Option Int) (key : String) :
    RunnerM (List NodeExec) :=
  match ver.dag.node? key with
  | none => pure []
  | some node =>
    if node.node_type ≠ "end" then pure []
    else create_rows (runnable_rows env x user_id node)

/-- A loop over keys fails if the rows of one of its end nodes can no longer be inserted. -/
theorem reach_keys_refused (env : Env) (user_id : Option Int) {n : Node} {before : List NodeExec}
    (hbad : ∀ s : World, KeepsRows before s.rows →
      ¬ Table.Insertable s.rows (runnable_rows env x user_id n))
    {keys : List String} (hmem : n ∈ ends_of ver.dag keys) {s : World}
    (hs : KeepsRows before s.rows) :
    (Prog.forEach (reach_key env x ver user_id) keys s).1 =
      .error (.IntegrityError "UNIQUE constraint failed") := by
  induction keys generalizing s with
  | nil => simp [ends_of] at hmem
  | cons key rest ih =>
    rw [ends_of_cons] at hmem
    cases hn : ver.dag.node? key with
    | none =>
      rw [hn] at hmem
      exact forEach_error_tail (b := []) (by rw [reach_key, hn]; rfl) (ih hmem hs)
    | some m =>
      rw [hn] at hmem
      by_cases hend : m.node_type = "end"
      · simp only [hend, if_true, List.mem_cons] at hmem
        have hbody : reach_key env x ver user_id key =
            create_rows (runnable_rows env x user_id m) := by
          simp [reach_key, hn, hend]
        obtain rfl | hmem := hmem
        · exact forEach_error_head rest (by rw [hbody, create_rows_refused (hbad s hs)])
        · rcases hcreate : create_rows (runnable_rows env x user_id m) s with ⟨e | created, s'⟩
          · obtain rfl := create_rows_error (by rw [hcreate])
            exact forEach_error_head rest (by rw [hbody, hcreate])
          · have hkept : Kept (created_rows s.log ++ runnable_rows env x user_id m) before s' :=
              (triple_create.ok ⟨rfl, hs⟩ hcreate).1
            exact forEach_error_tail (by rw [hbody, hcreate]) (ih hmem hkept.keeps)
      · simp only [hend, if_false] at hmem
        exact forEach_error_tail (b := []) (by simp [reach_key, hn, hend]; rfl) (ih hmem hs)

/-- The follow-up fails if the rows of one of its end nodes cannot be inserted. -/
theorem reach_end_nodes_refused (env : Env) (user_id : Option Int) {n : Node} {w : World}
    (hmem : n ∈ runnable_ends x ver w)
    (hbad : ∀ s : World, KeepsRows w.rows s.rows →
      ¬ Table.Insertable s.rows (runnable_rows env x user_id n)) :
    (reach_end_nodes env x ver user_id w).1 =
      .error (.IntegrityError "UNIQUE constraint failed") := by
  have hloop := reach_keys_refused env user_id hbad hmem (KeepsRows.refl w.rows)
  unfold reach_end_nodes
  rw [bind_ok (rfl : getState w = (.ok w, w)),
    bind_ok (rfl : _refresh_ctx_from_db _ w = (.ok _, w))]
  exact bind_error hloop

/-- What the first wave has created. -/
theorem first_wave_created (env : Env) (x : Execution) (ver : DagVersion) (user_id : Option Int) :
    created_rows (first_wave env x ver user_id (executing x)).2.log =
      first_rows env x ver user_id := by
  have h : Triple (Kept [] []) (first_wave env x ver user_id)
      (fun _ w => created_rows w.log = first_rows env x ver user_id)
      (fun w => created_rows w.log = first_rows env x ver user_id) := by
    refine triple_bind triple_create fun inserts => ?_
    refine triple_bind (R := fun _ => Kept (first_rows env x ver user_id) []) ?_ fun _ =>
      triple_pure fun _ hw => hw.created
    exact ((kept_by_dispatch _ _).dispatch_pending env x ver.dag inserts _ user_id
      fun _ _ => trivial).conseq (fun _ hw => hw.1)
      (fun _ _ hw => hw) fun _ hw => hw.created
  exact h.state (s := executing x) ⟨rfl, .refl _⟩

/-- When the first wave returns, all first rows are stored. -/
theorem first_wave_stored {env : Env} {user_id : Option Int} {w : World}
    (h : first_wave env x ver user_id (executing x) = (.ok (), w)) :
    ∀ r ∈ first_rows env x ver user_id, ∃ s ∈ w.rows, s.attempt_key = r.attempt_key := by
  have hwave : Triple (Kept [] []) (first_wave env x ver user_id)
      (fun _ w => ∀ r ∈ first_rows env x ver user_id, ∃ s ∈ w.rows, s.attempt_key = r.attempt_key)
      (fun _ => True) := by
    refine triple_bind (triple_create.conseq (fun _ hw => hw) (fun _ _ hw => hw) fun _ _ => trivial)
      fun inserts => ?_
    refine triple_bind (R := fun _ w => ∀ r ∈ first_rows env x ver user_id, ∃ s ∈ w.rows,
      s.attempt_key = r.attempt_key) ?_ fun _ => triple_pure fun _ hw => hw
    rintro s ⟨-, hstored⟩
    refine ((kept_by_dispatch
      (created_rows s.log) s.rows).dispatch_pending env x ver.dag inserts _ user_id
      fun _ _ => trivial).conseq
      (fun _ hw => hw) (fun _ w hw r hr => ?_) (fun _ _ => trivial) s ⟨rfl, .refl _⟩
    obtain ⟨a, ha, hkey⟩ := hstored r hr
    obtain ⟨b, hb, hsame⟩ := hw.keeps a ha
    refine ⟨b, hb, ?_⟩
    rw [← hkey, NodeExec.attempt_key, NodeExec.attempt_key, hsame.node_key, hsame.host_id,
      hsame.attempt_no]
  exact hwave.ok (s := executing x) ⟨rfl, .refl _⟩ h

/-- The end of an execution is in no log. -/
theorem finalize_log (env : Env) (dag : Dag) (w : World) :
    (_finalize_workflow_if_done env dag w).2.log = w.log := by
  have h : Triple (fun s => s.log = w.log) (_finalize_workflow_if_done env dag)
    (fun _ s => s.log = w.log)
      (fun s => s.log = w.log) := by
    refine triple_bind (triple_getState (Q := fun _ s => s.log = w.log) fun _ hs => hs) fun s => ?_
    split
    · exact triple_pure fun _ hs => hs
    · exact triple_bind (R := fun _ s => s.log = w.log) (triple_modifyState fun _ hs => hs) fun _ =>
        triple_pure fun _ hs => hs
  exact h.state rfl

/-- An end node that the first wave leaves runnable is created once if it was not
runnable before. -/
theorem ends_nodup {w : World} (hends : ∀ n ∈ runnable_ends x ver w, n ∉ initial_nodes x ver) :
    (first_nodes x ver ++ runnable_ends x ver w).Nodup := by
  refine List.nodup_append.mpr ⟨first_nodes_nodup, (runnables_nodup ..).filter _, ?_⟩
  rintro a ha b hb rfl
  have hend : a.node_type = "end" := by simpa using (List.mem_filter.mp hb).2
  obtain hstart | hinitial := (mem_first_nodes_iff.mp ha).2
  · rw [hend] at hstart
    exact absurd hstart (by decide)
  · exact hends a hb hinitial

theorem runnable_ends_mem {w : World} :
    ∀ n ∈ runnable_ends x ver w, n ∈ ver.dag.nodes := fun _ hn =>
  (mem_nodes_of_runnable (List.mem_of_mem_filter hn)).1

/-- The rows of the whole trigger are distinct if each node is reached once. -/
theorem start_execution_distinct {env : Env} {user_id : Option Int}
    (h : ReachedOnce env x ver user_id) :
    ((created_rows (start_execution env x ver user_id (executing x)).2.log).map (·.attempt_key)).Nodup := by
  have hfirst := (first_rows_nodup_iff env user_id).mpr h.1
  have hcreated := first_wave_created env x ver user_id
  rw [start_execution_eq]
  rcases hwave : first_wave env x ver user_id (executing x) with ⟨e | _, w⟩
  · rw [hwave] at hcreated
    simp only [bind, andThen, hwave, hcreated]
    exact hfirst
  rw [hwave] at hcreated
  rw [bind_ok hwave]
  obtain ⟨reached, hreached, hkeys⟩ := reach_end_nodes_created env x ver user_id w
  have hall : ((first_rows env x ver user_id).map (·.attempt_key) ++
    reached.flatMap first_keys).Nodup := by
    rw [first_attempt_keys, ← List.flatMap_append]
    have hsub : (first_nodes x ver ++ reached).Sublist
        (first_nodes x ver ++ runnable_ends x ver w) :=
      hreached.sublist.append_left _
    have hnodup := (ends_nodup fun n hn => (h.2 w hwave n hn).2).sublist hsub
    have hmem : ∀ n ∈ first_nodes x ver ++ reached, n ∈ ver.dag.nodes := by
      intro n hn
      obtain hn | hn := List.mem_append.mp hn
      · exact first_nodes_mem n hn
      · exact runnable_ends_mem n (hreached.subset hn)
    rw [flatMap_first_keys_nodup_iff (keys_nodup_of_nodup hnodup hmem)]
    intro n hn
    obtain hn | hn := List.mem_append.mp hn
    · exact h.1 n (first_nodes_mem n hn) (mem_first_nodes_iff.mp hn).2
    · exact (h.2 w hwave n (hreached.subset hn)).1
  rw [hcreated] at hkeys
  rw [← hkeys] at hall
  rcases hends : reach_end_nodes env x ver user_id w with ⟨e | _, w'⟩
  · rw [hends] at hall
    simp only [bind, andThen, hends]
    exact hall
  · rw [hends] at hall
    rw [bind_ok hends]
    have hlog := finalize_log env ver.dag w'
    simp only [bind, andThen, pure, ret]
    rcases hfinal : _finalize_workflow_if_done env ver.dag w' with ⟨_ | _, w''⟩ <;>
      (rw [hfinal] at hlog; rw [← hlog] at hall; exact hall)

/-- A node that is reached again violates the unique constraint. -/
theorem start_execution_refused {env : Env} {user_id : Option Int}
    (h : ¬ ReachedOnce env x ver user_id) :
    (start_execution env x ver user_id (executing x)).1 =
      .error (.IntegrityError "UNIQUE constraint failed") := by
  rw [start_execution_eq]
  by_cases hfirst : ∀ n ∈ ver.dag.nodes, n.node_type = "start" ∨ n ∈ initial_nodes x ver →
    (expand_hosts n).Nodup
  · obtain ⟨w, hwave, n, hn, hagain⟩ :
        ∃ w, first_wave env x ver user_id (executing x) = (.ok (), w) ∧
        ∃ n ∈ runnable_ends x ver w, (expand_hosts n).Nodup → n ∈ initial_nodes x ver := by
      by_contra hnone
      push Not at hnone
      exact h ⟨hfirst, fun w hwave n hn => hnone w hwave n hn⟩
    rw [bind_ok hwave]
    apply bind_error
    apply reach_end_nodes_refused env user_id hn
    intro s hs hins
    have hkeys := hins.1
    rw [List.map_append, runnable_attempt_keys] at hkeys
    obtain ⟨-, hnew, hapart⟩ := List.nodup_append.mp hkeys
    have hinitial := hagain ((first_keys_nodup_iff n).mp hnew)
    -- the first wave has stored a row of the node
    obtain ⟨k, hk⟩ := List.exists_mem_of_ne_nil _ (first_keys_ne_nil n)
    have hfirst_key : k ∈ (first_rows env x ver user_id).map (·.attempt_key) := by
      rw [first_attempt_keys]
      have hnode := (mem_nodes_of_runnable (List.mem_of_mem_filter hn)).1
      exact List.mem_flatMap.mpr ⟨n, mem_first_nodes_iff.mpr ⟨hnode, .inr hinitial⟩, hk⟩
    obtain ⟨r, hr, rfl⟩ := List.mem_map.mp hfirst_key
    obtain ⟨a, ha, hkey⟩ := first_wave_stored hwave r hr
    obtain ⟨b, hb, hsame⟩ := hs a ha
    refine hapart b.attempt_key (List.mem_map_of_mem hb) r.attempt_key hk ?_
    rw [← hkey, NodeExec.attempt_key, NodeExec.attempt_key, hsame.node_key, hsame.host_id,
      hsame.attempt_no]
  · apply bind_error
    apply bind_error
    apply create_rows_refused
    intro hins
    apply hfirst
    rw [← first_rows_nodup_iff env user_id]
    simpa [executing, World.initial, World.rows, Table.empty] using hins.1

end

/-- The execution that `trigger_workflow` creates. -/
def triggered (ver : DagVersion) (execution_id : Nat) (trigger_params : Dict String Json)
    (trigger_type : String) (fail_strategy : Option String) : Execution where
  pk := execution_id
  status := .RUNNING
  fail_strategy := resolve_fail_strategy ver.workflow fail_strategy
  global_timeout_sec := ver.workflow.global_timeout_sec
  trigger_params := trigger_params
  trigger_type := trigger_type

/-- A trigger whose nodes are reached once hands over distinct rows. Every other trigger
violates the unique constraint. -/
theorem trigger_creates_distinct_iff (env : Env) (ver : DagVersion) (execution_id : Nat)
    (trigger_params : Dict String Json) (trigger_type : String) (user_id : Option Int)
    (fail_strategy : Option String) :
    (ReachedOnce env (triggered ver execution_id trigger_params trigger_type fail_strategy) ver user_id →
      ((created_rows (trigger_workflow env ver execution_id trigger_params trigger_type user_id fail_strategy
        .initial).2.log).map (·.attempt_key)).Nodup) ∧
    (¬ ReachedOnce env (triggered ver execution_id trigger_params trigger_type fail_strategy) ver user_id →
      (trigger_workflow env ver execution_id trigger_params trigger_type user_id fail_strategy .initial).1 =
        .error (.IntegrityError "UNIQUE constraint failed")) := by
  set x := triggered ver execution_id trigger_params trigger_type fail_strategy with hx
  by_cases hnodes : ver.dag.nodes = []
  · have hempty : trigger_workflow env ver execution_id trigger_params trigger_type user_id fail_strategy .initial =
        (.error (.WorkflowRunnerError "E3003: dag_version is missing nodes definition"),
        .initial) := by
      unfold trigger_workflow transaction atomic
      rw [if_pos hnodes]
      rfl
    have honce : ReachedOnce env x ver user_id := by
      refine ⟨fun n hn => ?_, fun w _ n hn => ?_⟩
      · rw [hnodes] at hn
        exact absurd hn List.not_mem_nil
      · have hmem := runnable_ends_mem n hn
        rw [hnodes] at hmem
        exact absurd hmem List.not_mem_nil
    rw [hempty]
    exact ⟨fun _ => List.nodup_nil, fun hnot => absurd honce hnot⟩
  · have htrigger : trigger_workflow env ver execution_id trigger_params trigger_type user_id fail_strategy .initial =
        atomic (fun _ => World.rollback .initial) (start_execution env x ver user_id)
        (executing x) := by
      unfold trigger_workflow transaction atomic
      rw [if_neg hnodes, bind_ok (rfl : modifyState _ World.initial = (.ok (), executing x))]
      rfl
    rw [htrigger]
    unfold atomic
    constructor
    · intro honce
      have hdistinct := start_execution_distinct honce
      rcases hrun : start_execution env x ver user_id (executing x) with ⟨_ | _, s'⟩ <;>
        (rw [hrun] at hdistinct; exact hdistinct)
    · intro hnot
      have hrefused := start_execution_refused hnot
      rcases hrun : start_execution env x ver user_id (executing x) with ⟨_ | _, s'⟩ <;>
        (rw [hrun] at hrefused; exact hrefused)

/-- A DAG without business nodes. -/
def directVersion : DagVersion where
  dag :=
    { nodes := [{ node_key := "start", node_type := "start" },
      { node_key := "end", node_type := "end" }]
      edges := [{ from_key := "start", to_key := "end" }]
      keys_nodup := by decide
      edges_closed := by decide }
  workflow := { pk := 1, name := "direct" }

/-- It is accepted, and its trigger creates the end node twice. -/
theorem direct_end_created_twice :
    (validate_dag .short noop_registry (drawn directVersion.dag)).toOption.map (·.ok) = some true ∧
      (created_rows (trigger_workflow (scripted 0 (fun _ _ => running)
        fun _ _ => running) directVersion 1 []
        "manual" none none .initial).2.log).map (·.attempt_key) =
          [("start", "__NO_HOST__", 1), ("end", "__NO_HOST__", 1), ("end", "__NO_HOST__", 1)] := by
  constructor <;> decide +kernel

end taurus.engine.runner
