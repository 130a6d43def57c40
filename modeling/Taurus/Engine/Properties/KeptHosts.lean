import Taurus.Engine.Properties.FirstRows
import Taurus.Engine.Properties.TargetHosts

namespace taurus.engine.runner

open taurus.lib taurus.python taurus.engine.executor taurus.engine.registry taurus.engine.dag_validator

/-- The ids a node is left with as its own: those of its own list if it gives any, else those of
all places. -/
def kept_ids (node : Dict String Json) : List Json :=
  if list_hosts (getJson node "host_ids") ≠ [] then list_hosts (getJson node "host_ids")
  else _coerce_host_list (merged_hosts node)

/-- The hosts of the first field that gives any. -/
def first_hosts (fields : List (List Json)) : List Json := (fields.find? (· matches _ :: _)).getD []

/-- The hosts found on a node once it is normalized: the kept ids, coerced once more, else the
hosts of the other fields. -/
def run_hosts (node : Dict String Json) : List Json :=
  first_hosts (_coerce_host_list (kept_ids node) :: other_fields node)

/-- The node is left without ids of its own, and it or its class says that it needs no host. -/
def Waived (py : Reprs) (registry : UnitAdapterRegistry) (id : String)
    (node : Dict String Json) : Prop :=
  kept_ids node = [] ∧ flag? (getJson (prepared py registry id node) "requires_host") = some false

section

variable {py : Reprs} {registry : UnitAdapterRegistry} {id : String} {node : Dict String Json}

theorem first_hosts_cons (hosts : List Json) (fields : List (List Json)) :
    first_hosts (hosts :: fields) = if hosts = [] then first_hosts fields else hosts := by
  cases hosts <;> simp [first_hosts]

/-- The ids that are kept are usable. -/
theorem usable_of_mem_kept {h : Json} (hmem : h ∈ kept_ids node) : usable h = true := by
  unfold kept_ids at hmem
  split_ifs at hmem with hown
  · cases hids : getJson node "host_ids" with
    | arr xs =>
      rw [hids] at hmem
      exact usable_of_mem_coerce hmem
    | _ => simp [hids, list_hosts] at hown
  · exact usable_of_mem_coerce hmem

/-- The hosts of the engine's own field after normalizing. -/
theorem list_hosts_new (node : Dict String Json) :
    list_hosts (new_host_ids node) = _coerce_host_list (kept_ids node) := by
  unfold new_host_ids kept_ids
  by_cases hown : list_hosts (getJson node "host_ids") = []
  · rw [if_neg (not_not.mpr hown), if_neg (not_not.mpr hown)]
    split_ifs with hmerged
    · rfl
    · rw [not_not.mp hmerged, coerce_nil, coerce_nil]
      exact hown
  · rw [if_pos hown, if_pos hown]
    rfl

/-- The engine's own field is a list that is not empty exactly if ids are kept. -/
theorem some_list_new_iff (node : Dict String Json) :
    (some_list? (new_host_ids node)).isSome = true ↔ kept_ids node ≠ [] := by
  have harr : ∀ xs : List Json, (some_list? (.arr xs)).isSome = true ↔ xs ≠ [] := by
    intro xs
    cases xs <;> simp [some_list?]
  unfold new_host_ids kept_ids
  by_cases hown : list_hosts (getJson node "host_ids") = []
  · rw [if_neg (not_not.mpr hown), if_neg (not_not.mpr hown)]
    split_ifs with hmerged
    · exact harr _
    · rw [not_not.mp hmerged, coerce_nil]
      refine iff_of_false ?_ (by simp)
      cases hlist : some_list? (getJson node "host_ids") with
      | none => simp
      | some xs => exact absurd (not_not.mp hmerged) (merged_hosts_ne_nil hlist)
  · rw [if_pos hown, if_pos hown]
    exact harr _

/-- A normalized node names the hosts it runs on. -/
theorem extract_normalized :
    _extract_host_ids_from_node (_ensure_node_engine_fields py registry id node) =
      run_hosts node := by
  obtain ⟨hsame, hids, -⟩ := ensure_spec py registry id node
  have hfields : host_fields (_ensure_node_engine_fields py registry id node) =
      _coerce_host_list (kept_ids node) :: other_fields node := by
    rw [host_fields_eq, hsame.other_fields, hids, list_hosts_new]
  rw [_extract_host_ids_from_node, hfields]
  rfl

/-- A normalized node needs no host exactly if that is waived. -/
theorem requires_normalized :
    flag? (getJson (_ensure_node_engine_fields py registry id node) "requires_host") = some false ↔
      Waived py registry id node := by
  obtain ⟨-, -, hrequires⟩ := ensure_spec py registry id node
  by_cases hkept : kept_ids node = []
  · rw [if_neg ((some_list_new_iff node).not.mpr (not_not.mpr hkept))] at hrequires
    have hget : getJson (_ensure_node_engine_fields py registry id node) "requires_host" =
        getJson (prepared py registry id node) "requires_host" := by
        rw [getJson, getJson, hrequires]
    rw [hget, Waived, and_iff_right hkept]
  · rw [if_pos ((some_list_new_iff node).mpr hkept)] at hrequires
    refine iff_of_false ?_ fun h => hkept h.1
    simp [getJson, hrequires, flag?]

/-- The key stays as the first step has made it. -/
theorem leaves_node_key (py : Reprs) (registry : UnitAdapterRegistry) (id : String)
    (node : Dict String Json) :
    Leaves "node_key" (ensure_node_key py id node)
      (_ensure_node_engine_fields py registry id node) := by
  have hrequires : Leaves "node_key" (ensure_node_key py id node)
      (ensure_requires_host py registry (ensure_node_type py (ensure_node_key py id node))) :=
    (leaves_ensure_node_type (by decide)).next (leaves_ensure_requires_host (by decide))
  have hname : Leaves "node_key" (ensure_node_key py id node)
      (ensure_node_name py (ensure_requires_host py registry
      (ensure_node_type py (ensure_node_key py id node)))) :=
    hrequires.next (leaves_ensure_node_name (by decide))
  have hids := hname.next (leaves_ensure_host_ids (by decide) (by decide))
  have hstrategy := hids.next (leaves_promote _ "fail_strategy" false (by decide))
  have hretries := hstrategy.next (leaves_promote _ "max_retries" true (by decide))
  exact hretries.next (leaves_promote _ "retry_delay_ms" true (by decide))

/-- A node that needs no host runs on none. -/
theorem expand_waived (workflow_hosts : List String)
    (h : flag? (getJson node "requires_host") = some false) :
    expand_hosts (read_node py node) workflow_hosts = [NO_HOST_SENTINEL] := by
  unfold expand_hosts
  simp only [read_node, h, if_true]

/-- A node that has hosts runs on them. -/
theorem expand_found (workflow_hosts : List String)
    (h : flag? (getJson node "requires_host") ≠ some false)
    (hfound : _extract_host_ids_from_node node ≠ []) :
    expand_hosts (read_node py node) workflow_hosts =
      (_extract_host_ids_from_node node).map py.str := by
  have hclean : ((_extract_host_ids_from_node node).map py.str).filter
    (fun h => !(strip h.toList).isEmpty) =
      (_extract_host_ids_from_node node).map py.str := by
    rw [List.filter_eq_self]
    intro s hs
    obtain ⟨h, hh, rfl⟩ := List.mem_map.mp hs
    simp [not_blank_of_usable (usable_of_mem_extract hh)]
  unfold expand_hosts
  simp only [read_node, hclean, h, if_false]
  rw [if_pos (by simpa using hfound)]

/-- A node without hosts runs on those of the workflow, else on the placeholder, or on none. -/
theorem expand_none (h : flag? (getJson node "requires_host") ≠ some false)
    (hnone : _extract_host_ids_from_node node = []) :
    expand_hosts (read_node py node) = [] ∨
      expand_hosts (read_node py node) = [NO_HOST_SENTINEL] := by
  unfold expand_hosts
  simp only [read_node, h, if_false, hnone, List.map_nil, List.filter_nil, ne_eq, not_true_eq_false]
  split_ifs <;> simp

section

variable (py : Reprs) (registry : UnitAdapterRegistry) (id : String) (node : Dict String Json)

/-- The hosts a normalized node runs on. -/
theorem expand_normalized :
    (Waived py registry id node →
      expand_hosts (read_node py (_ensure_node_engine_fields py registry id node)) =
        [NO_HOST_SENTINEL]) ∧
    (¬ Waived py registry id node → run_hosts node ≠ [] →
      expand_hosts (read_node py (_ensure_node_engine_fields py registry id node)) =
        (run_hosts node).map py.str) ∧
    (¬ Waived py registry id node → run_hosts node = [] →
      expand_hosts (read_node py (_ensure_node_engine_fields py registry id node)) = [] ∨
        expand_hosts (read_node py (_ensure_node_engine_fields py registry id node)) =
          [NO_HOST_SENTINEL]) := by
  have hrequires := @requires_normalized py registry id node
  have hextract := @extract_normalized py registry id node
  generalize _ensure_node_engine_fields py registry id node = node' at hrequires hextract
  rw [← hrequires, ← hextract]
  exact ⟨expand_waived [], fun h hfound => expand_found [] h hfound,
    fun h hnone => expand_none h hnone⟩

end

end

/-- The rows `_prep_node_rows` returns for the JSON of a node. -/
def prepared_rows (py : Reprs) (registry : UnitAdapterRegistry) (id : String) (env : Env)
    (execution : Execution) (node : Dict String Json) (user_id : Option Int) (attempt_no : Nat) :
    List NodeExec :=
  _prep_node_rows env execution
    (read_node py (_ensure_node_engine_fields py registry id node)) user_id attempt_no

/-- The rows are distinct, and creating them violates no unique constraint. -/
structure OneRowPerHost (rows : List NodeExec) : Prop where
  distinct : (rows.map (·.attempt_key)).Nodup
  insertable : Table.Insertable [] rows

/-- The digits of the hash that tell the rows of a node apart. -/
def host_digest (execution_id : Nat) (node_key : String) (attempt_no : Nat)
    (host_id : String) : List Char :=
  (sha1_hexdigest s!"wfex-{execution_id}:{node_key}:{host_id}:{attempt_no}".toList).take 10

/-- Dispatch ids of two hosts agree exactly if their digests do. -/
theorem dispatch_id_inj {execution_id attempt_no : Nat} {node_key h h' : String} :
    _make_dispatch_id execution_id node_key h attempt_no =
      _make_dispatch_id execution_id node_key h' attempt_no ↔
      host_digest execution_id node_key attempt_no h =
        host_digest execution_id node_key attempt_no h' := by
  have hid : ∀ h, (_make_dispatch_id execution_id node_key h attempt_no).toList =
      (s!"wfex-{execution_id}-{String.ofList (node_key.toList.take 32)}-").toList ++
        host_digest execution_id node_key attempt_no h := by
    intro h
    simp only [_make_dispatch_id, host_digest, String.toList_append, List.append_assoc]
    exact congrArg _ (congrArg _ (congrArg _ (congrArg _ (congrArg _ String.toList_ofList))))
  rw [← String.toList_inj, hid, hid, List.append_cancel_left_eq]

/-- The dispatch ids of prepared rows. -/
theorem prep_dispatch_ids (env : Env) (x : Execution) (n : Node) (user_id : Option Int)
    (attempt_no : Nat) :
    (_prep_node_rows env x n user_id attempt_no).map (·.dispatch_id) =
      (row_hosts n).map fun h => _make_dispatch_id x.pk n.node_key h attempt_no := by
  unfold _prep_node_rows row_hosts
  cases expand_hosts n with
  | nil => rfl
  | cons hid hids => simp

/-- Distinct digests mean distinct hosts, so that both constraints hold. -/
theorem oneRowPerHost_iff (env : Env) (x : Execution) (n : Node) (user_id : Option Int)
    (attempt_no : Nat) :
    OneRowPerHost (_prep_node_rows env x n user_id attempt_no) ↔
      ((row_hosts n).map (host_digest x.pk n.node_key attempt_no)).Nodup := by
  have hkeys := prep_keys env x n user_id attempt_no
  have hids := prep_dispatch_ids env x n user_id attempt_no
  have hdigests : ((row_hosts n).map
    fun h => _make_dispatch_id x.pk n.node_key h attempt_no).Nodup ↔
      ((row_hosts n).map (host_digest x.pk n.node_key attempt_no)).Nodup := by
    simp only [List.Nodup, List.pairwise_map, ne_eq, dispatch_id_inj]
  constructor
  · intro h
    have hdispatch := h.insertable.2
    rw [List.nil_append, hids] at hdispatch
    exact hdigests.mp hdispatch
  · intro h
    have hattempt : ((_prep_node_rows env x n user_id attempt_no).map (·.attempt_key)).Nodup := by
      rw [hkeys]
      exact (List.Nodup.of_map _ h).map fun a b hab => by simpa using hab
    refine ⟨hattempt, by simpa using hattempt, ?_⟩
    rw [List.nil_append, hids]
    exact hdigests.mpr h

/-- The rows of a node are distinct, and can be created, exactly if no host is listed twice for it:
the node needs no host, or the texts of the hosts it runs on are distinct, down to their digests. -/
theorem one_row_per_host_iff (py : Reprs) (registry : UnitAdapterRegistry) (id : String) (env : Env)
    (x : Execution) (node : Dict String Json) (user_id : Option Int) (attempt_no : Nat) :
    OneRowPerHost (prepared_rows py registry id env x node user_id attempt_no) ↔
      Waived py registry id node ∨
        ((run_hosts node).map fun h =>
          host_digest x.pk (py.str (getJson (ensure_node_key py id node) "node_key")) attempt_no
            (py.str h)).Nodup := by
  have hkey : (read_node py (_ensure_node_engine_fields py registry id node)).node_key =
      py.str (getJson (ensure_node_key py id node) "node_key") := by
    rw [read_node, (leaves_node_key py registry id node).getJson]
  obtain ⟨hwaived, hfound, hnone⟩ := expand_normalized py registry id node
  rw [prepared_rows, oneRowPerHost_iff, hkey]
  by_cases hw : Waived py registry id node
  · rw [row_hosts, hwaived hw]
    simp [hw]
  · rw [or_iff_right hw]
    by_cases hrun : run_hosts node = []
    · rw [hrun]
      refine iff_of_true ?_ (by simp)
      rw [row_hosts]
      rcases hnone hw hrun with h | h <;> simp [h]
    · have hhosts : row_hosts (read_node py (_ensure_node_engine_fields py registry id node)) =
          (run_hosts node).map py.str := by
        rw [row_hosts, hfound hw hrun]
        split
        · next h => exact absurd (List.map_eq_nil_iff.mp h) hrun
        · rfl
      rw [hhosts, List.map_map]
      rfl

/-- The rows of a node that lists a host twice. -/
def repeated_rows : List NodeExec :=
  prepared_rows .short noop_registry "0"
    (scripted 0 (fun _ _ => running) fun _ _ => running) hostedExecution
    (hostedNode [("host_ids", .arr [.str "h1", .str "h1"])]) none 1

/-- It gets two rows for that host, which the database refuses. -/
theorem repeated_host_refused : ¬ OneRowPerHost repeated_rows := by
  intro h
  exact absurd h.distinct (by decide +kernel)

end taurus.engine.runner
