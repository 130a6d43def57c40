import Taurus.Engine.Properties.Acyclicity
import Taurus.Engine.Runner.EngineFields
import Taurus.Engine.Runner.Runs

namespace taurus.engine.runner

open taurus.lib taurus.python taurus.engine.executor taurus.engine.registry taurus.engine.dag_validator

variable {py : Reprs} {registry : UnitAdapterRegistry} {id : String} {node node' : Dict String Json}

/-- The placeholder of a node without valid hosts is among the rows. -/
def HasPlaceholder (rows : List NodeExec) : Prop :=
  ∃ r ∈ rows, r.status = .FAILED ∧ r.error_message = some E0301

/-- A node gets a placeholder row exactly if it expands to no host. -/
theorem hasPlaceholder_iff {env : Env} {x : Execution} {n : Node} {user_id : Option Int}
    {attempt_no : Nat} :
    HasPlaceholder (_prep_node_rows env x n user_id attempt_no) ↔ expand_hosts n = [] := by
  unfold _prep_node_rows
  cases hhosts : expand_hosts n with
  | nil => simp [HasPlaceholder]
  | cons host rest => simp [HasPlaceholder]

/-- A usable host has a text that is not blank. -/
theorem not_blank_of_usable {h : Json} (hh : usable h = true) :
    (strip (py.str h).toList).isEmpty = false := by
  by_contra hblank
  have hnil : strip (py.str h).toList = [] := by simpa using hblank
  obtain ⟨s, rfl, hs⟩ := (py.str_blank_iff h).mp hnil
  simp [usable, hs] at hh

/-- A normalized node has no hosts exactly if it requires one and none is found on it. -/
theorem expand_hosts_eq_nil_iff :
    expand_hosts (read_node py node) = [] ↔
      getJson node "requires_host" = .bool true ∧ _extract_host_ids_from_node node = [] := by
  have hall : ((_extract_host_ids_from_node node).map py.str).filter
    (fun h => !(strip h.toList).isEmpty) =
      (_extract_host_ids_from_node node).map py.str := by
    rw [List.filter_eq_self]
    intro s hs
    obtain ⟨h, hh, rfl⟩ := List.mem_map.mp hs
    simp [not_blank_of_usable (usable_of_mem_extract hh)]
  unfold expand_hosts
  simp only [read_node, hall, ← flag?_eq_some_iff]
  by_cases hfalse : flag? (getJson node "requires_host") = some false
  · simp [hfalse]
  · by_cases hnil : _extract_host_ids_from_node node = []
    · by_cases htrue : flag? (getJson node "requires_host") = some true
      · simp [hnil, htrue]
      · simp [hfalse, hnil, htrue]
    · simp [hfalse, hnil]

section fields

theorem coerce_flatMap {α : Type} (xs : List α) (f : α → List Json) :
    _coerce_host_list (xs.flatMap f) = xs.flatMap fun x => _coerce_host_list (f x) := by
  induction xs with
  | nil => rfl
  | cons x rest ih => rw [List.flatMap_cons, List.flatMap_cons, coerce_append, ih]

/-- The fields hosts are looked for in, beside the engine's own. -/
def host_keys : List String := ["target_hosts", "hosts", "host_id", "host", "data", "params"]

/-- The dicts agree on the places of hosts, those of the engine's own field apart. -/
def SameHosts (node node' : Dict String Json) : Prop :=
  ∀ k ∈ host_keys, getJson node k = getJson node' k

/-- A field that names no host may be set. -/
theorem SameHosts.set {k : String} {v : Json} (hk : k ∉ host_keys) :
    SameHosts (Dict.set node k v) node := by
  intro k₂ hk₂
  rw [getJson_set, if_neg]
  rintro rfl
  exact hk hk₂

/-- What the host fields other than the engine's own give. -/
def other_fields (node : Dict String Json) : List (List Json) :=
  (["target_hosts", "hosts", "host_id", "host"].map fun k => field_hosts k (getJson node k)) ++
    (nested node).flatMap fun d => _NESTED_LIST_KEYS.map fun k => field_hosts k (getJson d k)

/-- The fields of hosts are the own list and the others. -/
theorem host_fields_eq (node : Dict String Json) :
    host_fields node = list_hosts (getJson node "host_ids") :: other_fields node := by
  simp [host_fields, other_fields, _HOST_LIST_KEYS, field_hosts, _SINGULAR_HOST_KEYS]

/-- Nodes with the same hosts agree on the others. -/
theorem SameHosts.other_fields (h : SameHosts node node') :
    other_fields node = other_fields node' := by
  have hall := h
  simp only [SameHosts, host_keys, List.forall_mem_cons] at hall
  obtain ⟨h₁, h₂, h₃, h₄, h₅, h₆, -⟩ := hall
  simp only [runner.other_fields, nested, config, sub_dict, List.map_cons, List.map_nil, h₁, h₂,
    h₃, h₄, h₅, h₆]

theorem some_list?_eq_some {v : Json} {xs : List Json} (h : some_list? v = some xs) :
    v = .arr xs ∧ xs ≠ [] := by
  unfold some_list? at h
  split at h
  · obtain rfl := Option.some.inj h
    simp
  · cases h

/-- A dict whose host fields give nothing adds nothing to the merged hosts. -/
theorem coerce_merged_from {d : Dict String Json}
    (h : ∀ k ∈ _HOST_LIST_KEYS, field_hosts k (getJson d k) = []) :
    _coerce_host_list (merged_from d) = [] := by
  have hlist : ∀ k ∈ ["target_hosts", "hosts", "host_ids"], list_hosts (getJson d k) = [] := by
    intro k hk
    have hfield := h k ((by decide : ["target_hosts", "hosts", "host_ids"] ⊆ _HOST_LIST_KEYS) hk)
    have hplural :=
      (by decide : ∀ k ∈ ["target_hosts", "hosts", "host_ids"], k ∉ _SINGULAR_HOST_KEYS) k hk
    rwa [field_hosts, if_neg hplural] at hfield
  have hsingle : ∀ k ∈ ["host_id", "host"], ∀ v, present? d k = some v →
      _coerce_host_list [v] = [] := by
    intro k hk v hv
    have hfield := h k ((by decide : ["host_id", "host"] ⊆ _HOST_LIST_KEYS) hk)
    have hsingular : k ∈ _SINGULAR_HOST_KEYS := hk
    unfold present? at hv
    split_ifs at hv with hmissing
    obtain rfl := Option.some.inj hv
    rw [field_hosts, if_pos hsingular, if_neg (by simp [hmissing])] at hfield
    cases hcoerce : _coerce_host_list [getJson d k] with
    | nil => rfl
    | cons x xs => simp [hcoerce] at hfield
  unfold merged_from
  rw [coerce_append, List.append_eq_nil_iff]
  constructor
  · cases hfound : ["target_hosts", "hosts", "host_ids"].findSome?
      (fun k => some_list? (getJson d k)) with
    | none => rfl
    | some xs =>
      obtain ⟨k, hk, hxs⟩ := List.exists_of_findSome?_eq_some hfound
      have hfield := hlist k hk
      rw [(some_list?_eq_some hxs).1] at hfield
      exact hfield
  · rw [List.eq_nil_iff_forall_not_mem]
    intro y hy
    obtain ⟨v, hv, hy⟩ := List.mem_flatMap.mp hy
    obtain ⟨k, hk, hpresent⟩ := List.mem_filterMap.mp hv
    have hnil := hsingle k hk v hpresent
    rw [_coerce_host_list, List.flatMap_singleton] at hnil
    rw [hnil] at hy
    simp at hy

end fields

section ensure

/-- A step that leaves the places of hosts alone. -/
structure KeepsHosts (node node' : Dict String Json) : Prop where
  same : SameHosts node' node
  host_ids : getJson node' "host_ids" = getJson node "host_ids"

theorem KeepsHosts.refl (node : Dict String Json) : KeepsHosts node node := ⟨fun _ _ => rfl, rfl⟩

/-- Steps that keep the hosts may be taken in turn. -/
theorem KeepsHosts.trans {node'' : Dict String Json} (h : KeepsHosts node node')
    (h' : KeepsHosts node' node'') :
    KeepsHosts node node'' :=
  ⟨fun k hk => (h'.same k hk).trans (h.same k hk), h'.host_ids.trans h.host_ids⟩

/-- A field beside the hosts may be set. -/
theorem KeepsHosts.set {k : String} {v : Json} (hk : k ∉ host_keys) (hne : k ≠ "host_ids") :
    KeepsHosts node (Dict.set node k v) :=
  ⟨SameHosts.set hk, by rw [getJson_set, if_neg hne]⟩

/-- The merged hosts are kept. -/
theorem KeepsHosts.merged_hosts (h : KeepsHosts node node') :
    merged_hosts node' = merged_hosts node := by
  have hall := h.same
  simp only [SameHosts, host_keys, List.forall_mem_cons] at hall
  obtain ⟨h₁, h₂, h₃, h₄, h₅, h₆, -⟩ := hall
  simp only [runner.merged_hosts, merged_from, present?, nested, config, sub_dict,
    List.findSome?_cons, List.findSome?_nil, List.filterMap_cons, List.filterMap_nil, h₁, h₂, h₃,
    h₄, h₅, h₆, h.host_ids]

theorem KeepsHosts.new_host_ids (h : KeepsHosts node node') :
    new_host_ids node' = new_host_ids node := by
  simp only [runner.new_host_ids, h.merged_hosts, h.host_ids]

/-- The fields before the host ids. -/
def prepared (py : Reprs) (registry : UnitAdapterRegistry) (id : String) (node : Dict String Json) :
    Dict String Json :=
  ensure_requires_host py registry (ensure_node_type py (ensure_node_key py id node))

/-- Preparing a node keeps its hosts. -/
theorem keepsHosts_prepared : KeepsHosts node (prepared py registry id node) := by
  have hkey : KeepsHosts node (ensure_node_key py id node) := by
    unfold ensure_node_key
    split
    · exact .refl node
    · exact .set (by decide) (by decide)
  have htype : ∀ n, KeepsHosts n (ensure_node_type py n) := by
    intro n
    unfold ensure_node_type
    split
    · exact .refl n
    · exact .set (by decide) (by decide)
  have hrequires : ∀ n, KeepsHosts n (ensure_requires_host py registry n) := by
    intro n
    unfold ensure_requires_host
    split
    · exact .refl n
    · split
      · exact .set (by decide) (by decide)
      · exact .set (by decide) (by decide)
  exact (hkey.trans (htype _)).trans (hrequires _)

theorem keepsHosts_ensure_node_name : KeepsHosts node (ensure_node_name py node) := by
  unfold ensure_node_name
  split
  · exact .refl node
  · exact .set (by decide) (by decide)

theorem keepsHosts_promote (node : Dict String Json) (k : String) (coerce : Bool)
    (hk : k ∉ host_keys) (hne : k ≠ "host_ids") :
    KeepsHosts node (promote k coerce node) := by
  obtain heq | ⟨v, heq⟩ := promote_cases k coerce node
  · rw [heq]
    exact .refl node
  · rw [heq]
    exact .set hk hne

/-- What writing the hosts does to a node. -/
theorem ensure_host_ids_spec (node : Dict String Json) :
    SameHosts (ensure_host_ids node) node ∧
      getJson (ensure_host_ids node) "host_ids" = new_host_ids node ∧
      Dict.get? (ensure_host_ids node) "requires_host" =
        if (some_list? (new_host_ids node)).isSome then some (.bool true)
        else Dict.get? node "requires_host" := by
  have hrequire : ∀ n : Dict String Json,
      let n' := if (some_list? (getJson n "host_ids")).isSome then Dict.set n "requires_host"
        (.bool true) else n
      KeepsHosts n n' ∧ Dict.get? n' "requires_host" =
        if (some_list? (getJson n "host_ids")).isSome then
          some (.bool true)
        else Dict.get? n "requires_host" := by
    intro n
    simp only
    split
    · exact ⟨.set (by decide) (by decide), Dict.get?_set_self _ _ _⟩
    · exact ⟨.refl n, rfl⟩
  unfold ensure_host_ids
  simp only
  by_cases hnew : list_hosts (getJson node "host_ids") ≠ [] ∨ merged_hosts node ≠ []
  · rw [if_pos hnew]
    obtain ⟨hkeeps, hrequires⟩ := hrequire (Dict.set node "host_ids" (new_host_ids node))
    have hids : getJson (Dict.set node "host_ids" (new_host_ids node)) "host_ids" =
        new_host_ids node := by
      rw [getJson_set, if_pos rfl]
    refine ⟨fun k hk => (hkeeps.same k hk).trans (SameHosts.set (by decide) k hk),
      hkeeps.host_ids.trans hids, ?_⟩
    rw [hrequires, hids, Dict.get?_set_ne _ _ (by decide)]
  · rw [if_neg hnew]
    obtain ⟨hkeeps, hrequires⟩ := hrequire node
    have hids : getJson node "host_ids" = new_host_ids node := by
      push Not at hnew
      rw [new_host_ids, if_neg (not_not.mpr hnew.1), if_neg (not_not.mpr hnew.2)]
    refine ⟨hkeeps.same, hkeeps.host_ids.trans hids, ?_⟩
    rw [hrequires, hids]

/-- The control fields do not matter for the hosts. -/
theorem promoted_spec (node : Dict String Json) :
    let node' :=
  promote "retry_delay_ms" true (promote "max_retries" true (promote "fail_strategy" false node))
    KeepsHosts node node' ∧ Leaves "requires_host" node node' := by
  simp only
  have hfs := keepsHosts_promote node "fail_strategy" false (by decide) (by decide)
  have hfs' : Leaves "requires_host" node (promote "fail_strategy" false node) :=
    leaves_promote node _ false (by decide)
  generalize promote "fail_strategy" false node = node₁ at hfs hfs'
  have hmax := keepsHosts_promote node₁ "max_retries" true (by decide) (by decide)
  have hmax' : Leaves "requires_host" node₁ (promote "max_retries" true node₁) :=
    leaves_promote node₁ _ true (by decide)
  generalize promote "max_retries" true node₁ = node₂ at hmax hmax'
  have hdelay := keepsHosts_promote node₂ "retry_delay_ms" true (by decide) (by decide)
  have hdelay' : Leaves "requires_host" node₂ (promote "retry_delay_ms" true node₂) :=
    leaves_promote node₂ _ true (by decide)
  exact ⟨(hfs.trans hmax).trans hdelay, (hdelay'.trans hmax').trans hfs'⟩

/-- What normalizing does to the hosts of a node and to whether it requires one. -/
theorem ensure_spec (py : Reprs) (registry : UnitAdapterRegistry) (id : String)
    (node : Dict String Json) :
    SameHosts (_ensure_node_engine_fields py registry id node) node ∧
      getJson (_ensure_node_engine_fields py registry id node) "host_ids" = new_host_ids node ∧
      Dict.get? (_ensure_node_engine_fields py registry id node) "requires_host" =
        if (some_list? (new_host_ids node)).isSome then some (.bool true)
        else Dict.get? (prepared py registry id node) "requires_host" := by
  have hnamed : KeepsHosts node (ensure_node_name py (prepared py registry id node)) :=
    keepsHosts_prepared.trans keepsHosts_ensure_node_name
  obtain ⟨hsame, hids, hrequires⟩ :=
    ensure_host_ids_spec (ensure_node_name py (prepared py registry id node))
  obtain ⟨hkeeps, hleaves⟩ :=
    promoted_spec (ensure_host_ids (ensure_node_name py (prepared py registry id node)))
  rw [hnamed.new_host_ids] at hids hrequires
  rw [leaves_ensure_node_name (by decide)] at hrequires
  refine ⟨fun k hk => ?_, hkeeps.host_ids.trans hids, hleaves.trans hrequires⟩
  exact (hkeeps.same k hk).trans ((hsame k hk).trans (hnamed.same k hk))

end ensure

section hosts

/-- Host ids survive normalizing. -/
theorem mem_coerce_of_is_host_id {xs : List Json} {h : Json} (hmem : h ∈ xs)
    (hh : is_host_id h = true) :
    h ∈ _coerce_host_list xs := by
  apply List.mem_flatMap.mpr
  refine ⟨h, hmem, ?_⟩
  cases h with
  | str s => simpa [_coerce_host_item, usable, is_host_id] using hh
  | int n => simp [_coerce_host_item, usable]
  | bool b => simp [_coerce_host_item, usable]
  | _ => simp [is_host_id] at hh

/-- The other fields give no host. -/
def OthersEmpty (node : Dict String Json) : Prop := ∀ hosts ∈ other_fields node, hosts = []

/-- No host is extracted exactly if no field has one. -/
theorem extract_eq_nil_iff_others :
    _extract_host_ids_from_node node = [] ↔
      OthersEmpty node ∧ list_hosts (getJson node "host_ids") = [] := by
  rw [extract_eq_nil_iff, host_fields_eq, List.forall_mem_cons, and_comm]
  rfl

/-- Then no nested document has one either. -/
theorem nested_fields_empty (hothers : OthersEmpty node) {d : Dict String Json}
    (hd : d ∈ nested node) :
    ∀ k ∈ _HOST_LIST_KEYS, field_hosts k (getJson d k) = [] := by
  intro k hk
  have hk' : k ∈ _NESTED_LIST_KEYS := (by decide : _HOST_LIST_KEYS ⊆ _NESTED_LIST_KEYS) hk
  exact hothers _ (List.mem_append_right _ (List.mem_flatMap.mpr
    ⟨d, hd, List.mem_map.mpr ⟨k, hk', rfl⟩⟩))

/-- Where no field gives a host, merging them gives none either. -/
theorem coerce_merged_hosts (hothers : OthersEmpty node)
    (hids : list_hosts (getJson node "host_ids") = []) :
    _coerce_host_list (merged_hosts node) = [] := by
  rw [merged_hosts, coerce_append, coerce_flatMap, List.append_eq_nil_iff]
  constructor
  · apply coerce_merged_from
    intro k hk
    obtain rfl | hk := List.mem_cons.mp hk
    · exact hids
    · exact hothers _ (List.mem_append_left _ (List.mem_map.mpr ⟨k, hk, rfl⟩))
  · rw [List.flatMap_eq_nil_iff]
    exact fun d hd => coerce_merged_from (nested_fields_empty hothers hd)

/-- Where the other fields give no host, normalizing coerces the own host ids once more. -/
theorem list_new_host_ids (hothers : OthersEmpty node) :
    list_hosts (new_host_ids node) = _coerce_host_list (list_hosts (getJson node "host_ids")) := by
  unfold new_host_ids
  by_cases hids : list_hosts (getJson node "host_ids") = []
  · have hmerged := coerce_merged_hosts hothers hids
    rw [if_neg (not_not.mpr hids), hids]
    split_ifs with hne
    · simp [hmerged, list_hosts]
    · exact hids
  · rw [if_pos hids]
    rfl

/-- A list that is not empty is merged. -/
theorem merged_hosts_ne_nil {xs : List Json} (h : some_list? (getJson node "host_ids") = some xs) :
    merged_hosts node ≠ [] := by
  intro hnil
  simp only [merged_hosts, merged_from, List.append_eq_nil_iff] at hnil
  obtain ⟨⟨hlists, -⟩, -⟩ := hnil
  cases hfound : ["target_hosts", "hosts", "host_ids"].findSome?
    (fun k => some_list? (getJson node k)) with
  | none =>
    have hnone := List.findSome?_eq_none_iff.mp hfound "host_ids" (by simp)
    rw [h] at hnone
    cases hnone
  | some ys =>
    obtain ⟨k, -, hys⟩ := List.exists_of_findSome?_eq_some hfound
    rw [hfound] at hlists
    exact (some_list?_eq_some hys).2 hlists

/-- Without any hosts the node gets no list of hosts. -/
theorem no_new_hosts (hothers : OthersEmpty node)
    (hids : list_hosts (getJson node "host_ids") = []) :
    some_list? (new_host_ids node) = none := by
  have hmerged := coerce_merged_hosts hothers hids
  unfold new_host_ids
  rw [if_neg (not_not.mpr hids)]
  split_ifs with hne
  · simp [hmerged, some_list?]
  · cases hown : some_list? (getJson node "host_ids") with
    | none => rfl
    | some xs => exact absurd (merged_hosts_ne_nil hown) hne

theorem some_list_of_ne_nil {xs : List Json} (h : xs ≠ []) : some_list? (.arr xs) = some xs := by
  cases xs with
  | nil => exact absurd rfl h
  | cons x xs => rfl

end hosts

section agreement

/-- The node says that it requires no host, only its own host list gives hosts, and these are
host objects whose ids are lists: coerced again they are gone. -/
def VanishingHosts (node : Dict String Json) : Prop :=
  getJson node "requires_host" = .bool false ∧ OthersEmpty node ∧
  list_hosts (getJson node "host_ids") ≠ [] ∧
    _coerce_host_list (_coerce_host_list (list_hosts (getJson node "host_ids"))) = []

theorem SameHosts.othersEmpty_iff (h : SameHosts node' node) :
    OthersEmpty node' ↔ OthersEmpty node := by
  rw [OthersEmpty, OthersEmpty, h.other_fields]

/-- What the second normalization leaves of the hosts. -/
theorem extract_twice_eq_nil_iff :
    _extract_host_ids_from_node
      (_ensure_node_engine_fields py registry id (_ensure_node_engine_fields py registry id node)) =
      [] ↔
      OthersEmpty node ∧ _coerce_host_list
        (_coerce_host_list (list_hosts (getJson node "host_ids"))) = [] := by
  obtain ⟨hsame₁, hids₁, -⟩ := ensure_spec py registry id node
  generalize _ensure_node_engine_fields py registry id node = node₁ at hsame₁ hids₁
  obtain ⟨hsame₂, hids₂, -⟩ := ensure_spec py registry id node₁
  rw [extract_eq_nil_iff_others, hsame₂.othersEmpty_iff, hsame₁.othersEmpty_iff]
  apply and_congr_right
  intro hothers
  rw [hids₂, list_new_host_ids (hsame₁.othersEmpty_iff.mpr hothers), hids₁,
    list_new_host_ids hothers]

theorem contains_of_get? {d : Dict String Json} {k : String} {v : Json}
    (h : Dict.get? d k = some v) :
    Dict.contains d k = true := by simp [Dict.contains, h]

/-- What the node says about hosts is kept. -/
theorem prepared_explicit {v : Json} (h : Dict.get? node "requires_host" = some v) :
    Dict.get? (prepared py registry id node) "requires_host" = some v := by
  have hkept : Dict.get? (ensure_node_type py (ensure_node_key py id node)) "requires_host" =
      some v :=
    ((leaves_ensure_node_type (by decide)).trans (leaves_ensure_node_key (by decide))).trans h
  rw [prepared, ensure_requires_host, if_pos (contains_of_get? hkept)]
  exact hkept

/-- Else the adapter class of the node type decides. -/
theorem prepared_class {nt : String} {cls : AdapterClass}
    (h : Dict.get? node "requires_host" = none) (htype : getJson node "node_type" = .str nt)
    (hcls : Dict.get? registry._adapters nt = some cls) :
    Dict.get? (prepared py registry id node) "requires_host" = some (.bool cls.requires_host) := by
  have hne : nt ≠ "" := by
    rintro rfl
    rw [registry.named] at hcls
    cases hcls
  have htype' : getJson (ensure_node_type py (ensure_node_key py id node)) "node_type" =
      .str nt := by
    have hkey : getJson (ensure_node_key py id node) "node_type" = .str nt :=
      (leaves_ensure_node_key (by decide)).getJson.trans htype
    rw [ensure_node_type, if_pos (by simp [hkey, Json.truthy, hne]), hkey]
  have hnone : Dict.get? (ensure_node_type py (ensure_node_key py id node)) "requires_host" =
      none :=
    ((leaves_ensure_node_type (by decide)).trans (leaves_ensure_node_key (by decide))).trans h
  rw [prepared, ensure_requires_host, if_neg (by simp [Dict.contains, hnone]), htype',
    Reprs.str_str, get_class, hcls]
  exact Dict.get?_set_self _ _ _

/-- Where nothing else gives a host, what is found stands in the own host list. -/
theorem mem_own_of_mem_extract (hothers : OthersEmpty node) {h : Json}
    (hmem : h ∈ _extract_host_ids_from_node node) :
    h ∈ list_hosts (getJson node "host_ids") := by
  obtain ⟨hosts, hfield, hh⟩ := extract_mem hmem
  rw [host_fields_eq] at hfield
  obtain rfl | hfield := List.mem_cons.mp hfield
  · exact hh
  · rw [hothers hosts hfield] at hh
    simp at hh

/-- The validator takes a node with hosts to require one, unless the node says no. -/
theorem resolve_eq_true (py : Reprs) (registry : UnitAdapterRegistry)
    (hexplicit : getJson node "requires_host" ≠ .bool false)
    (hextract : _extract_host_ids_from_node node ≠ []) :
    _resolve_requires_host_for_validator py registry node true = some true := by
  unfold _resolve_requires_host_for_validator
  split
  · next b hb =>
    cases b with
    | false => exact absurd hb hexplicit
    | true => rfl
  · rw [if_pos hextract]

theorem prepared_some (py : Reprs) (registry : UnitAdapterRegistry) (id : String)
    (node : Dict String Json) :
    ∃ v, Dict.get? (prepared py registry id node) "requires_host" = some v := by
  unfold prepared ensure_requires_host
  split
  · next h =>
    rw [Dict.contains, Option.isSome_iff_exists] at h
    exact h
  · split
    · exact ⟨_, Dict.get?_set_self _ _ _⟩
    · exact ⟨_, Dict.get?_set_self _ _ _⟩

/-- Once normalized, a node that has hosts of its own requires one for good. -/
theorem required_twice (py : Reprs) (registry : UnitAdapterRegistry) (id : String)
    (hhosts : list_hosts (getJson node "host_ids") ≠ []) :
    getJson (_ensure_node_engine_fields py registry id
      (_ensure_node_engine_fields py registry id node)) "requires_host" =
      .bool true := by
  obtain ⟨-, -, hrequires₁⟩ := ensure_spec py registry id node
  have hnew : some_list? (new_host_ids node) = some (list_hosts (getJson node "host_ids")) := by
    rw [new_host_ids, if_pos hhosts, some_list_of_ne_nil hhosts]
  rw [hnew, Option.isSome_some, if_pos rfl] at hrequires₁
  generalize _ensure_node_engine_fields py registry id node = node₁ at hrequires₁
  obtain ⟨-, -, hrequires₂⟩ := ensure_spec py registry id node₁
  rw [prepared_explicit hrequires₁, ite_self] at hrequires₂
  simp [getJson, hrequires₂]

/-- A node without hosts keeps what it says, or what its class says. -/
theorem required_twice_of_none (hothers : OthersEmpty node)
    (hnone : list_hosts (getJson node "host_ids") = []) :
    Dict.get? (_ensure_node_engine_fields py registry id
      (_ensure_node_engine_fields py registry id node)) "requires_host" =
      Dict.get? (prepared py registry id node) "requires_host" := by
  obtain ⟨hsame₁, hids₁, hrequires₁⟩ := ensure_spec py registry id node
  rw [no_new_hosts hothers hnone] at hrequires₁
  generalize _ensure_node_engine_fields py registry id node = node₁ at hsame₁ hids₁ hrequires₁
  obtain ⟨-, -, hrequires₂⟩ := ensure_spec py registry id node₁
  have hnone₁ : list_hosts (getJson node₁ "host_ids") = [] := by
    rw [hids₁, list_new_host_ids hothers, hnone, coerce_nil]
  rw [no_new_hosts (hsame₁.othersEmpty_iff.mpr hothers) hnone₁] at hrequires₂
  obtain ⟨v, hv⟩ := prepared_some py registry id node
  rw [hv] at hrequires₁ ⊢
  exact hrequires₂.trans (prepared_explicit hrequires₁)

variable (hstart : is_type node "start" = false) (hend : is_type node "end" = false)
variable (htype : type_message py (list_all_adapter_types registry._adapters) node = .ok none)

include hstart hend htype

/-- A node that passes V-07 has a registered type. -/
theorem registered_class :
    ∃ nt cls, getJson node "node_type" = .str nt ∧ nt ≠ "start" ∧ nt ≠ "end" ∧
    Dict.get? registry._adapters nt = some cls := by
  unfold type_message at htype
  simp only [is_type] at hstart hend
  cases hnt : getJson node "node_type" with
  | str nt =>
    rw [hnt] at hstart hend htype
    have hne : nt ≠ "start" ∧ nt ≠ "end" := by
      simp only [isText, beq_eq_false_iff_ne] at hstart hend
      exact ⟨hstart, hend⟩
    by_cases hlisted : nt ∈ list_all_adapter_types registry._adapters
    · obtain ⟨cls, hcls, -⟩ := mem_list_all_adapter_types.mp hlisted
      exact ⟨nt, cls, rfl, hne.1, hne.2, hcls⟩
    · simp [unhashable, Json.str?, hne, hlisted] at htype
  | arr _ => simp [hnt, unhashable] at htype
  | obj _ => simp [hnt, unhashable] at htype
  | _ => simp [hnt, unhashable, Json.str?] at htype

omit htype in
/-- A node that passes V-09 and requires a host has a host id. -/
theorem host_id_of_required {i : Nat} (hhosts : host_message py registry node i = none)
    (hrequired : _resolve_requires_host_for_validator py registry node true = some true) :
    ∃ h ∈ _extract_host_ids_from_node node, is_host_id h = true := by
  unfold host_message at hhosts
  simp only [is_type] at hstart hend
  simp only [hstart, hend, Bool.or_self, Bool.false_eq_true, if_false, hrequired, ne_eq,
    not_true_eq_false] at hhosts
  by_contra hnone
  push Not at hnone
  have hfilter : (_extract_host_ids_from_node node).filter is_host_id = [] :=
    List.filter_eq_nil_iff.mpr hnone
  simp [hfilter] at hhosts

/-- A node without hosts that passes V-09 requires none after normalizing either. -/
theorem not_required (id : String) {i : Nat} (hhosts : host_message py registry node i = none)
    (hnone : _extract_host_ids_from_node node = []) :
    Dict.get? (prepared py registry id node) "requires_host" ≠ some (.bool true) := by
  have hresolve : _resolve_requires_host_for_validator py registry node true ≠ some true := by
    intro hrequired
    obtain ⟨h, hmem, -⟩ := host_id_of_required hstart hend hhosts hrequired
    simp [hnone] at hmem
  obtain ⟨nt, cls, hnt, hne, hne', hcls⟩ := registered_class hstart hend htype
  cases hget : Dict.get? node "requires_host" with
  | some v =>
    rw [prepared_explicit hget]
    rintro heq
    obtain rfl := Option.some.inj heq
    simp [_resolve_requires_host_for_validator, getJson, hget] at hresolve
  | none =>
    rw [prepared_class hget hnt hcls]
    have hnull : getJson node "requires_host" = .null := by simp [getJson, hget]
    simp [_resolve_requires_host_for_validator, hnull, hnone, hnt, hne, hne', get_class,
      hcls] at hresolve
    simp [hresolve]

/-- A node other than start and end that passes V-07 and V-09 gets the placeholder of a node
without valid hosts exactly if its hosts vanish. -/
theorem placeholder_iff_vanishing {i : Nat}
    (hhosts : host_message py registry node i = none) (env : Env) (x : Execution)
    (user_id : Option Int) (attempt_no : Nat) :
    ¬HasPlaceholder (drawn_rows py registry id env x node user_id attempt_no) ↔
      ¬VanishingHosts node := by
  rw [not_iff_not, drawn_rows, hasPlaceholder_iff, expand_hosts_eq_nil_iff,
    extract_twice_eq_nil_iff]
  by_cases hothers : OthersEmpty node
  · by_cases hnone : list_hosts (getJson node "host_ids") = []
    · -- no hosts at all: the validator and the engine ask the node and its class alike
      have hextract := extract_eq_nil_iff_others.mpr ⟨hothers, hnone⟩
      have hnot := not_required hstart hend htype id hhosts hextract
      rw [← required_twice_of_none hothers hnone] at hnot
      constructor
      · rintro ⟨hrequired, -⟩
        exact absurd (get?_of_getJson hrequired (by simp)) hnot
      · exact fun hvanish => absurd hnone hvanish.2.2.1
    · have hrequired := required_twice py registry id hnone
      simp only [hrequired, true_and, VanishingHosts, hothers, hnone, ne_eq, not_false_eq_true]
      constructor
      · intro hgone
        refine ⟨?_, hgone⟩
        by_contra hexplicit
        have hextract : _extract_host_ids_from_node node ≠ [] :=
          fun hnil => hnone (extract_eq_nil_iff_others.mp hnil).2
        have hresolve := resolve_eq_true py registry hexplicit hextract
        obtain ⟨h, hmem, hid⟩ := host_id_of_required hstart hend hhosts hresolve
        have hkept :=
          mem_coerce_of_is_host_id (mem_coerce_of_is_host_id
            (mem_own_of_mem_extract hothers hmem) hid) hid
        simp [hgone] at hkept
      · exact fun hvanish => hvanish.2
  · constructor
    · exact fun h => absurd h.2.1 hothers
    · exact fun hvanish => absurd hvanish.2.1 hothers

end agreement

/-- An execution for the rows of a single node. -/
def hostedExecution : Execution where
  pk := 1
  status := .RUNNING
  fail_strategy := "fail_fast"

/-- A node as the frontend sends it, with what it says about hosts. -/
def hostedNode (fields : Dict String Json) : Dict String Json := drawn_node "build" "noop" ++ fields

/-- The rows of the node when it is triggered. -/
def hostedRows (fields : Dict String Json) : List NodeExec :=
  drawn_rows .short noop_registry "0"
    (scripted 0 (fun _ _ => running) fun _ _ => running) hostedExecution
    (hostedNode fields) none 1

/-- The host fields of a node that says it needs no host and lists a host object without an id. -/
def vanishing_fields : Dict String Json :=
  [("requires_host", .bool false), ("host_ids", .arr [.obj [("id", .arr [])]])]

theorem listed_host_placeholder :
    ¬HasPlaceholder (hostedRows [("host_ids", .arr [.str "h1"])]) := by
  have hhosts : host_message .short noop_registry (hostedNode [("host_ids", .arr [.str "h1"])]) 0 =
      none := by decide
  have hlisted := @placeholder_iff_vanishing .short noop_registry "0" _ (by decide) (by decide)
    (by decide) 0 hhosts
    (scripted 0 (fun _ _ => running) fun _ _ => running) hostedExecution none 1
  apply hlisted.mpr
  intro hvanish
  exact nomatch hvanish.1

/-- The validator accepts the node, and its only row is the placeholder. -/
theorem vanishing_host_placeholder :
    type_message .short (list_all_adapter_types noop_registry._adapters)
      (hostedNode vanishing_fields) = .ok none ∧
      host_message .short noop_registry (hostedNode vanishing_fields) 0 = none ∧
      HasPlaceholder (hostedRows vanishing_fields) := by
  refine ⟨by decide, by decide, ?_⟩
  unfold HasPlaceholder
  decide +kernel

end taurus.engine.runner
