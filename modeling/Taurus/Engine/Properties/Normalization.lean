import Taurus.Engine.Properties.KeptHosts

namespace taurus.engine.runner

open taurus.lib taurus.python taurus.engine.executor taurus.engine.registry

/-- An id that coercing leaves alone: no list, and no object with the field of an id. -/
def Scalar (h : Json) : Prop := (∀ xs, h ≠ .arr xs) ∧ _coerce_host_item h = h

/-- The kept ids are left alone by a second pass: all of them are scalars; or none of them gives an
id any more, and merging all places again gives the same ones. -/
def Settled (node : Dict String Json) : Prop :=
  (∀ h ∈ kept_ids node, Scalar h) ∨
    (_coerce_host_list (kept_ids node) = [] ∧
      _coerce_host_list (merged_hosts (Dict.set node "host_ids" (.arr (kept_ids node)))) =
      kept_ids node)

section coercing

/-- What a document holds is smaller than the document. -/
theorem sizeOf_of_get? {kvs : Dict String Json} {k : String} {v : Json}
    (h : Dict.get? kvs k = some v) :
    sizeOf v < sizeOf (Json.obj kvs) := by
  have hlist : sizeOf v < sizeOf kvs := by
    induction kvs with
    | nil => cases h
    | cons kv rest ih =>
      obtain ⟨k', v'⟩ := kv
      rw [Dict.get?_cons] at h
      simp only [List.cons.sizeOf_spec, Prod.mk.sizeOf_spec]
      split_ifs at h with hk
      · obtain rfl := Option.some.inj h
        omega
      · have := ih h
        omega
  rw [Json.obj.sizeOf_spec]
  omega

theorem get?_of_present {d : Dict String Json} {k : String} {v : Json} (h : present? d k = some v) :
    Dict.get? d k = some v := by
  unfold present? at h
  split_ifs at h with hmissing
  refine get?_of_getJson (Option.some.inj h) ?_
  rintro rfl
  rw [Option.some.inj h] at hmissing
  exact hmissing rfl

/-- Coercing makes an item smaller, unless it leaves it alone. -/
theorem coerce_item_lt {h : Json} (hne : _coerce_host_item h ≠ h) :
    sizeOf (_coerce_host_item h) < sizeOf h := by
  cases h with
  | arr xs =>
    have hlist : 0 < sizeOf xs := by cases xs <;> simp
    rw [_coerce_host_item, Json.arr.sizeOf_spec, Json.null.sizeOf_spec]
    omega
  | obj kvs =>
    rw [_coerce_host_item] at hne ⊢
    cases hid : _HOST_OBJECT_ID_KEYS.findSome? (present? kvs) with
    | none => simp [hid] at hne
    | some v =>
      obtain ⟨k, -, hk⟩ := List.exists_of_findSome?_eq_some hid
      exact sizeOf_of_get? (get?_of_present hk)
  | _ => exact absurd rfl hne

/-- The size of the items of a list, each counted once more. -/
noncomputable def total (xs : List Json) : Nat := (xs.map fun h => sizeOf h + 1).sum

theorem total_append (xs ys : List Json) : total (xs ++ ys) = total xs + total ys := by simp [total]

/-- Filtering does not make a list of hosts larger. -/
theorem total_filter_le (p : Json → Bool) (xs : List Json) : total (xs.filter p) ≤ total xs := by
  induction xs with
  | nil => exact le_rfl
  | cons x xs ih =>
    simp only [total, List.map_cons, List.sum_cons, List.filter_cons] at ih ⊢
    split
    · rw [List.map_cons, List.sum_cons]
      omega
    · omega

theorem total_coerced_le (xs : List Json) : total (xs.map _coerce_host_item) ≤ total xs := by
  induction xs with
  | nil => exact le_rfl
  | cons x xs ih =>
    simp only [total, List.map_cons, List.sum_cons] at ih ⊢
    by_cases hx : _coerce_host_item x = x
    · rw [hx]
      omega
    · have := coerce_item_lt hx
      omega

theorem total_lt_arr (xs : List Json) : total xs < sizeOf (Json.arr xs) := by
  have hlist : sizeOf xs = total xs + 1 := by
    induction xs with
    | nil => rfl
    | cons x xs ih =>
      rw [List.cons.sizeOf_spec, ih]
      simp only [total, List.map_cons, List.sum_cons]
      omega
  rw [Json.arr.sizeOf_spec, hlist]
  omega

/-- Hosts are coerced one at a time. -/
theorem coerce_cons (x : Json) (xs : List Json) :
    _coerce_host_list (x :: xs) = _coerce_host_list [x] ++ _coerce_host_list xs := by
  rw [← coerce_append]
  rfl

theorem coerce_one {h : Json} (hlist : ∀ xs, h ≠ .arr xs) :
    _coerce_host_list [h] = [_coerce_host_item h].filter usable := by
  rw [_coerce_host_list, List.flatMap_singleton]
  cases h with
  | arr xs => exact absurd rfl (hlist xs)
  | _ => rfl

theorem coerce_one_list (xs : List Json) :
    _coerce_host_list [.arr xs] = (xs.map _coerce_host_item).filter usable := by
  rw [_coerce_host_list, List.flatMap_singleton]

theorem total_singleton (h : Json) : total [h] = sizeOf h + 1 := by simp [total]

/-- One item gives less than itself, unless it is a scalar. -/
theorem total_coerce_lt {h : Json} (hnot : ¬ Scalar h) :
    total (_coerce_host_list [h]) < sizeOf h + 1 := by
  by_cases hlist : ∃ xs, h = .arr xs
  · obtain ⟨xs, rfl⟩ := hlist
    rw [coerce_one_list]
    have hfilter := total_filter_le usable (xs.map _coerce_host_item)
    have hcoerced := total_coerced_le xs
    have hlt := total_lt_arr xs
    omega
  · have hlist : ∀ xs, h ≠ .arr xs := fun xs hxs => hlist ⟨xs, hxs⟩
    have hlt := coerce_item_lt fun hsame => hnot ⟨hlist, hsame⟩
    have hfilter := total_filter_le usable [_coerce_host_item h]
    rw [coerce_one hlist]
    rw [total_singleton] at hfilter
    omega

/-- A usable scalar gives itself. -/
theorem coerce_scalar {h : Json} (hscalar : Scalar h) (husable : usable h = true) :
    _coerce_host_list [h] = [h] := by
  rw [coerce_one hscalar.1, hscalar.2, List.filter_cons, if_pos husable, List.filter_nil]

/-- Coercing a list of usable ids leaves it alone exactly if all of them are scalars. -/
theorem coerce_eq_self_iff {xs : List Json} (husable : ∀ h ∈ xs, usable h = true) :
    _coerce_host_list xs = xs ↔ ∀ h ∈ xs, Scalar h := by
  have hle : ∀ ys : List Json, (∀ h ∈ ys, usable h = true) →
      total (_coerce_host_list ys) ≤ total ys := by
    intro ys hys
    induction ys with
    | nil => exact le_rfl
    | cons y ys ih =>
      have hrest := ih fun h hh => hys h (List.mem_cons_of_mem _ hh)
      have hhead : total (_coerce_host_list [y]) ≤ total [y] := by
        by_cases hy : Scalar y
        · rw [coerce_scalar hy (hys y List.mem_cons_self)]
        · have := total_coerce_lt hy
          rw [total_singleton]
          omega
      have hsplit : total (y :: ys) = total [y] + total ys := total_append [y] ys
      rw [coerce_cons, total_append, hsplit]
      omega
  constructor
  · intro hsame h hh
    by_contra hnot
    obtain ⟨before, after, rfl⟩ := List.append_of_mem hh
    have hbefore := hle before fun h hh => husable h (List.mem_append_left _ hh)
    have hafter :=
      hle after fun h hh => husable h (List.mem_append_right _ (List.mem_cons_of_mem _ hh))
    have hlt := total_coerce_lt hnot
    have htotal := congrArg total hsame
    have hsplit : total (h :: after) = total [h] + total after := total_append [h] after
    rw [coerce_append, coerce_cons, total_append, total_append, total_append, hsplit,
      total_singleton] at htotal
    omega
  · intro hscalar
    induction xs with
    | nil => rfl
    | cons x xs ih =>
      have hrest := ih (fun h hh => husable h (List.mem_cons_of_mem _ hh)) fun h hh =>
        hscalar h (List.mem_cons_of_mem _ hh)
      rw [coerce_cons, coerce_scalar (hscalar x List.mem_cons_self) (husable x List.mem_cons_self),
        hrest]
      rfl

end coercing

section control

variable {node node' : Dict String Json} {k : String} {coerce : Bool}

/-- Nodes with the same hosts have the same nested documents. -/
theorem SameHosts.nested (h : SameHosts node' node) :
    executor.nested node' = executor.nested node := by
  have hall := h
  simp only [SameHosts, host_keys, List.forall_mem_cons] at hall
  obtain ⟨-, -, -, -, h₅, h₆, -⟩ := hall
  simp only [executor.nested, config, sub_dict, h₅, h₆]

/-- Nothing can be lifted to a control field any more. -/
def Held (k : String) (coerce : Bool) (node : Dict String Json) : Prop :=
  gives_way coerce (getJson node k) = true →
  ∀ found, (nested node).findSome? (present? · k) = some found →
    coerce = true ∧ int_of? found = none

/-- A field that is held is not promoted again. -/
theorem Held.promote (h : Held k coerce node) : runner.promote k coerce node = node := by
  unfold runner.promote
  cases hgives : gives_way coerce (getJson node k) with
  | false => rfl
  | true =>
    simp only [Bool.not_true, Bool.false_eq_true, if_false]
    cases hfound : (nested node).findSome? fun d => present? d k with
    | none => rfl
    | some found =>
      obtain ⟨hcoerce, hint⟩ := h hgives found hfound
      simp [hcoerce, hint]

/-- It stays held while the hosts and the field stay. -/
theorem Held.congr (h : Held k coerce node) (hk : getJson node' k = getJson node k)
    (hsame : SameHosts node' node) :
    Held k coerce node' := by
  rw [Held, hk, hsame.nested]
  exact h

theorem not_missing_of_present {d : Dict String Json} {v : Json} (h : present? d k = some v) :
    missing v = false := by
  unfold present? at h
  split_ifs at h with hmissing
  obtain rfl := Option.some.inj h
  simpa using hmissing

/-- After lifting a field it is so. -/
theorem held_promote (hk : k ∉ host_keys) (hne : k ≠ "host_ids") :
    Held k coerce (promote k coerce node) := by
  have hsame := (keepsHosts_promote node k coerce hk hne).same
  intro hgives found hfound
  rw [hsame.nested] at hfound
  unfold promote at hgives
  cases hway : gives_way coerce (getJson node k) with
  | false => simp [hway] at hgives
  | true =>
    simp only [hway, Bool.not_true, Bool.false_eq_true, if_false, hfound] at hgives
    cases coerce with
    | false =>
      obtain ⟨d, -, hd⟩ := List.exists_of_findSome?_eq_some hfound
      simp [getJson_set, gives_way, not_missing_of_present hd] at hgives
    | true =>
      refine ⟨rfl, ?_⟩
      cases hint : int_of? found with
      | none => rfl
      | some n => simp [hint, getJson_set, gives_way, missing] at hgives

end control

section fields

variable {py : Reprs} {registry : UnitAdapterRegistry} {id : String} {node : Dict String Json}

/-- What the steps before and after the hosts leave to do: nothing. -/
structure Filled (node : Dict String Json) : Prop where
  node_key : (getJson node "node_key").truthy = true
  node_type : (getJson node "node_type").truthy = true
  requires_host : Dict.contains node "requires_host" = true
  node_name : (getJson node "node_name").truthy = true
  fail_strategy : Held "fail_strategy" false node
  max_retries : Held "max_retries" true node
  retry_delay_ms : Held "retry_delay_ms" true node

theorem truthy_of_str {v : Json} (h : v.truthy = true) : (Json.str (py.str v)).truthy = true := by
  have hne : py.str v ≠ "" := by
    intro hempty
    obtain ⟨s, rfl, hs⟩ := (py.str_blank_iff v).mp (by rw [hempty]; rfl)
    rw [Reprs.str_str] at hempty
    subst hempty
    exact absurd h (by decide)
  simpa [Json.truthy] using hne

theorem truthy_orElse {v w : Json} (h : w.truthy = true) : (orElse v w).truthy = true := by
  unfold orElse
  split
  · assumption
  · exact h

/-- A node has a key once it is ensured. -/
theorem node_key_truthy : (getJson (ensure_node_key py id node) "node_key").truthy = true := by
  unfold ensure_node_key
  split
  · assumption
  · rw [getJson_set, if_pos rfl]
    apply truthy_of_str
    apply truthy_orElse
    simp [Json.truthy]

theorem node_type_truthy : (getJson (ensure_node_type py node) "node_type").truthy = true := by
  unfold ensure_node_type
  split
  · assumption
  · rw [getJson_set, if_pos rfl]
    apply truthy_of_str
    exact truthy_orElse (truthy_orElse (truthy_orElse rfl))

theorem truthy_of_named {d : Dict String Json} {k : String} {v : Json} (h : named? d k = some v) :
    v.truthy = true := by
  unfold named? at h
  split at h
  · split_ifs at h with hs
    obtain rfl := Option.some.inj h
    simpa [Json.truthy] using hs
  · cases h

theorem node_name_truthy (hkey : (getJson node "node_key").truthy = true) :
    (getJson (ensure_node_name py node) "node_name").truthy = true := by
  unfold ensure_node_name
  split
  · assumption
  · rw [getJson_set, if_pos rfl]
    apply truthy_of_str
    cases hraw : (["node_name", "title", "name", "label"].findSome? (named? node)).or
        ((named? (config node) "node_name").or (named? (sub_dict node "data") "label")) with
    | none => exact hkey
    | some v =>
      rw [Option.getD_some]
      obtain h | ⟨-, h⟩ := Option.or_eq_some_iff.mp hraw
      · obtain ⟨k, -, hk⟩ := List.exists_of_findSome?_eq_some h
        exact truthy_of_named hk
      · rcases Option.or_eq_some_iff.mp h with h | ⟨-, h⟩ <;> exact truthy_of_named h

/-- Lifting one field leaves another one held. -/
theorem Held.after_promote {k k₂ : String} {coerce coerce₂ : Bool} (h : Held k coerce node)
    (hne : k₂ ≠ k) (hk : k₂ ∉ host_keys) (hids : k₂ ≠ "host_ids") :
    Held k coerce (runner.promote k₂ coerce₂ node) :=
  h.congr (leaves_promote node k₂ coerce₂ hne).getJson
    (keepsHosts_promote node k₂ coerce₂ hk hids).same

/-- The three promoted fields are held afterwards. -/
theorem held_promoted (node : Dict String Json) :
    let node' :=
  promote "retry_delay_ms" true (promote "max_retries" true (promote "fail_strategy" false node))
    Held "fail_strategy" false node' ∧ Held "max_retries" true node' ∧
      Held "retry_delay_ms" true node' := by
  intro node'
  have hstrategy : Held "fail_strategy" false (promote "fail_strategy" false node) :=
    held_promote (by decide) (by decide)
  have hretries : Held "max_retries" true
      (promote "max_retries" true (promote "fail_strategy" false node)) :=
    held_promote (by decide) (by decide)
  refine ⟨?_, ?_, held_promote (by decide) (by decide)⟩
  · exact (hstrategy.after_promote (by decide) (by decide) (by decide)).after_promote (by decide)
      (by decide) (by decide)
  · exact hretries.after_promote (by decide) (by decide) (by decide)

/-- One pass over a node fills it. -/
theorem filled_ensure (py : Reprs) (registry : UnitAdapterRegistry) (id : String)
    (node : Dict String Json) :
    Filled (_ensure_node_engine_fields py registry id node) := by
  obtain ⟨-, -, hrequires⟩ := ensure_spec py registry id node
  obtain ⟨v, hv⟩ := prepared_some py registry id node
  have hkey := leaves_node_key py registry id node
  have htype := leaves_ensure_engine_fields py registry id node
  have hkey₁ : (getJson (prepared py registry id node) "node_key").truthy = true := by
    have hleaves : Leaves "node_key" (ensure_node_key py id node) (prepared py registry id node) :=
      (leaves_ensure_node_type (by decide)).next (leaves_ensure_requires_host (by decide))
    rw [hleaves.getJson]
    exact node_key_truthy
  set named := ensure_node_name py (prepared py registry id node) with hnamed
  have hname : (getJson named "node_name").truthy = true := node_name_truthy hkey₁
  have hensure : _ensure_node_engine_fields py registry id node =
      promote "retry_delay_ms" true
      (promote "max_retries" true (promote "fail_strategy" false (ensure_host_ids named))) := rfl
  have hleaves : Leaves "node_name" named (_ensure_node_engine_fields py registry id node) := by
    have hids : Leaves "node_name" named (ensure_host_ids named) :=
      leaves_ensure_host_ids (by decide) (by decide)
    have hstrategy := hids.next (leaves_promote _ "fail_strategy" false (by decide))
    have hretries := hstrategy.next (leaves_promote _ "max_retries" true (by decide))
    exact hretries.next (leaves_promote _ "retry_delay_ms" true (by decide))
  obtain ⟨hstrategy, hretries, hdelay⟩ := held_promoted (ensure_host_ids named)
  rw [← hensure] at hstrategy hretries hdelay
  refine ⟨?_, ?_, ?_, ?_, hstrategy, hretries, hdelay⟩
  · rw [hkey.getJson]
    exact node_key_truthy
  · rw [htype.getJson]
    exact node_type_truthy
  · split_ifs at hrequires
    · exact contains_of_get? hrequires
    · exact contains_of_get? (hrequires.trans hv)
  · rw [hleaves.getJson]
    exact hname

/-- On a filled node only the hosts are looked at again. -/
theorem ensure_of_filled (h : Filled node) :
    _ensure_node_engine_fields py registry id node = ensure_host_ids node := by
  have hkey : ensure_node_key py id node = node := by rw [ensure_node_key, if_pos h.node_key]
  have htype : ensure_node_type py node = node := by rw [ensure_node_type, if_pos h.node_type]
  have hrequires : ensure_requires_host py registry node = node := by
    rw [ensure_requires_host, if_pos h.requires_host]
  have hname : ensure_node_name py node = node := by rw [ensure_node_name, if_pos h.node_name]
  have hsame := (ensure_host_ids_spec node).1
  have hstrategy : Held "fail_strategy" false (ensure_host_ids node) :=
    h.fail_strategy.congr (leaves_ensure_host_ids (by decide) (by decide)).getJson hsame
  have hretries : Held "max_retries" true (ensure_host_ids node) :=
    h.max_retries.congr (leaves_ensure_host_ids (by decide) (by decide)).getJson hsame
  have hdelay : Held "retry_delay_ms" true (ensure_host_ids node) :=
    h.retry_delay_ms.congr (leaves_ensure_host_ids (by decide) (by decide)).getJson hsame
  simp only [_ensure_node_engine_fields, hkey, htype, hrequires, hname, hstrategy.promote,
    hretries.promote, hdelay.promote]

end fields

section hosts

variable {py : Reprs} {registry : UnitAdapterRegistry} {id : String} {node : Dict String Json}

/-- The hosts written to a node are its own and the merged ones. -/
theorem get?_host_ids (node : Dict String Json) :
    Dict.get? (ensure_host_ids node) "host_ids" =
      if list_hosts (getJson node "host_ids") ≠ [] ∨
        merged_hosts node ≠ [] then some (new_host_ids node)
      else Dict.get? node "host_ids" := by
  have hrequire : ∀ n : Dict String Json,
      Dict.get? (if (some_list? (getJson n "host_ids")).isSome then Dict.set n "requires_host"
      (.bool true) else n)
        "host_ids" = Dict.get? n "host_ids" := by
    intro n
    split
    · rw [Dict.get?_set_ne _ _ (by decide)]
    · rfl
  unfold ensure_host_ids
  simp only [hrequire]
  split
  · rw [Dict.get?_set_self]
  · rfl

/-- The engine's own field once ids are kept. -/
theorem new_host_ids_of_kept (h : kept_ids node ≠ []) :
    new_host_ids node = .arr (kept_ids node) := by
  unfold kept_ids at h ⊢
  unfold new_host_ids
  split_ifs at h ⊢ with hown hmerged
  · rfl
  · rfl
  · rw [not_not.mp hmerged] at h
    exact absurd coerce_nil h

/-- A node that keeps no host has none of its own and none merged. -/
theorem own_nil_of_kept (h : kept_ids node = []) :
    list_hosts (getJson node "host_ids") = [] ∧ _coerce_host_list (merged_hosts node) = [] := by
  unfold kept_ids at h
  split_ifs at h with hown
  · exact absurd h hown
  · exact ⟨not_not.mp hown, h⟩

/-- Where no ids are kept, merging all places of the normalized node gives none either. -/
theorem kept_ids_ensure (h : kept_ids node = []) :
    kept_ids (_ensure_node_engine_fields py registry id node) = [] := by
  obtain ⟨hsame, hids, -⟩ := ensure_spec py registry id node
  obtain ⟨-, hmerged⟩ := own_nil_of_kept h
  generalize _ensure_node_engine_fields py registry id node = node' at hsame hids
  have hown : list_hosts (getJson node' "host_ids") = [] := by
    rw [hids, list_hosts_new, h, coerce_nil]
  have hlist : some_list? (getJson node' "host_ids") = none := by
    rw [hids, ← Option.not_isSome_iff_eq_none, some_list_new_iff, not_not]
    exact h
  rw [merged_hosts, coerce_append, List.append_eq_nil_iff] at hmerged
  obtain ⟨htop, hnested⟩ := hmerged
  rw [kept_ids, if_neg (not_not.mpr hown), merged_hosts, hsame.nested, coerce_append, hnested,
    List.append_nil]
  rw [merged_from, coerce_append, List.append_eq_nil_iff] at htop ⊢
  have hall := hsame
  simp only [SameHosts, host_keys, List.forall_mem_cons] at hall
  obtain ⟨h₁, h₂, h₃, h₄, -⟩ := hall
  constructor
  · simp only [List.findSome?_cons, List.findSome?_nil, h₁, h₂, hlist] at htop ⊢
    cases htarget : some_list? (getJson node "target_hosts") with
    | some xs => simpa [htarget] using htop.1
    | none =>
      cases hhosts : some_list? (getJson node "hosts") with
      | some xs => simpa [htarget, hhosts] using htop.1
      | none => rfl
  · simp only [List.filterMap_cons, List.filterMap_nil, present?, h₃, h₄] at htop ⊢
    exact htop.2

/-- The second pass leaves the engine's own field alone exactly if the kept ids are settled. -/
theorem host_ids_kept_iff (py : Reprs) (registry : UnitAdapterRegistry) (id : String)
    (node : Dict String Json) :
    Dict.get? (ensure_host_ids (_ensure_node_engine_fields py registry id node)) "host_ids" =
        Dict.get? (_ensure_node_engine_fields py registry id node) "host_ids" ↔ Settled node := by
  obtain ⟨hsame, hids, -⟩ := ensure_spec py registry id node
  have hnone := @kept_ids_ensure py registry id node
  generalize _ensure_node_engine_fields py registry id node = node' at hsame hids hnone
  rw [get?_host_ids]
  by_cases hkept : kept_ids node = []
  · have hsettled : Settled node := Or.inl (by simp [hkept])
    refine iff_of_true ?_ hsettled
    obtain ⟨hown', hmerged'⟩ := own_nil_of_kept (hnone hkept)
    obtain ⟨hown, hmerged⟩ := own_nil_of_kept hkept
    split_ifs with hset
    · have hne : merged_hosts node' ≠ [] := hset.resolve_left (not_not.mpr hown')
      have hne₀ : merged_hosts node ≠ [] := by
        intro hnil
        have hsame_ids : getJson node' "host_ids" = getJson node "host_ids" := by
          rw [hids, new_host_ids, if_neg (not_not.mpr hown), if_neg (not_not.mpr hnil)]
        exact hne ((KeepsHosts.merged_hosts ⟨hsame, hsame_ids⟩).trans hnil)
      have hget : getJson node' "host_ids" = .arr [] := by
        rw [hids, new_host_ids, if_neg (not_not.mpr hown), if_pos hne₀, hmerged]
      rw [new_host_ids, if_neg (not_not.mpr hown'), if_pos hne, hmerged',
        get?_of_getJson hget (by simp)]
    · rfl
  · have hnew := new_host_ids_of_kept hkept
    have hget : getJson node' "host_ids" = .arr (kept_ids node) := by rw [hids, hnew]
    have hne : merged_hosts node' ≠ [] :=
      merged_hosts_ne_nil (by rw [hget, some_list_of_ne_nil hkept])
    have hown : list_hosts (getJson node' "host_ids") = _coerce_host_list (kept_ids node) := by
      rw [hget]; rfl
    have hcoerce := @coerce_eq_self_iff (kept_ids node) fun h hh => usable_of_mem_kept hh
    have hkeeps : KeepsHosts (Dict.set node "host_ids" (.arr (kept_ids node))) node' := by
      refine ⟨fun k hk => ?_, ?_⟩
      · rw [hsame k hk, SameHosts.set (by decide) k hk]
      · rw [hget, getJson_set, if_pos rfl]
    have hmerged := hkeeps.merged_hosts
    rw [if_pos (Or.inr hne), get?_of_getJson hget (by simp), Option.some.injEq, new_host_ids, hown,
      if_pos hne, Settled, ← hcoerce, hmerged]
    split_ifs with hgone
    · simp [hgone]
    · rw [not_not.mp hgone]
      simp [Ne.symm hkept]

/-- A second pass finds no ids where the first has kept none. -/
theorem requires_host_kept (py : Reprs) (registry : UnitAdapterRegistry) (id : String)
    (node : Dict String Json) :
    Dict.get? (ensure_host_ids (_ensure_node_engine_fields py registry id node)) "requires_host" =
      Dict.get? (_ensure_node_engine_fields py registry id node) "requires_host" := by
  obtain ⟨-, -, hrequires⟩ := ensure_spec py registry id node
  rw [(ensure_host_ids_spec _).2.2]
  split_ifs with hsome
  · have hkept : kept_ids node ≠ [] :=
      fun hnil => (some_list_new_iff _).mp hsome (kept_ids_ensure hnil)
    rw [hrequires, if_pos ((some_list_new_iff node).mpr hkept)]
  · rfl

end hosts

/-- Normalizing a node a second time leaves every field alone exactly if its kept ids
are settled. -/
theorem normalized_twice_iff (py : Reprs) (registry : UnitAdapterRegistry) (id : String)
    (node : Dict String Json) :
    (∀ k, Dict.get? (_ensure_node_engine_fields py registry id
      (_ensure_node_engine_fields py registry id node)) k =
      Dict.get? (_ensure_node_engine_fields py registry id node) k) ↔ Settled node := by
  rw [ensure_of_filled (filled_ensure py registry id node), ← host_ids_kept_iff py registry id node]
  constructor
  · exact fun h => h "host_ids"
  · intro hids k
    by_cases hk : k = "host_ids"
    · rw [hk, hids]
    · by_cases hr : k = "requires_host"
      · subst hr
        exact requires_host_kept py registry id node
      · exact leaves_ensure_host_ids (Ne.symm hk) (Ne.symm hr)

/-- A host as a selection component hands it over, with a list for its value. -/
def selected_node : Dict String Json :=
  hostedNode [("host_ids", .arr [.obj [("value", .arr [.str "h1", .str "h2"])]])]

/-- The first pass keeps the list, and the second pass takes it apart. -/
theorem selected_hosts_taken_apart :
    ¬ ∀ k, Dict.get? (_ensure_node_engine_fields .short dag_validator.noop_registry "0"
        (_ensure_node_engine_fields .short dag_validator.noop_registry "0" selected_node)) k =
      Dict.get? (_ensure_node_engine_fields .short dag_validator.noop_registry "0" selected_node) k := by
  intro h
  have hlength := congrArg (fun v => (v.bind some_list?).map List.length) (h "host_ids")
  revert hlength
  decide +kernel

end taurus.engine.runner
