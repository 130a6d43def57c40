import Taurus.Engine.Properties.Normalization

namespace taurus.engine.runner

open taurus.lib taurus.python taurus.engine.executor taurus.engine.registry taurus.engine.dag_validator

/-- What a host field holds: the elements of a list, or the one host of a field for one. -/
def held_hosts (k : String) (v : Json) : List Json :=
  if k ∈ _SINGULAR_HOST_KEYS then if missing v then [] else [v]
  else (some_list? v).getD []

/-- The host fields of a node with their values, in the order of the search. -/
def places (node : Dict String Json) : List (String × Json) :=
  (_HOST_LIST_KEYS.map fun k => (k, getJson node k)) ++
    (nested node).flatMap fun d => _NESTED_LIST_KEYS.map fun k => (k, getJson d k)

/-- What the fields hold that hold anything. -/
def filled (places : List (String × Json)) : List (List Json) :=
  (places.map fun place => held_hosts place.1 place.2).filter (· ≠ [])

/-- The hosts of a node, if it has any, stand in one place, the engine's own field or the only one
that holds anything, and their ids are scalars. -/
inductive OnePlace (node : Dict String Json) : Prop
  | unhosted (h : ∀ hosts ∈ host_fields node, hosts = [])
  | own (hown : list_hosts (getJson node "host_ids") ≠ [])
    (hscalar : ∀ h ∈ list_hosts (getJson node "host_ids"), Scalar h)
  | only {raw : List Json} (hraw : filled (places node) = [raw])
    (hgiven : _coerce_host_list raw ≠ [])
    (hscalar : ∀ h ∈ _coerce_host_list raw, Scalar h)

section

variable {d node : Dict String Json} {k : String} {v : Json} {raw : List Json}

/-- The places that hold something, of two lists. -/
theorem filled_append (ps qs : List (String × Json)) :
    filled (ps ++ qs) = filled ps ++ filled qs := by
  rw [filled, List.map_append, List.filter_append]
  rfl

/-- What they hold is what all places hold. -/
theorem filled_flatten (ps : List (String × Json)) :
    (filled ps).flatten = ps.flatMap fun place => held_hosts place.1 place.2 := by
  rw [filled, List.flatten_filter_ne_nil, List.flatMap_def]

theorem some_list?_getD (v : Json) : list_hosts v = _coerce_host_list ((some_list? v).getD []) := by
  cases v with
  | arr xs => cases xs <;> rfl
  | _ => rfl

/-- A field gives the ids of what it holds, if these are any. -/
theorem field_hosts_eq (h : held_hosts k v = [] ∨ _coerce_host_list (held_hosts k v) ≠ []) :
    field_hosts k v = _coerce_host_list (held_hosts k v) := by
  unfold held_hosts field_hosts at *
  split_ifs at h ⊢ with hsingular hmissing
  · rfl
  · obtain h | h := h
    · cases h
    · split
      · rename_i hnil
        exact absurd hnil h
      · rfl
  · exact some_list?_getD v

/-- The fields of a dict in the order they are merged: its lists up to the first one,
and its single hosts. -/
def merge_order (d : Dict String Json) : List (String × Json) :=
  (["target_hosts", "hosts", "host_ids"] ++ ["host_id", "host"]).map fun k => (k, getJson d k)

/-- The first of some lists that is not empty. -/
theorem findSome?_some_list (ks : List String) (f : String → Json) :
    (ks.findSome? fun k => some_list? (f k)).getD [] =
      ((ks.map fun k => (some_list? (f k)).getD []).filter (· ≠ [])).headD [] := by
  induction ks with
  | nil => rfl
  | cons k ks ih =>
    rw [List.findSome?_cons, List.map_cons]
    cases hlist : some_list? (f k) with
    | none => exact ih
    | some xs =>
      have hxs : xs ≠ [] := (some_list?_eq_some hlist).2
      rw [Option.getD_some, List.filter_cons_of_pos (by simp [hxs]), List.headD_cons]

/-- Where at most one field of a dict holds anything, all of it is merged. -/
theorem merged_from_of_filled (h : (filled (merge_order d)).length ≤ 1) :
    merged_from d = (filled (merge_order d)).flatten := by
  have hlists : (filled (["target_hosts", "hosts", "host_ids"].map
    fun k => (k, getJson d k))).headD [] =
      (["target_hosts", "hosts", "host_ids"].findSome?
      fun k => some_list? (getJson d k)).getD [] := by
    rw [findSome?_some_list]
    rfl
  have hsingles : (filled (["host_id", "host"].map fun k => (k, getJson d k))).flatten =
      ["host_id", "host"].filterMap (present? d) := by
    have hheld : ∀ k ∈ ["host_id", "host"], held_hosts k (getJson d k) = (present? d k).toList := by
      intro k hk
      unfold held_hosts present?
      rw [if_pos (show k ∈ _SINGULAR_HOST_KEYS from hk)]
      split <;> rfl
    rw [filled_flatten, List.flatMap_map, List.filterMap_eq_flatMap_toList]
    exact List.flatMap_congr hheld
  rw [merge_order, List.map_append, filled_append] at h ⊢
  rw [List.flatten_append, hsingles, merged_from, ← hlists]
  congr 1
  cases hfilled : filled (["target_hosts", "hosts", "host_ids"].map fun k => (k, getJson d k)) with
  | nil => rfl
  | cons xs rest =>
    rw [hfilled, List.cons_append, List.length_cons] at h
    have hrest : rest = [] := List.eq_nil_of_length_eq_zero (by rw [List.length_append] at h; omega)
    rw [hrest, List.headD_cons, List.flatten_singleton]

/-- With one such place the merged hosts are its own. -/
theorem flatMap_merged_from {ds : List (Dict String Json)}
    (h : (filled (ds.flatMap merge_order)).length ≤ 1) :
    ds.flatMap merged_from = (filled (ds.flatMap merge_order)).flatten := by
  induction ds with
  | nil => rfl
  | cons d ds ih =>
    rw [List.flatMap_cons, filled_append, List.length_append] at h
    rw [List.flatMap_cons, List.flatMap_cons, filled_append, List.flatten_append,
      merged_from_of_filled (by omega), ih (by omega)]

/-- So it is for the whole node. -/
theorem merged_hosts_of_only (h : filled (places node) = [raw]) : merged_hosts node = raw := by
  have hperm : (places node).Perm ((node :: nested node).flatMap merge_order) := by
    refine List.Perm.append (List.Perm.map _ (by decide))
      (List.Perm.flatMap_left _ fun d _ => List.Perm.map _ (by decide))
  have hfilled : filled ((node :: nested node).flatMap merge_order) = [raw] := by
    rw [← List.perm_singleton, ← h]
    exact ((hperm.map _).filter _).symm
  have hmerged : merged_hosts node = (node :: nested node).flatMap merged_from := rfl
  rw [hmerged, flatMap_merged_from (by rw [hfilled]; rfl), hfilled, List.flatten_singleton]

theorem first_hosts_map {fields : List (List Json)} (h : fields.filter (· ≠ []) = [raw])
    (hgiven : _coerce_host_list raw ≠ []) :
    first_hosts (fields.map _coerce_host_list) = _coerce_host_list raw := by
  induction fields with
  | nil => cases h
  | cons xs fields ih =>
    rw [List.map_cons, first_hosts_cons]
    by_cases hxs : xs = []
    · rw [List.filter_cons_of_neg (by simp [hxs])] at h
      rw [hxs, coerce_nil, if_pos rfl, ih h]
    · rw [List.filter_cons_of_pos (by simp [hxs])] at h
      obtain ⟨rfl, -⟩ := List.cons.inj h
      rw [if_neg hgiven]

/-- The search stops at the only field that holds anything. -/
theorem first_hosts_of_only (h : filled (places node) = [raw])
    (hgiven : _coerce_host_list raw ≠ []) :
    first_hosts (host_fields node) = _coerce_host_list raw := by
  have hheld : ∀ place ∈ places node, held_hosts place.1 place.2 = [] ∨
      held_hosts place.1 place.2 = raw := by
    intro place hplace
    by_cases hnil : held_hosts place.1 place.2 = []
    · exact Or.inl hnil
    · have hmem : held_hosts place.1 place.2 ∈ filled (places node) :=
        List.mem_filter.mpr ⟨List.mem_map_of_mem hplace, by simpa using hnil⟩
      rw [h, List.mem_singleton] at hmem
      exact Or.inr hmem
  have hfields : host_fields node = (places node).map fun place => field_hosts place.1 place.2 := by
    rw [places, List.map_append, List.map_map, List.map_flatMap]
    simp only [List.map_map]
    rfl
  have hcoerced : host_fields node =
      ((places node).map fun place => held_hosts place.1 place.2).map _coerce_host_list := by
    rw [hfields, List.map_map]
    refine List.map_congr_left fun place hplace =>
      field_hosts_eq ((hheld place hplace).imp_right fun heq => ?_)
    rw [heq]
    exact hgiven
  rw [hcoerced, first_hosts_map h hgiven]

/-- The ids that are kept are those of the one place. -/
theorem OnePlace.kept (h : OnePlace node) (hhosted : _extract_host_ids_from_node node ≠ []) :
    kept_ids node ≠ [] ∧ (∀ x ∈ kept_ids node, Scalar x) ∧
      _extract_host_ids_from_node node = kept_ids node := by
  have hextract : _extract_host_ids_from_node node = first_hosts (host_fields node) := rfl
  rw [hextract] at hhosted ⊢
  cases h with
  | unhosted h => exact absurd ((extract_eq_nil_iff node).mpr h) hhosted
  | own hown hscalar =>
    have hkept : kept_ids node = list_hosts (getJson node "host_ids") := if_pos hown
    rw [hkept, host_fields_eq, first_hosts_cons, if_neg hown]
    exact ⟨hown, hscalar, rfl⟩
  | only hraw hgiven hscalar =>
    have hfirst := first_hosts_of_only hraw hgiven
    have hkept : kept_ids node = first_hosts (host_fields node) := by
      unfold kept_ids
      split_ifs with hown
      · rw [host_fields_eq, first_hosts_cons, if_neg hown]
      · rw [merged_hosts_of_only hraw, hfirst]
    rw [hkept, hfirst]
    exact ⟨hgiven, hscalar, rfl⟩

end

end taurus.engine.runner
