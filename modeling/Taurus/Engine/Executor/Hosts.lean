import Taurus.Python.Json

namespace taurus.engine.executor

open taurus.lib taurus.python

/-- The host fields of the top level, in the order they are looked at. -/
def _HOST_LIST_KEYS : List String := ["host_ids", "target_hosts", "hosts", "host_id", "host"]

/-- The same fields under `data.config`, `data` and `params`. -/
def _NESTED_LIST_KEYS : List String := ["target_hosts", "host_ids", "hosts", "host_id", "host"]

def _SINGULAR_HOST_KEYS : List String := ["host_id", "host"]

def _HOST_OBJECT_ID_KEYS : List String := ["id", "host_id", "pk", "uuid", "key", "value", "code"]

/-- `d.get(k)`, unless it is None or empty. -/
def present? (d : Dict String Json) (k : String) : Option Json :=
  if missing (getJson d k) then none else some (getJson d k)

/-- The id of one element of a host list; None for a list. -/
def _coerce_host_item : Json → Json
  | .null => .null
  | .arr _ => .null
  | .obj kvs => (_HOST_OBJECT_ID_KEYS.findSome? (present? kvs)).getD (.obj kvs)
  | v => v

/-- Neither None nor a blank text. -/
def usable : Json → Bool
  | .null => false
  | .str s => !(strip s.toList).isEmpty
  | _ => true

/-- The ids of a host list, with nested lists flattened once. -/
def _coerce_host_list (raw : List Json) : List Json :=
  raw.flatMap fun item =>
    match item with
    | .arr subs => (subs.map _coerce_host_item).filter usable
    | item => [_coerce_host_item item].filter usable

def list_hosts : Json → List Json
  | .arr xs => _coerce_host_list xs
  | _ => []

/-- The hosts one field gives: a field for one host may hold a list too. -/
def field_hosts (k : String) (v : Json) : List Json :=
  if k ∈ _SINGULAR_HOST_KEYS then
    if missing v then []
    else match _coerce_host_list [v] with
      | [] => list_hosts v
      | coerced => coerced
  else list_hosts v

/-- `d.get(k)` if it is a dict; the empty dict has no fields either. -/
def sub_dict (d : Dict String Json) (k : String) : Dict String Json := ((getJson d k).obj?).getD []

/-- `node["data"]["config"]` -/
def config (node : Dict String Json) : Dict String Json := sub_dict (sub_dict node "data") "config"

/-- The dicts below the top level that may name hosts. -/
def nested (node : Dict String Json) : List (Dict String Json) :=
  [config node, sub_dict node "data", sub_dict node "params"]

/-- What each host field gives, in the order of the search. -/
def host_fields (node : Dict String Json) : List (List Json) :=
  (_HOST_LIST_KEYS.map fun k => field_hosts k (getJson node k)) ++
    (nested node).flatMap fun d => _NESTED_LIST_KEYS.map fun k => field_hosts k (getJson d k)

/-- The hosts of the first field that gives any; none for a node without. -/
def _extract_host_ids_from_node (node : Dict String Json) : List Json :=
  ((host_fields node).find? (· matches _ :: _)).getD []

@[simp] theorem coerce_nil : _coerce_host_list [] = [] := rfl

@[simp] theorem coerce_append (xs ys : List Json) :
    _coerce_host_list (xs ++ ys) = _coerce_host_list xs ++ _coerce_host_list ys :=
  List.flatMap_append

/-- A node has no hosts when no field gives any. -/
theorem extract_eq_nil_iff (node : Dict String Json) :
    _extract_host_ids_from_node node = [] ↔ ∀ hosts ∈ host_fields node, hosts = [] := by
  unfold _extract_host_ids_from_node
  cases hfind : (host_fields node).find? (· matches _ :: _) with
  | none =>
    simp only [Option.getD_none, true_iff]
    intro hosts hmem
    have hnot := List.find?_eq_none.mp hfind hosts hmem
    cases hosts with
    | nil => rfl
    | cons h rest => simp at hnot
  | some hosts =>
    have hsome := List.find?_some hfind
    have hmem := List.mem_of_find?_eq_some hfind
    cases hosts with
    | nil => simp at hsome
    | cons h rest =>
      simp only [Option.getD_some, reduceCtorEq, false_iff]
      intro hall
      exact absurd (hall _ hmem) (by simp)

/-- A host comes from one of the fields. -/
theorem extract_mem {node : Dict String Json} {h : Json}
    (hmem : h ∈ _extract_host_ids_from_node node) :
    ∃ hosts ∈ host_fields node, h ∈ hosts := by
  unfold _extract_host_ids_from_node at hmem
  cases hfind : (host_fields node).find? (· matches _ :: _) with
  | none => simp [hfind] at hmem
  | some hosts =>
    rw [hfind, Option.getD_some] at hmem
    exact ⟨hosts, List.mem_of_find?_eq_some hfind, hmem⟩

/-- What a host list gives is usable. -/
theorem usable_of_mem_coerce {xs : List Json} {h : Json} (hmem : h ∈ _coerce_host_list xs) :
    usable h = true := by
  obtain ⟨item, _, hitem⟩ := List.mem_flatMap.mp hmem
  cases item <;> exact (List.mem_filter.mp hitem).2

/-- A field gives usable hosts only. -/
theorem usable_of_mem_field {k : String} {v h : Json} (hmem : h ∈ field_hosts k v) :
    usable h = true := by
  have hlist : h ∈ list_hosts v → usable h = true := by
    intro hmem
    cases v with
    | arr xs => exact usable_of_mem_coerce hmem
    | _ => simp [list_hosts] at hmem
  unfold field_hosts at hmem
  split_ifs at hmem with hsingle hmissing
  · simp at hmem
  · split at hmem
    · exact hlist hmem
    · next coerced => exact usable_of_mem_coerce hmem
  · exact hlist hmem

/-- So what is found on a node is usable. -/
theorem usable_of_mem_extract {node : Dict String Json} {h : Json}
    (hmem : h ∈ _extract_host_ids_from_node node) :
    usable h = true := by
  obtain ⟨hosts, hfield, hh⟩ := extract_mem hmem
  obtain hfield | hfield := List.mem_append.mp hfield
  · obtain ⟨k, _, rfl⟩ := List.mem_map.mp hfield
    exact usable_of_mem_field hh
  · obtain ⟨d, _, hfield⟩ := List.mem_flatMap.mp hfield
    obtain ⟨k, _, rfl⟩ := List.mem_map.mp hfield
    exact usable_of_mem_field hh

end taurus.engine.executor
