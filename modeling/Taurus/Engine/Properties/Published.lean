import Taurus.Engine.Properties.Acyclicity
import Taurus.Engine.Publish

namespace taurus.engine.views

open taurus.lib taurus.python taurus.engine.executor taurus.engine.registry taurus.engine.dag_validator taurus.engine.runner

variable {py : Reprs} {registry : UnitAdapterRegistry} {definition stored : Dict String Json}

/-- Where else a node may have its type. -/
def other_type (node : Dict String Json) : Json :=
  orElse (getJson node "type") (orElse (getJson (config node) "nodeType")
    (orElse (getJson (sub_dict node "data") "nodeType") (.str "noop")))

/-- The node has its type at the top level, or none at all. -/
def TypedAtTop (py : Reprs) (node : Dict String Json) : Prop :=
  (getJson node "node_type").truthy = true ∨ py.str (other_type node) = "noop"

/-- The edge has a source and a target. -/
def Joined (e : Dict String Json) : Prop :=
  (endpoint e "from_key" "from").truthy = true ∧ (endpoint e "to_key" "to").truthy = true

/-- The condition of an edge, empty where it has none. -/
def condition_of (e : Dict String Json) : Json := (Dict.get? e "condition").getD (.str "")

/-- The old fields of an edge say the same as the new ones, or nothing. -/
structure Aligned (py : Reprs) (e : Dict String Json) : Prop where
  src : (getJson e "from").truthy = true →
    getJson e "from" = .str (py.str (endpoint e "from_key" "from"))
  dst : (getJson e "to").truthy = true → getJson e "to" = .str (py.str (endpoint e "to_key" "to"))
  condition : (condition_of e).truthy = true ∨
    condition_of e = .str "" ∧ (getJson e "cond").truthy = false

theorem orElse_of_truthy {v other : Json} (h : v.truthy = true) : orElse v other = v := if_pos h

theorem orElse_of_not {v other : Json} (h : v.truthy = false) : orElse v other = other :=
  if_neg (by rw [h]; nofun)

theorem truthy_str_of_truthy (py : Reprs) {v : Json} (h : v.truthy = true) :
    (Json.str (py.str v)).truthy = true := by
  have hne : py.str v ≠ "" := by
    intro hempty
    obtain ⟨s, rfl, -⟩ := (py.str_blank_iff v).mp (by rw [hempty]; rfl)
    have hs : s = "" := hempty
    subst hs
    cases h
  exact bne_iff_ne.mpr hne

/-- The type the engine reads from a node. -/
theorem engine_type_eq (id : String) (node : Dict String Json) : engine_type py registry id node =
    py.str (if (getJson node "node_type").truthy then getJson node "node_type"
      else .str (py.str (other_type node))) := by
  have hkey : ∀ k, "node_key" ≠ k →
    getJson (ensure_node_key py id node) k = getJson node k := fun k hk =>
    (leaves_ensure_node_key hk).getJson
  have hother : other_type (ensure_node_key py id node) = other_type node := by
    unfold other_type config sub_dict
    rw [hkey "type" (by decide), hkey "data" (by decide)]
  unfold engine_type
  rw [(leaves_ensure_engine_fields py registry id node).getJson, ensure_node_type,
    hkey "node_type" (by decide)]
  split
  · rw [hkey "node_type" (by decide)]
  · rw [getJson_set, if_pos rfl]
    exact congrArg (fun v => py.str (.str (py.str v))) hother

theorem drawn_of_elements {field : String} {xs : List Json}
    (h : elements (getJson definition field) = .ok xs) :
    xs.filterMap Json.obj? = drawn definition field := by
  have htexts : ∀ {α : Type} (f : α → String) (as : List α),
    (as.map fun a => Json.str (f a)).filterMap Json.obj? = [] := by
    intro α f as
    rw [List.filterMap_map]
    exact List.filterMap_eq_nil_iff.mpr fun _ _ => rfl
  unfold elements at h
  unfold drawn
  generalize getJson definition field = v at h
  by_cases hv : (!v.truthy) = true
  · rw [if_pos hv] at h
    obtain rfl := Except.ok.inj h
    cases v with
    | arr elems =>
      cases elems with
      | nil => rfl
      | cons x rest => cases hv
    | _ => rfl
  · rw [if_neg hv] at h
    cases v with
    | arr elems =>
      obtain rfl := Except.ok.inj h
      rfl
    | str text =>
      obtain rfl := Except.ok.inj h
      exact htexts String.singleton text.toList
    | obj kvs =>
      obtain rfl := Except.ok.inj h
      exact htexts Prod.fst kvs
    | _ => cases h

/-- What publishing stores. -/
structure Stored (py : Reprs) (definition stored : Dict String Json) : Prop where
  nodes : ∃ raw_nodes, elements (getJson definition "nodes") = .ok raw_nodes ∧
    drawn stored "nodes" = normalize_nodes py raw_nodes
  edges : ∃ raw_edges, elements (getJson definition "edges") = .ok raw_edges ∧
    getJson stored "edges" = .arr ((normalized_edges py raw_edges).map .obj)

theorem filterMap_obj? (ds : List (Dict String Json)) :
    (ds.map Json.obj).filterMap Json.obj? = ds := by
  rw [List.filterMap_map]
  exact List.filterMap_some

/-- A published definition is the stored one. -/
theorem stored_of_published (h : publish py registry (.obj definition) = .ok (.published stored)) :
    Stored py definition stored := by
  unfold publish at h
  dsimp only at h
  split at h
  · cases h
  · obtain ⟨raw_nodes, hnodes, h⟩ := bind_eq_ok.mp h
    obtain ⟨raw_edges, hedges, h⟩ := bind_eq_ok.mp h
    obtain ⟨result, -, h⟩ := bind_eq_ok.mp h
    split at h
    · cases h
    · obtain rfl := Answer.published.inj (Except.ok.inj h)
      refine ⟨⟨raw_nodes, hnodes, ?_⟩, raw_edges, hedges, ?_⟩
      · unfold drawn
        rw [getJson_set, if_neg (by decide), getJson_set, if_pos rfl]
        exact filterMap_obj? _
      · rw [getJson_set, if_pos rfl]

/-- What one normalized node shows all of them show. -/
theorem normalize_nodes_map {α : Type} {f g : Dict String Json → α}
    (h : ∀ n i, f (normalize_node py n i) = g n) (raw_nodes : List Json) :
    (normalize_nodes py raw_nodes).map f = (raw_nodes.filterMap Json.obj?).map g := by
  have hfrom : ∀ start, ((raw_nodes.zipIdx start).filterMap fun p => p.1.obj?.map
    fun n => normalize_node py n p.2).map f =
      (raw_nodes.filterMap Json.obj?).map g := by
    induction raw_nodes with
    | nil => exact fun start => rfl
    | cons v rest ih =>
      intro start
      rw [List.zipIdx_cons]
      cases v with
      | obj n => exact congrArg₂ List.cons (h n start) (ih (start + 1))
      | _ => exact ih (start + 1)
  exact hfrom 0

/-- The type the engine reads from a normalized node. -/
theorem engine_type_normalized (id : String) (n : Dict String Json) (i : Nat) :
    engine_type py registry id (normalize_node py n i) =
      if (getJson n "node_type").truthy then py.str (getJson n "node_type") else "noop" := by
  unfold normalize_node
  dsimp only
  generalize Json.str (py.str (orElse (getJson n "node_key") _)) = key
  have hkey : getJson (Dict.set n "node_key" key) "node_type" = getJson n "node_type" := by
    rw [getJson_set, if_neg (by decide)]
  rw [hkey]
  by_cases htype : (getJson n "node_type").truthy = true
  · rw [htype, if_neg (by decide), engine_type_eq, hkey, if_pos htype, if_pos rfl]
  · have hfalse := Bool.eq_false_of_not_eq_true htype
    rw [hfalse, if_pos (by decide), if_neg (by decide), engine_type_eq, getJson_set, if_pos rfl]
    rfl

/-- It is the type of the drawn node exactly if that stands at the top. -/
theorem same_type_iff (id : String) (n : Dict String Json) :
    (if (getJson n "node_type").truthy then py.str (getJson n "node_type")
      else "noop") = engine_type py registry id n ↔
      TypedAtTop py n := by
  unfold TypedAtTop
  rw [engine_type_eq]
  by_cases htype : (getJson n "node_type").truthy = true
  · rw [if_pos htype, if_pos htype]
    exact ⟨fun _ => Or.inl htype, fun _ => rfl⟩
  · rw [if_neg htype, if_neg htype, or_iff_right htype]
    exact eq_comm

/-- A stored end of an edge is read as it was checked unless the old field says something else. -/
theorem read_end_iff {old rest : Json} {k : String} (hk : (Json.str k).truthy = true) :
    orElse old (orElse (.str k) rest) = .str k ↔ (old.truthy = true → old = .str k) := by
  rw [orElse_of_truthy hk]
  by_cases hold : old.truthy = true
  · rw [orElse_of_truthy hold]
    exact ⟨fun h _ => h, fun h => h hold⟩
  · rw [orElse_of_not (Bool.eq_false_of_not_eq_true hold)]
    exact ⟨fun _ h => absurd h hold, fun _ => rfl⟩

/-- A condition is read back unless an empty one hides another. -/
theorem read_condition_iff {c cond : Json} :
    orElse c (orElse cond (.str "")) = c ↔ c.truthy = true ∨ c = .str "" ∧ cond.truthy = false := by
  by_cases hc : c.truthy = true
  · rw [orElse_of_truthy hc]
    exact ⟨fun _ => Or.inl hc, fun _ => rfl⟩
  · rw [orElse_of_not (Bool.eq_false_of_not_eq_true hc), or_iff_right hc]
    by_cases hcond : cond.truthy = true
    · rw [orElse_of_truthy hcond]
      exact ⟨fun h => absurd (h ▸ hcond) hc, fun h => absurd (h.2.symm.trans hcond) nofun⟩
    · rw [orElse_of_not (Bool.eq_false_of_not_eq_true hcond)]
      exact ⟨fun h => ⟨h.symm, Bool.eq_false_of_not_eq_true hcond⟩, fun h => h.1.symm⟩

/-- The fields of a normalized edge. -/
theorem normalized_fields {e norm : Dict String Json}
    (h : normalize_edge py e = some norm) : Joined e ∧
    getJson norm "from_key" = .str (py.str (endpoint e "from_key" "from")) ∧
      getJson norm "to_key" = .str (py.str (endpoint e "to_key" "to")) ∧
    (∀ k, k ≠ "from_key" → k ≠ "to_key" → k ≠ "condition" → getJson norm k = getJson e k) ∧
    getJson norm "condition" = condition_of e := by
  unfold normalize_edge at h
  dsimp only at h
  split at h
  · cases h
  · rename_i hjoined
    rw [Bool.or_eq_true, not_or, Bool.not_eq_true', Bool.not_eq_false, Bool.not_eq_true',
      Bool.not_eq_false] at hjoined
    obtain rfl := Option.some.inj h
    have hother : ∀ (d : Dict String Json) (k : String), "condition" ≠ k →
        getJson (Dict.setdefault d "condition" (.str "")) k = getJson d k := by
      intro d k hk
      unfold getJson
      rw [Dict.get?_setdefault, if_neg hk, Option.or_none]
    refine ⟨hjoined, ?_, ?_, fun k hfk htk hc => ?_, ?_⟩
    · rw [hother _ _ (by decide), getJson_set, if_neg (by decide), getJson_set, if_pos rfl]
    · rw [hother _ _ (by decide), getJson_set, if_pos rfl]
    · rw [hother _ _ (Ne.symm hc), getJson_set, if_neg (Ne.symm htk), getJson_set,
        if_neg (Ne.symm hfk)]
    · unfold getJson condition_of
      rw [Dict.get?_setdefault, if_pos rfl, Dict.get?_set_ne _ _ (by decide),
        Dict.get?_set_ne _ _ (by decide)]
      cases Dict.get? e "condition" <;> rfl

/-- An edge is read as it was checked exactly if its fields are aligned. -/
theorem read_edge_iff {e norm : Dict String Json} (h : normalize_edge py e = some norm) :
    read_edge norm = checked_edge norm ↔ Aligned py e := by
  obtain ⟨⟨hfk, htk⟩, hsrc, hdst, hsame, hcondition⟩ := normalized_fields h
  unfold read_edge checked_edge
  rw [Triple.mk.injEq, hsrc, hdst, hsame "from" (by decide) (by decide) (by decide),
    hsame "to" (by decide) (by decide) (by decide),
    hsame "cond" (by decide) (by decide) (by decide), read_end_iff (truthy_str_of_truthy py hfk),
      read_end_iff (truthy_str_of_truthy py htk), hcondition, read_condition_iff]
  exact ⟨fun ⟨hs, hd, hc⟩ => ⟨hs, hd, hc⟩, fun ⟨hs, hd, hc⟩ => ⟨hs, hd, hc⟩⟩

theorem exists_normalized (py : Reprs) {e : Dict String Json} (h : Joined e) :
    ∃ norm, normalize_edge py e = some norm := by
  unfold normalize_edge
  dsimp only
  rw [h.1, h.2, if_neg (by decide)]
  exact ⟨_, rfl⟩

/-- The edges of an accepted definition are the joined ones, normalized. -/
theorem mem_normalized_edges {raw_edges : List Json} {norm : Dict String Json} :
    norm ∈ normalized_edges py raw_edges ↔
    ∃ e ∈ raw_edges.filterMap Json.obj?, normalize_edge py e = some norm := by
  unfold normalized_edges
  rw [← List.filterMap_filterMap, List.mem_filterMap]

namespace Stored

variable (stored_as : Stored py definition stored) (id id' : String)

include stored_as

/-- All types survive exactly if each stands at the top of its node. -/
theorem types_iff : (drawn stored "nodes").map (engine_type py registry id) =
    (drawn definition "nodes").map (engine_type py registry id') ↔
    ∀ n ∈ drawn definition "nodes", TypedAtTop py n := by
  obtain ⟨raw_nodes, hraw_nodes, hnodes⟩ := stored_as.nodes
  rw [hnodes, normalize_nodes_map (engine_type_normalized id), drawn_of_elements hraw_nodes,
    List.map_inj_left]
  exact forall₂_congr fun n _ => same_type_iff id' n

/-- All edges survive exactly if each joined edge is aligned. -/
theorem edges_iff : engine_edges stored = checked_edges stored ↔
  ∀ e ∈ drawn definition "edges", Joined e → Aligned py e := by
  obtain ⟨raw_edges, hraw_edges, hedges⟩ := stored_as.edges
  have hdrawn : drawn stored "edges" = normalized_edges py raw_edges := by
    unfold drawn
    rw [hedges]
    exact filterMap_obj? _
  have hengine : engine_edges stored = (normalized_edges py raw_edges).map read_edge := by
    unfold engine_edges normalize_edges
    rw [hedges]
    dsimp only
    rw [List.filterMap_map]
    exact congrFun List.filterMap_eq_map _
  unfold checked_edges
  rw [hengine, hdrawn, List.map_inj_left, ← drawn_of_elements hraw_edges]
  constructor
  · intro hall e he hjoined
    obtain ⟨norm, hnorm⟩ := exists_normalized py hjoined
    exact (read_edge_iff hnorm).mp (hall norm (mem_normalized_edges.mpr ⟨e, he, hnorm⟩))
  · intro hall norm hmem
    obtain ⟨e, he, hnorm⟩ := mem_normalized_edges.mp hmem
    exact (read_edge_iff hnorm).mpr (hall e he (normalized_fields hnorm).1)

end Stored

/-- What publishing has checked is what the engine runs exactly where every node has its
type at the top level or none at all, and the old fields of every edge say the same as
the new ones or nothing. -/
theorem published_as_checked_iff
    (h : publish py registry (.obj definition) = .ok (.published stored)) (id id' : String) :
    ((drawn stored "nodes").map (engine_type py registry id) = (drawn definition "nodes").map
      (engine_type py registry id') ∧
      engine_edges stored = checked_edges stored) ↔
    (∀ n ∈ drawn definition "nodes", TypedAtTop py n) ∧ ∀ e ∈ drawn definition "edges", Joined e →
      Aligned py e :=
  and_congr ((stored_of_published h).types_iff id id') (stored_of_published h).edges_iff

/-! A definition with one step between start and end. -/

def is_published : Except Exn Answer → Bool
  | .ok (.published _) => true
  | _ => false

theorem exists_stored (answer : Except Exn Answer) (h : is_published answer = true) :
    ∃ stored, answer = .ok (.published stored) := by
  unfold is_published at h
  split at h
  · exact ⟨_, rfl⟩
  · cases h

def command_registry : UnitAdapterRegistry :=
  ⟨[("command", ⟨"command", true⟩), ("noop", ⟨"noop", false⟩)], rfl⟩

def one_step (step first : Dict String Json) : Dict String Json :=
  [("nodes", .arr [.obj (drawn_node "start" "start"), .obj step, .obj (drawn_node "end" "end")]),
    ("edges", .arr [.obj first, .obj (drawn_edge "dump" "end")])]

/-- The step as the frontend sends it. -/
def sent : Dict String Json := one_step (drawn_node "dump" "noop") (drawn_edge "start" "dump")

/-- The step has its type in the field of the drawing, and its first edge has another
source in the old field. -/
def mixed : Dict String Json :=
  one_step [("node_key", .str "dump"), ("type", .str "command")]
    (("from", .str "dump") :: drawn_edge "start" "dump")

theorem drawn_edge_aligned (src dst : String) : Aligned .short (drawn_edge src dst) :=
  ⟨nofun, nofun, Or.inr ⟨rfl, rfl⟩⟩

theorem sent_as_checked :
    ∃ stored, publish .short command_registry (.obj sent) = .ok (.published stored) ∧
    engine_edges stored = checked_edges stored := by
  obtain ⟨stored, h⟩ :=
    exists_stored (publish .short command_registry (.obj sent)) (by decide +kernel)
  have hnodes : drawn sent "nodes" =
    [drawn_node "start" "start", drawn_node "dump" "noop", drawn_node "end" "end"] := rfl
  have hedges : drawn sent "edges" = [drawn_edge "start" "dump", drawn_edge "dump" "end"] := rfl
  refine ⟨stored, h, ((published_as_checked_iff h "0" "1").mpr ⟨?_, ?_⟩).2⟩
  · rw [hnodes]
    simp only [List.forall_mem_cons]
    exact ⟨Or.inl rfl, Or.inl rfl, Or.inl rfl, nofun⟩
  · rw [hedges]
    simp only [List.forall_mem_cons]
    exact ⟨fun _ => drawn_edge_aligned _ _, fun _ => drawn_edge_aligned _ _, nofun⟩

/-- The step that publishing takes for a `noop` would be a command, and the engine finds a cycle
that was not checked. -/
theorem mixed_not_as_checked :
    ∃ stored, publish .short command_registry (.obj mixed) = .ok (.published stored) ∧
    (drawn stored "nodes").map (engine_type .short command_registry "0") ≠ (drawn mixed "nodes").map
      (engine_type .short command_registry "1") ∧
    engine_edges stored ≠ checked_edges stored := by
  obtain ⟨stored, h⟩ :=
    exists_stored (publish .short command_registry (.obj mixed)) (by decide +kernel)
  have hnodes : drawn mixed "nodes" =
    [drawn_node "start" "start", [("node_key", .str "dump"), ("type", .str "command")],
      drawn_node "end" "end"] := rfl
  have hedges : drawn mixed "edges" =
    [("from", .str "dump") :: drawn_edge "start" "dump", drawn_edge "dump" "end"] := rfl
  refine ⟨stored, h, fun htypes => ?_, fun hread => ?_⟩
  · have htyped := ((stored_of_published h).types_iff "0" "1").mp htypes
    rw [hnodes] at htyped
    obtain htop | hnoop := htyped _ (List.mem_cons_of_mem _ List.mem_cons_self)
    · cases htop
    · revert hnoop
      decide +kernel
  · have haligned := (stored_of_published h).edges_iff.mp hread
    rw [hedges] at haligned
    have hsame := (haligned _ List.mem_cons_self ⟨rfl, rfl⟩).src rfl
    have htext : "dump" = "start" := Json.str.inj hsame
    revert htext
    decide +kernel

end taurus.engine.views
