import Taurus.Engine.DagValidator

namespace taurus.engine.dag_validator

open taurus.lib taurus.lib.digraph taurus.python taurus.engine.executor taurus.engine.registry

variable {r r' : DAGValidationResult} {ms ms' codes codes' : List String} {py : Reprs}
  {dag : WorkflowDAG} {v : View}

/-- Every message begins with one of the codes. -/
def Coded (codes ms : List String) : Prop := ∀ m ∈ ms, ∃ code ∈ codes, code.toList <+: m.toList

/-- Messages of the same codes together. -/
theorem coded_append (h : Coded codes ms) (h' : Coded codes ms') : Coded codes (ms ++ ms') := by
  intro m hm
  obtain hm | hm := List.mem_append.mp hm
  · exact h m hm
  · exact h' m hm

theorem Coded.mono (h : Coded codes ms) (hsub : codes ⊆ codes') : Coded codes' ms := by
  intro m hm
  obtain ⟨code, hcode, hprefix⟩ := h m hm
  exact ⟨code, hsub hcode, hprefix⟩

theorem coded_nil : Coded codes [] := by simp [Coded]

theorem coded_singleton {code m : String} (h : code.toList <+: m.toList) : Coded [code] [m] := by
  intro m' hm'
  obtain rfl := List.mem_singleton.mp hm'
  exact ⟨code, List.mem_singleton_self code, h⟩

theorem coded_if (p : Prop) [Decidable p] {code m : String} (h : code.toList <+: m.toList) :
    Coded [code] (if p then [m] else []) := by
  split_ifs
  · exact coded_singleton h
  · exact coded_nil

/-- The start of a text is the start of a longer one. -/
theorem prefix_append {code s : String} (t : String) (h : code.toList <+: s.toList) :
    code.toList <+: (s ++ t).toList := by
  rw [String.toList_append]
  exact h.trans (List.prefix_append _ _)

/-- Codes of one length are told apart. -/
theorem code_unique {code code' m : String} (hlength : code.toList.length = code'.toList.length)
    (h : code.toList <+: m.toList) (h' : code'.toList <+: m.toList) : code = code' := by
  have hsame := List.prefix_of_prefix_length_le h h' (by omega)
  exact String.toList_injective (hsame.eq_of_length hlength)

theorem str?_eq_some_iff {x : Json} {s : String} : x.str? = some s ↔ x = .str s := by
  cases x <;> simp [Json.str?]

/-- The node keys in order. -/
def node_keys (dag : WorkflowDAG) : List String :=
  dag.nodes.filterMap fun n => (getJson n "node_key").str?

/-- The edges as links between texts. -/
def graph (dag : WorkflowDAG) : List (String × String) :=
  dag.edges.filterMap fun e =>
    match getJson e "from_key", getJson e "to_key" with
    | .str fk, .str tk => some (fk, tk)
    | _, _ => none

/-- V-01 is silent only with one start node. -/
theorem check_starts_spec (py : Reprs) (starts : List Nat) (r : DAGValidationResult) :
    ∃ ms, Adds r (check_starts py starts r) ms ∧ Coded ["V-01"] ms ∧
      (ms = [] → starts.length = 1) := by
  unfold check_starts
  split_ifs with hnone hmany
  · exact ⟨_, adds_error _ _ _, coded_singleton (by decide), by simp⟩
  · refine ⟨_, adds_error _ _ _, coded_singleton ?_, by simp⟩
    exact prefix_append _ (prefix_append _ (prefix_append _ (prefix_append _ (by decide))))
  · exact ⟨_, Adds.refl r, coded_nil, fun _ => by omega⟩

theorem check_ends_spec (ends : List Nat) (r : DAGValidationResult) :
    ∃ ms, Adds r (check_ends ends r) ms ∧ Coded ["V-01"] ms ∧ (ms = [] → ends ≠ []) := by
  refine ⟨_, adds_if _ _ _ _, coded_if _ (by decide), ?_⟩
  rintro hnil rfl
  simp at hnil

/-- One node gives an error, or a new key. -/
theorem check_key_cases (s : DAGValidationResult × Dict String Nat) (n : Dict String Json × Nat) :
    (∃ ptr m, check_key s n = (s.1.add_error ptr m, s.2) ∧ "V-02".toList <+: m.toList) ∨
      ∃ k, getJson n.1 "node_key" = .str k ∧ k ≠ "" ∧ k ∉ s.2.map (·.1) ∧
        check_key s n = (s.1, s.2 ++ [(k, n.2)]) := by
  unfold check_key
  simp only
  split
  · next k hk =>
    split_ifs with hempty
    · exact .inl ⟨_, _, rfl, by decide⟩
    · cases hget : Dict.get? s.2 k with
      | some first =>
        refine .inl ⟨_, _, rfl, ?_⟩
        exact prefix_append _ (prefix_append _ (prefix_append _ (prefix_append _ (by decide))))
      | none =>
        exact .inr ⟨k, hk, hempty, (Dict.get?_eq_none_iff _ _).mp hget,
          by rw [Dict.set_of_get?_eq_none _ hget]⟩
  · exact .inl ⟨_, _, rfl, by decide⟩

/-- The loop over the nodes collects distinct keys, all of them if it reports nothing. -/
theorem check_keys_spec (nodes : List (Dict String Json × Nat))
    (s : DAGValidationResult × Dict String Nat) (hnodup : (s.2.map (·.1)).Nodup) :
    ∃ ms, Adds s.1 (nodes.foldl check_key s).1 ms ∧ Coded ["V-02"] ms ∧
      ((nodes.foldl check_key s).2.map (·.1)).Nodup ∧
      (ms = [] → (∀ n ∈ nodes, ∃ k, getJson n.1 "node_key" = .str k ∧ k ≠ "") ∧
        (nodes.foldl check_key s).2.map (·.1) =
          s.2.map (·.1) ++ nodes.filterMap fun n => (getJson n.1 "node_key").str?) := by
  induction nodes generalizing s with
  | nil => exact ⟨[], Adds.refl _, coded_nil, hnodup, fun _ => ⟨by simp, by simp⟩⟩
  | cons n rest ih =>
    rw [List.foldl_cons]
    obtain ⟨ptr, m, hkey, hcode⟩ | ⟨k, hk, hne, hfresh, hkey⟩ := check_key_cases s n
    · rw [hkey]
      obtain ⟨ms, hadds, hcoded, hrest, -⟩ := ih (s.1.add_error ptr m, s.2) hnodup
      refine ⟨[m] ++ ms, (adds_error _ _ _).trans hadds,
        coded_append (coded_singleton hcode) hcoded, hrest, by simp⟩
    · rw [hkey]
      have hnodup' : ((s.2 ++ [(k, n.2)]).map (·.1)).Nodup := by
        rw [List.map_append, List.map_singleton, List.nodup_append]
        refine ⟨hnodup, List.nodup_singleton k, fun a ha b hb hab => ?_⟩
        obtain rfl := List.mem_singleton.mp hb
        exact hfresh (hab ▸ ha)
      obtain ⟨ms, hadds, hcoded, hrest, hall⟩ := ih (s.1, s.2 ++ [(k, n.2)]) hnodup'
      refine ⟨ms, hadds, hcoded, hrest, fun hnil => ?_⟩
      obtain ⟨hkeys, heq⟩ := hall hnil
      refine ⟨fun x hx => ?_, ?_⟩
      · obtain rfl | hx := List.mem_cons.mp hx
        · exact ⟨k, hk, hne⟩
        · exact hkeys x hx
      · rw [heq, List.filterMap_cons, hk]
        simp [Json.str?]

/-- A looked up key that is there is a text. -/
theorem lookup_spec {β : Type} {d : Dict String β} {k : Json} {found : Option β}
    (h : lookup d k = .ok found) :
    found.isSome = true ↔ ∃ s, k = .str s ∧ s ∈ d.map (·.1) := by
  unfold lookup at h
  cases k with
  | str s =>
    simp only [unhashable] at h
    obtain rfl := Except.ok.inj h
    simp only [Json.str.injEq, exists_eq_left']
    exact Dict.contains_iff d s
  | arr _ => simp [unhashable] at h
  | obj _ => simp [unhashable] at h
  | _ =>
    simp only [unhashable] at h
    obtain rfl := Except.ok.inj h
    simp

def SelfLoop (keys : List String) (e : Dict String Json) : Prop :=
  ∃ a ∈ keys, getJson e "from_key" = .str a ∧ getJson e "to_key" = .str a

/-- An edge between nodes reports nothing under V-03, a link from a node to itself is V-04. -/
structure EdgeReport (keys : List String) (e : Dict String Json)
    (dangling loops : List String) : Prop where
  dangling_coded : Coded ["V-03"] dangling
  loops_coded : Coded ["V-04"] loops
  closed : dangling = [] → ∃ a b, getJson e "from_key" = .str a ∧ getJson e "to_key" = .str b ∧
    a ∈ keys ∧ b ∈ keys
  loops_iff : loops ≠ [] ↔ SelfLoop keys e

/-- What an edge is reported for. -/
theorem check_edge_spec {key_to_idx : Dict String Nat} {e : Dict String Json × Nat}
    (h : check_edge py key_to_idx r e = .ok r') :
    ∃ dangling loops, Adds r r' (dangling ++ loops) ∧
      EdgeReport (key_to_idx.map (·.1)) e.1 dangling loops := by
  unfold check_edge at h
  simp only at h
  obtain ⟨source, hsource, h⟩ := bind_eq_ok.mp h
  obtain ⟨target, htarget, h⟩ := bind_eq_ok.mp h
  have hs := lookup_spec hsource
  have ht := lookup_spec htarget
  have hloop : (source.isSome = true ∧
    ((getJson e.1 "from_key").str?).any (isText (getJson e.1 "to_key")) = true) ↔
      SelfLoop (key_to_idx.map (·.1)) e.1 := by
    rw [hs]
    constructor
    · rintro ⟨⟨a, ha, hmem⟩, hself⟩
      rw [ha] at hself
      exact ⟨a, hmem, ha, isText_iff.mp (by simpa [Json.str?] using hself)⟩
    · rintro ⟨a, hmem, ha, hself⟩
      exact ⟨⟨a, ha, hmem⟩, by simp [ha, hself, Json.str?, isText]⟩
  have hlast : ∀ r₁, (if source.isSome = true ∧
    ((getJson e.1 "from_key").str?).any (isText (getJson e.1 "to_key")) = true
      then pure (r₁.add_error ("/edges/" ++ toString e.2)
      ("V-04: Node " ++ _repr_key py (getJson e.1 "from_key") ++
        " has a self-loop, DAGs cannot have cycles"))
        else pure r₁ : Except Exn DAGValidationResult) = .ok r' →
      ∃ loops, Adds r₁ r' loops ∧ Coded ["V-04"] loops ∧
        (loops ≠ [] ↔ SelfLoop (key_to_idx.map (·.1)) e.1) := by
    intro r₁ hr
    rw [← hloop]
    split_ifs at hr with hself
    · obtain rfl := Except.ok.inj hr
      exact ⟨_, adds_error _ _ _, coded_singleton (prefix_append _ (prefix_append _ (by decide))),
        by simp [hself]⟩
    · obtain rfl := Except.ok.inj hr
      exact ⟨_, Adds.refl _, coded_nil, by simp [hself]⟩
  obtain ⟨loops, hadds, hcoded, hiff⟩ := hlast _ h
  refine ⟨_, loops, ((adds_if _ _ _ _).trans (adds_if _ _ _ _)).trans hadds, ?_, hcoded, ?_, hiff⟩
  · apply coded_append
    · exact coded_if _ (prefix_append _ (prefix_append _ (by decide)))
    · exact coded_if _ (prefix_append _ (prefix_append _ (by decide)))
  · intro hnil
    obtain ⟨hs', ht'⟩ := List.append_eq_nil_iff.mp hnil
    obtain ⟨a, ha, hamem⟩ := hs.mp (by cases source <;> simp at hs' ⊢)
    obtain ⟨b, hb, hbmem⟩ := ht.mp (by cases target <;> simp at ht' ⊢)
    exact ⟨a, b, ha, hb, hamem, hbmem⟩

/-- So for all edges. -/
theorem check_edges_spec {key_to_idx : Dict String Nat} {edges : List (Dict String Json × Nat)}
    (h : edges.foldlM (check_edge py key_to_idx) r = .ok r') :
    ∃ dangling loops, Adds r r' (dangling ++ loops) ∧ Coded ["V-03"] dangling ∧
      Coded ["V-04"] loops ∧
      (dangling = [] → ∀ e ∈ edges, ∃ a b, getJson e.1 "from_key" = .str a ∧
        getJson e.1 "to_key" = .str b ∧
        a ∈ key_to_idx.map (·.1) ∧ b ∈ key_to_idx.map (·.1)) ∧
      (loops ≠ [] ↔ ∃ e ∈ edges, SelfLoop (key_to_idx.map (·.1)) e.1) := by
  induction edges generalizing r with
  | nil =>
    obtain rfl := Except.ok.inj h
    exact ⟨[], [], Adds.refl r, coded_nil, coded_nil, by simp, by simp⟩
  | cons e rest ih =>
    rw [List.foldlM_cons] at h
    obtain ⟨r₁, he, hrest⟩ := bind_eq_ok.mp h
    obtain ⟨d₁, l₁, hadds₁, hreport⟩ := check_edge_spec he
    obtain ⟨d₂, l₂, hadds₂, hd, hl, hclosed, hiff⟩ := ih hrest
    refine ⟨d₁ ++ d₂, l₁ ++ l₂, (hadds₁.trans hadds₂).congr fun m => ?_,
      coded_append hreport.dangling_coded hd, coded_append hreport.loops_coded hl, ?_, ?_⟩
    · simp only [List.mem_append, or_assoc, or_left_comm]
    · intro hnil x hx
      obtain ⟨hnil₁, hnil₂⟩ := List.append_eq_nil_iff.mp hnil
      obtain rfl | hx := List.mem_cons.mp hx
      · exact hreport.closed hnil₁
      · exact hclosed hnil₂ x hx
    · rw [Ne, List.append_eq_nil_iff, not_and_or, ← Ne, ← Ne, hreport.loops_iff, hiff,
        List.exists_mem_cons_iff]

/-- The links are the edges between known nodes. -/
theorem mem_links_iff {key_to_idx : Dict String Nat} {edges : List (Dict String Json)}
    {a b : String} :
    (a, b) ∈ links key_to_idx edges ↔ a ∈ key_to_idx.map (·.1) ∧ b ∈ key_to_idx.map (·.1) ∧
      ∃ e ∈ edges, getJson e "from_key" = .str a ∧ getJson e "to_key" = .str b := by
  unfold links
  rw [List.mem_filterMap]
  constructor
  · rintro ⟨e, he, hlink⟩
    split at hlink
    · next fk tk hfk htk =>
      split_ifs at hlink with hmem
      obtain ⟨rfl, rfl⟩ := Prod.mk.inj (Option.some.inj hlink)
      exact ⟨(Dict.contains_iff _ _).mp hmem.1, (Dict.contains_iff _ _).mp hmem.2, e, he, hfk, htk⟩
    · simp at hlink
  · rintro ⟨ha, hb, e, he, hfk, htk⟩
    refine ⟨e, he, ?_⟩
    rw [hfk, htk]
    simp [(Dict.contains_iff key_to_idx _).mpr ha, (Dict.contains_iff key_to_idx _).mpr hb]

/-- Without dangling edges every edge is a link. -/
theorem links_eq_graph {key_to_idx : Dict String Nat}
    (h : ∀ e ∈ dag.edges, ∃ a b, getJson e "from_key" = .str a ∧ getJson e "to_key" = .str b ∧
      a ∈ key_to_idx.map (·.1) ∧ b ∈ key_to_idx.map (·.1)) :
    links key_to_idx dag.edges = graph dag := by
  apply List.filterMap_congr
  intro e he
  obtain ⟨a, b, ha, hb, hamem, hbmem⟩ := h e he
  rw [ha, hb]
  simp [(Dict.contains_iff key_to_idx _).mpr hamem, (Dict.contains_iff key_to_idx _).mpr hbmem]

theorem exists_mem_zipIdx {α : Type} {p : α → Prop} {xs : List α} :
    (∃ x ∈ xs.zipIdx, p x.1) ↔ ∃ x ∈ xs, p x := by
  conv_rhs => rw [← List.zipIdx_map_fst 0 xs]
  simp only [List.mem_map, exists_exists_and_eq_and]

theorem forall_mem_zipIdx {α : Type} {p : α → Prop} {xs : List α} :
    (∀ x ∈ xs.zipIdx, p x.1) ↔ ∀ x ∈ xs, p x := by
  conv_rhs => rw [← List.zipIdx_map_fst 0 xs]
  simp only [List.mem_map, forall_exists_index, and_imp, forall_apply_eq_imp_iff₂]

/-- At the places found stand the elements that satisfy `p`. -/
theorem map_places {α : Type} (p : α → Bool) (xs : List α) (d : α) :
    (places p xs).map (xs.getD · d) = xs.filter p := by
  have hget : ∀ x ∈ xs.zipIdx.filter fun x => p x.1, xs.getD x.2 d = x.1 := by
    intro x hx
    have hmem := (List.mem_filter.mp hx).1
    rw [List.mem_zipIdx_iff_getElem?] at hmem
    simp [hmem]
  conv_rhs => rw [← List.zipIdx_map_fst 0 xs, List.filter_map]
  rw [places, List.map_map]
  exact List.map_congr_left hget

/-- The key of the only node of a type; None if it is not the only one. -/
theorem terminal_key_spec {nodes : List (Dict String Json)} {p : Dict String Json → Bool} {k : Json}
    (h : terminal_key nodes (places p nodes) = .ok k) :
    (∀ n, nodes.filter p = [n] → getJson n "node_key" = k) ∧
      ((nodes.filter p).length ≠ 1 → k = .null) := by
  have hmap := map_places p nodes []
  have hlength : (nodes.filter p).length = (places p nodes).length := by
    rw [← hmap, List.length_map]
  unfold terminal_key at h
  split at h
  · next i hplaces =>
    rw [hplaces] at hmap hlength
    constructor
    · intro n hn
      rw [hn] at hmap
      obtain rfl : nodes.getD i [] = n := by simpa using hmap
      split at h
      · next k' hget =>
        obtain rfl := Except.ok.inj h
        rw [getJson, hget]
        rfl
      · simp at h
    · intro hne
      exact absurd hlength hne
  · next hplaces =>
    obtain rfl := Except.ok.inj h
    refine ⟨fun n hn => ?_, fun _ => rfl⟩
    rw [hn, List.length_singleton, eq_comm, List.length_eq_one_iff] at hlength
    obtain ⟨i, hi⟩ := hlength
    exact absurd hi (hplaces i)

/-- A degree that was looked up is the number of links at the key, if it is a text. -/
theorem degree_spec {deg : String → Nat} {k : Json} {n : Nat} (h : degree deg k = .ok n) :
    n = 0 ↔ ∀ s, k = .str s → deg s = 0 := by
  unfold degree at h
  cases k with
  | arr _ => simp [unhashable] at h
  | obj _ => simp [unhashable] at h
  | _ =>
    simp only [unhashable] at h
    obtain rfl := Except.ok.inj h
    simp

/-- V-06 is silent only if nothing leads into the start or out of the end. -/
theorem check_terminal_edges_spec (h : check_terminal_edges v r = .ok r') :
    ∃ ms, Adds r r' ms ∧ Coded ["V-06"] ms ∧
      (ms = [] → (∀ s, v.start_key = .str s → in_degree v.links s = 0) ∧
        ∀ s, v.end_key = .str s → out_degree v.links s = 0) := by
  unfold check_terminal_edges at h
  obtain ⟨into, hinto, h⟩ := bind_eq_ok.mp h
  obtain ⟨out, hout, h⟩ := bind_eq_ok.mp h
  obtain rfl := Except.ok.inj h
  refine ⟨_, (adds_if _ _ _ _).trans (adds_if _ _ _ _), ?_, fun hnil => ?_⟩
  · apply coded_append
    · refine coded_if _ ?_
      exact prefix_append _ (prefix_append _ (prefix_append _ (prefix_append _ (by decide))))
    · refine coded_if _ ?_
      exact prefix_append _ (prefix_append _ (prefix_append _ (prefix_append _ (by decide))))
  · obtain ⟨hin, hon⟩ := List.append_eq_nil_iff.mp hnil
    refine ⟨(degree_spec hinto).mp ?_, (degree_spec hout).mp ?_⟩
    · by_contra hne
      simp [Nat.pos_of_ne_zero hne] at hin
    · by_contra hne
      simp [Nat.pos_of_ne_zero hne] at hon

/-- What a DAG without reports under V-01, V-02, V-03 and V-06 is like. -/
structure Structured (dag : WorkflowDAG) (v : View) : Prop where
  keyed : ∀ n ∈ dag.nodes, ∃ k, getJson n "node_key" = .str k ∧ k ≠ ""
  keys : v.keys = node_keys dag
  links : v.links = graph dag
  start : ∃ n, dag.nodes.filter (is_type · "start") = [n] ∧ v.start_key = getJson n "node_key"
  ends : dag.nodes.filter (is_type · "end") ≠ []
  sole_end : ∀ n, dag.nodes.filter (is_type · "end") = [n] → v.end_key = getJson n "node_key"
  more_ends : (dag.nodes.filter (is_type · "end")).length ≠ 1 → v.end_key = .null
  start_in : ∀ s, v.start_key = .str s → ∀ a, ¬Link v.links a s
  end_out : ∀ s, v.end_key = .str s → ∀ b, ¬Link v.links s b

/-- What checks 1 to 4 report: `loops` are the reports of links from a node to itself. -/
structure StructureReport (dag : WorkflowDAG) (v : View) (r : DAGValidationResult)
    (basic loops : List String) : Prop where
  kept : Kept r
  order : r.topological_order = []
  messages : ∀ m, m ∈ messages r ↔ m ∈ basic ∨ m ∈ loops
  nodup : v.keys.Nodup
  closed : ∀ a b, Link v.links a b → a ∈ v.keys ∧ b ∈ v.keys
  basic_coded : Coded ["V-01", "V-02", "V-03", "V-06"] basic
  loops_coded : Coded ["V-04"] loops
  structured : basic = [] → Structured dag v
  loops_iff : loops ≠ [] ↔ ∃ a, Link v.links a a

/-- A node of in-degree zero has no link into it. -/
theorem not_link_of_in_degree {ls : List (String × String)} {b : String} (h : in_degree ls b = 0)
    (a : String) :
    ¬Link ls a b := by
  intro hlink
  have hnone := List.countP_eq_zero.mp h (a, b) hlink
  simp at hnone

/-- One of out-degree zero has none out of it. -/
theorem not_link_of_out_degree {ls : List (String × String)} {a : String} (h : out_degree ls a = 0)
    (b : String) :
    ¬Link ls a b := by
  intro hlink
  have hnone := List.countP_eq_zero.mp h (a, b) hlink
  simp at hnone

/-- What the structural checks report. -/
theorem check_structure_spec (h : check_structure py dag = .ok (v, r)) :
    ∃ basic loops, StructureReport dag v r basic loops := by
  unfold check_structure at h
  simp only at h
  obtain ⟨start_key, hstart, h⟩ := bind_eq_ok.mp h
  obtain ⟨end_key, hend, h⟩ := bind_eq_ok.mp h
  obtain ⟨r₁, hedges, h⟩ := bind_eq_ok.mp h
  obtain ⟨r₂, hterminals, h⟩ := bind_eq_ok.mp h
  obtain ⟨rfl, rfl⟩ := Prod.mk.inj (Except.ok.inj h)
  obtain ⟨ms₁, hadds₁, hcoded₁, hone⟩ :=
    check_starts_spec py (places (is_type · "start") dag.nodes) {}
  obtain ⟨ms₂, hadds₂, hcoded₂, hsome⟩ := check_ends_spec (places (is_type · "end") dag.nodes)
    (check_starts py (places (is_type · "start") dag.nodes) {})
  obtain ⟨ms₃, hadds₃, hcoded₃, hnodup, hkeys⟩ := check_keys_spec dag.nodes.zipIdx
    (check_ends (places (is_type · "end") dag.nodes)
    (check_starts py (places (is_type · "start") dag.nodes) {}), [])
    (by simp)
  obtain ⟨dangling, loops, hadds₄, hcoded₄, hloops, hclosed, hloops_iff⟩ := check_edges_spec hedges
  obtain ⟨ms₅, hadds₅, hcoded₅, hdegrees⟩ := check_terminal_edges_spec hterminals
  have hall := (((hadds₁.trans hadds₂).trans hadds₃).trans hadds₄).trans hadds₅
  refine ⟨ms₁ ++ ms₂ ++ ms₃ ++ dangling ++ ms₅, loops, ?_⟩
  constructor
  · apply hall.kept
    exact ⟨by simp, by simp⟩
  · exact hall.order
  · intro m
    have hempty : m ∉ messages {} := List.not_mem_nil
    have hm := hall.messages m
    rw [or_iff_right hempty] at hm
    rw [hm]
    simp only [List.mem_append, or_assoc, or_left_comm, or_comm]
  · exact hnodup
  · intro a b hlink
    obtain ⟨ha, hb, -⟩ := mem_links_iff.mp hlink
    exact ⟨ha, hb⟩
  · refine coded_append (coded_append (coded_append (coded_append ?_ ?_) ?_) ?_) ?_
    · exact hcoded₁.mono (by simp)
    · exact hcoded₂.mono (by simp)
    · exact hcoded₃.mono (by simp)
    · exact hcoded₄.mono (by simp)
    · exact hcoded₅.mono (by simp)
  · exact hloops
  · intro hnil
    simp only [List.append_eq_nil_iff] at hnil
    obtain ⟨⟨⟨⟨h₁, h₂⟩, h₃⟩, h₄⟩, h₅⟩ := hnil
    obtain ⟨hkeyed, hkeys⟩ := hkeys h₃
    have hlength : ∀ t, (dag.nodes.filter (is_type · t)).length =
        (places (is_type · t) dag.nodes).length := by
      intro t
      rw [← map_places (is_type · t) dag.nodes [], List.length_map]
    have hstart' := terminal_key_spec hstart
    have hend' := terminal_key_spec hend
    constructor
    · exact forall_mem_zipIdx.mp hkeyed
    · rw [node_keys]
      conv_rhs => rw [← List.zipIdx_map_fst 0 dag.nodes, List.filterMap_map]
      simpa [View.keys] using hkeys
    · exact links_eq_graph (forall_mem_zipIdx.mp (hclosed h₄))
    · obtain ⟨n, hn⟩ := List.length_eq_one_iff.mp ((hlength "start").trans (hone h₁))
      exact ⟨n, hn, (hstart'.1 n hn).symm⟩
    · intro hnone
      have hzero := hlength "end"
      rw [hnone, List.length_nil, eq_comm, List.length_eq_zero_iff] at hzero
      exact hsome h₂ hzero
    · exact fun n hn => (hend'.1 n hn).symm
    · exact hend'.2
    · exact fun s hs => not_link_of_in_degree ((hdegrees h₅).1 s hs)
    · exact fun s hs => not_link_of_out_degree ((hdegrees h₅).2 s hs)
  · rw [hloops_iff]
    constructor
    · intro hloop
      obtain ⟨e, he, a, ha, hfrom, hto⟩ := (exists_mem_zipIdx (p := SelfLoop _)).mp hloop
      exact ⟨a, mem_links_iff.mpr ⟨ha, ha, e, he, hfrom, hto⟩⟩
    · rintro ⟨a, hlink⟩
      obtain ⟨ha, -, e, he, hfrom, hto⟩ := mem_links_iff.mp hlink
      exact (exists_mem_zipIdx (p := SelfLoop _)).mpr ⟨e, he, a, ha, hfrom, hto⟩

end taurus.engine.dag_validator
