import Taurus.Engine.DagValidator.Places
import Taurus.Engine.Properties.Acyclicity

namespace taurus.engine.dag_validator

open taurus.lib taurus.lib.digraph taurus.python taurus.engine.executor taurus.engine.registry

variable {r r' : DAGValidationResult} {py : Reprs} {registry : UnitAdapterRegistry}
  {dag : WorkflowDAG}
  {strict : Bool} {v : View} {α β : Type}

/-- A message with this code stands under the pointer. -/
def ReportedAt (r : DAGValidationResult) (ptr code : String) : Prop :=
  ∃ m, Listed r ptr m ∧ code.toList <+: m.toList

/-- Every field that is missing or no text is reported under the pointer to it; a condition may
be missing. -/
structure DefectsReported (dag : WorkflowDAG) (r : DAGValidationResult) : Prop where
  node_keys : ∀ n ∈ dag.nodes.zipIdx, (getJson n.1 "node_key").str? = none →
    ReportedAt r ("/nodes/" ++ toString n.2 ++ "/node_key") "V-02"
  node_types : ∀ n ∈ dag.nodes.zipIdx, (getJson n.1 "node_type").str? = none →
    ReportedAt r ("/nodes/" ++ toString n.2 ++ "/node_type") "V-07"
  from_keys : ∀ e ∈ dag.edges.zipIdx, (getJson e.1 "from_key").str? = none →
    ReportedAt r ("/edges/" ++ toString e.2 ++ "/from_key") "V-03"
  to_keys : ∀ e ∈ dag.edges.zipIdx, (getJson e.1 "to_key").str? = none →
    ReportedAt r ("/edges/" ++ toString e.2 ++ "/to_key") "V-03"
  conditions : ∀ e ∈ dag.edges.zipIdx, getJson e.1 "condition" ≠ .null →
    (getJson e.1 "condition").str? = none →
    ReportedAt r ("/edges/" ++ toString e.2 ++ "/condition") "V-08"

/-- The only node of the type, if it is the only one, has a key, and the key has a hash. -/
def KeyedTerminal (dag : WorkflowDAG) (t : String) : Prop :=
  ∀ n, dag.nodes.filter (is_type · t) = [n] →
  ∃ k, Dict.get? n "node_key" = some k ∧ unhashable k = none

/-- None or a text. -/
def ReadableCondition (e : Dict String Json) : Prop :=
  getJson e "condition" = .null ∨ ∃ c, getJson e "condition" = .str c

/-- The checks get through the DAG. -/
structure Passable (dag : WorkflowDAG) (strict : Bool) : Prop where
  start : KeyedTerminal dag "start"
  last : KeyedTerminal dag "end"
  ends : ∀ e ∈ dag.edges, unhashable (getJson e "from_key") = none ∧
    unhashable (getJson e "to_key") = none
  types : strict = true → ∀ n ∈ dag.nodes, unhashable (getJson n "node_type") = none
  conditions : ∀ e ∈ dag.edges, ReadableCondition e

section returns

theorem returns_bind_iff {x : Except Exn α} {f : α → Except Exn β} :
    Returns (x >>= f) ↔ ∃ a, x = .ok a ∧ Returns (f a) := by
  constructor
  · rintro ⟨b, hb⟩
    obtain ⟨a, ha, hf⟩ := bind_eq_ok.mp hb
    exact ⟨a, ha, b, hf⟩
  · rintro ⟨a, ha, b, hb⟩
    exact ⟨b, bind_eq_ok.mpr ⟨a, ha, hb⟩⟩

theorem not_returns_error {e : Exn} : ¬ Returns (.error e : Except Exn α) := nofun

/-- A loop returns exactly if all its turns do, each of them whatever was reported before. -/
theorem returns_foldlM_iff {f : DAGValidationResult → α → Except Exn DAGValidationResult}
    {p : α → Prop} (h : ∀ r x, Returns (f r x) ↔ p x) (xs : List α) (r : DAGValidationResult) :
    Returns (xs.foldlM f r) ↔ ∀ x ∈ xs, p x := by
  induction xs generalizing r with
  | nil => exact iff_of_true (returns_ok r) (by simp)
  | cons x rest ih =>
    rw [List.foldlM_cons, returns_bind_iff, List.forall_mem_cons, ← h r x]
    constructor
    · rintro ⟨r₁, hx, hrest⟩
      exact ⟨⟨r₁, hx⟩, (ih r₁).mp hrest⟩
    · rintro ⟨⟨r₁, hx⟩, hrest⟩
      exact ⟨r₁, hx, (ih r₁).mpr hrest⟩

/-- The key of the only node of a type, where it can be read. -/
theorem terminal_key_of_only {nodes : List (Dict String Json)} {p : Dict String Json → Bool}
    {n : Dict String Json} (h : nodes.filter p = [n]) :
    terminal_key nodes (places p nodes) =
      match Dict.get? n "node_key" with
      | some k => .ok k
      | none => .error (.other "KeyError" "'node_key'") := by
  have hmap := map_places p nodes []
  rw [h] at hmap
  obtain ⟨i, hplaces, rfl⟩ := List.map_eq_singleton_iff.mp hmap
  rw [hplaces]
  rfl

/-- Without a single node of the type there is no key. -/
theorem terminal_key_of_not_only {nodes : List (Dict String Json)} {p : Dict String Json → Bool}
    (h : ∀ n, nodes.filter p ≠ [n]) : terminal_key nodes (places p nodes) = .ok .null := by
  have hmap := map_places p nodes []
  unfold terminal_key
  split
  · next i hplaces =>
    rw [hplaces, List.map_singleton] at hmap
    exact absurd hmap.symm (h _)
  · rfl

/-- The key of a terminal node can be hashed. -/
theorem keyedTerminal_iff (dag : WorkflowDAG) (t : String) :
    KeyedTerminal dag t ↔
      ∃ k, terminal_key dag.nodes (places (is_type · t) dag.nodes) = .ok k ∧
        unhashable k = none := by
  by_cases honly : ∃ n, dag.nodes.filter (is_type · t) = [n]
  · obtain ⟨n, hn⟩ := honly
    rw [terminal_key_of_only hn]
    constructor
    · intro h
      obtain ⟨k, hk, hhash⟩ := h n hn
      exact ⟨k, by rw [hk], hhash⟩
    · rintro ⟨k, hk, hhash⟩ n' hn'
      obtain rfl : n = n' := by simpa [hn] using hn'
      cases hget : Dict.get? n "node_key" with
      | none => simp [hget] at hk
      | some k' =>
        rw [hget] at hk
        obtain rfl := Except.ok.inj hk
        exact ⟨k', rfl, hhash⟩
  · have hnone : ∀ n, dag.nodes.filter (is_type · t) ≠ [n] := fun n hn => honly ⟨n, hn⟩
    rw [terminal_key_of_not_only hnone]
    exact iff_of_true (fun n hn => absurd hn (hnone n)) ⟨.null, rfl, rfl⟩

theorem returns_lookup_iff {d : Dict String β} {k : Json} :
    Returns (lookup d k) ↔ unhashable k = none := by
  unfold lookup
  cases unhashable k with
  | some message => exact iff_of_false not_returns_error (by simp)
  | none =>
    refine iff_of_true ?_ rfl
    cases k <;> exact returns_ok _

theorem returns_degree_iff {deg : String → Nat} {k : Json} :
    Returns (degree deg k) ↔ unhashable k = none := by
  refine ⟨fun h => ?_, returns_degree⟩
  unfold degree at h
  cases hhash : unhashable k with
  | some message =>
    rw [hhash] at h
    exact absurd h not_returns_error
  | none => rfl

/-- An edge is checked exactly if its keys can be hashed. -/
theorem returns_check_edge_iff {key_to_idx : Dict String Nat} (r : DAGValidationResult)
    (e : Dict String Json × Nat) :
    Returns (check_edge py key_to_idx r e) ↔
      unhashable (getJson e.1 "from_key") = none ∧ unhashable (getJson e.1 "to_key") = none := by
  rw [← returns_lookup_iff (d := key_to_idx), ← returns_lookup_iff (d := key_to_idx)]
  unfold check_edge
  rw [returns_bind_iff]
  constructor
  · rintro ⟨source, hsource, h⟩
    obtain ⟨target, htarget, -⟩ := returns_bind_iff.mp h
    exact ⟨⟨source, hsource⟩, ⟨target, htarget⟩⟩
  · rintro ⟨⟨source, hsource⟩, ⟨target, htarget⟩⟩
    exact ⟨source, hsource, returns_bind_iff.mpr
      ⟨target, htarget, returns_ite _ (returns_ok _) (returns_ok _)⟩⟩

/-- The edges at the terminals are if their keys can. -/
theorem returns_check_terminal_edges_iff (r : DAGValidationResult) :
    Returns (check_terminal_edges v r) ↔
      unhashable v.start_key = none ∧ unhashable v.end_key = none := by
  rw [← @returns_degree_iff (in_degree v.links) v.start_key,
    ← @returns_degree_iff (out_degree v.links) v.end_key]
  unfold check_terminal_edges
  rw [returns_bind_iff]
  constructor
  · rintro ⟨into, hinto, h⟩
    obtain ⟨out, hout, -⟩ := returns_bind_iff.mp h
    exact ⟨⟨into, hinto⟩, ⟨out, hout⟩⟩
  · rintro ⟨⟨into, hinto⟩, ⟨out, hout⟩⟩
    exact ⟨into, hinto, returns_bind_iff.mpr ⟨out, hout, returns_ok _⟩⟩

/-- Checks 1 to 4 return exactly if the keys they look up have a hash. -/
theorem returns_check_structure_iff :
    Returns (check_structure py dag) ↔ KeyedTerminal dag "start" ∧ KeyedTerminal dag "end" ∧
      ∀ e ∈ dag.edges, unhashable (getJson e "from_key") = none ∧
        unhashable (getJson e "to_key") = none := by
  rw [keyedTerminal_iff, keyedTerminal_iff, ← forall_mem_zipIdx (p := fun e : Dict String Json =>
    unhashable (getJson e "from_key") = none ∧ unhashable (getJson e "to_key") = none)]
  unfold check_structure
  constructor
  · intro h
    obtain ⟨start_key, hstart, h⟩ := returns_bind_iff.mp h
    obtain ⟨end_key, hend, h⟩ := returns_bind_iff.mp h
    obtain ⟨r₁, hedges, h⟩ := returns_bind_iff.mp h
    obtain ⟨r₂, hterminals, -⟩ := returns_bind_iff.mp h
    obtain ⟨hstart', hend'⟩ := (returns_check_terminal_edges_iff _).mp ⟨r₂, hterminals⟩
    exact ⟨⟨start_key, hstart, hstart'⟩, ⟨end_key, hend, hend'⟩,
      (returns_foldlM_iff returns_check_edge_iff _ _).mp ⟨r₁, hedges⟩⟩
  · rintro ⟨⟨start_key, hstart, hstart'⟩, ⟨end_key, hend, hend'⟩, hedges⟩
    refine returns_bind_iff.mpr ⟨start_key, hstart, returns_bind_iff.mpr ⟨end_key, hend, ?_⟩⟩
    obtain ⟨r₁, hr₁⟩ := (returns_foldlM_iff (@returns_check_edge_iff py _) _ _).mpr hedges
    refine returns_bind_iff.mpr ⟨r₁, hr₁, ?_⟩
    obtain ⟨r₂, hr₂⟩ :=
      (returns_check_terminal_edges_iff (v := ⟨_, _, start_key, end_key⟩) r₁).mpr ⟨hstart', hend'⟩
    exact returns_bind_iff.mpr ⟨r₂, hr₂, returns_ok _⟩

/-- A type is if it can be hashed. -/
theorem returns_check_type_iff {registered : List String} (r : DAGValidationResult)
    (n : Dict String Json × Nat) :
    Returns (check_type py registered r n) ↔ unhashable (getJson n.1 "node_type") = none := by
  unfold check_type type_message
  simp only
  cases unhashable (getJson n.1 "node_type") with
  | some message => exact iff_of_false (fun h => not_returns_error h) (by simp)
  | none =>
    refine iff_of_true ?_ rfl
    apply (returns_ite _ (returns_ok _) (returns_ok _)).bind
    intro found _
    cases found <;> exact returns_ok _

/-- A condition is if it is a text, or false. -/
theorem returns_check_condition_iff (r : DAGValidationResult) (e : Dict String Json × Nat) :
    Returns (check_condition r e) ↔ ReadableCondition e.1 := by
  unfold check_condition ReadableCondition
  simp only
  cases hcond : getJson e.1 "condition" with
  | null => exact iff_of_true (returns_ok _) (.inl rfl)
  | str cond =>
    refine iff_of_true (returns_ite _ (returns_ok _) ?_) (.inr ⟨cond, rfl⟩)
    cases unsafe_token? cond <;> exact returns_ok _
  | _ => exact iff_of_false not_returns_error (by simp)

/-- Checks 7 to 9 return exactly if the types have a hash and the conditions can be read. -/
theorem returns_check_contents_iff (r : DAGValidationResult) :
    Returns (check_contents py registry dag strict r) ↔
      (strict = true → ∀ n ∈ dag.nodes, unhashable (getJson n "node_type") = none) ∧
        ∀ e ∈ dag.edges, ReadableCondition e := by
  have htypes : Returns (check_types py registry dag strict r) ↔
      (strict = true → ∀ n ∈ dag.nodes, unhashable (getJson n "node_type") = none) := by
    unfold check_types
    cases strict with
    | false => exact iff_of_true (returns_ok r) (by simp)
    | true =>
      rw [if_pos rfl, returns_foldlM_iff returns_check_type_iff, imp_iff_right rfl]
      exact forall_mem_zipIdx (p :=
        fun n : Dict String Json => unhashable (getJson n "node_type") = none)
  rw [← htypes, ← forall_mem_zipIdx (p := ReadableCondition)]
  unfold check_contents
  rw [returns_bind_iff]
  constructor
  · rintro ⟨r₁, hr₁, h⟩
    obtain ⟨r₂, hr₂, -⟩ := returns_bind_iff.mp h
    exact ⟨⟨r₁, hr₁⟩, (returns_foldlM_iff returns_check_condition_iff _ _).mp ⟨r₂, hr₂⟩⟩
  · rintro ⟨⟨r₁, hr₁⟩, hconditions⟩
    obtain ⟨r₂, hr₂⟩ := (returns_foldlM_iff returns_check_condition_iff _ r₁).mpr hconditions
    exact ⟨r₁, hr₁, returns_bind_iff.mpr ⟨r₂, hr₂, returns_ok _⟩⟩

/-- A DAG is validated without an exception exactly if it is passable. -/
theorem returns_validate_dag_iff :
    Returns (validate_dag py registry dag strict) ↔ Passable dag strict := by
  unfold validate_dag
  constructor
  · intro h
    obtain ⟨⟨v, r⟩, hstructure, h⟩ := returns_bind_iff.mp h
    obtain ⟨r₁, -, h⟩ := returns_bind_iff.mp h
    obtain ⟨r₂, hcontents, -⟩ := returns_bind_iff.mp h
    obtain ⟨hstart, hlast, hends⟩ := returns_check_structure_iff.mp ⟨_, hstructure⟩
    obtain ⟨htypes, hconditions⟩ := (returns_check_contents_iff _).mp ⟨r₂, hcontents⟩
    exact ⟨hstart, hlast, hends, htypes, hconditions⟩
  · intro h
    obtain ⟨⟨v, r⟩, hstructure⟩ := returns_check_structure_iff.mpr ⟨h.start, h.last, h.ends⟩
    refine returns_bind_iff.mpr ⟨(v, r), hstructure, ?_⟩
    obtain ⟨r₁, hr₁⟩ := check_acyclic_returns hstructure
    refine returns_bind_iff.mpr ⟨r₁, hr₁, ?_⟩
    obtain ⟨r₂, hr₂⟩ :=
      (@returns_check_contents_iff py registry dag strict _).mpr ⟨h.types, h.conditions⟩
    exact returns_bind_iff.mpr ⟨r₂, hr₂, returns_ok _⟩

end returns

section reports

/-- Without `strict` the types are not looked at. -/
theorem codes_of_lenient (h : validate_dag py registry dag false = .ok r) :
    Coded ["V-01", "V-02", "V-03", "V-04", "V-05", "V-06", "V-08"] (messages r) := by
  unfold validate_dag at h
  obtain ⟨⟨v, r₁⟩, hstructure, h⟩ := bind_eq_ok.mp h
  obtain ⟨r₂, hacyclic, h⟩ := bind_eq_ok.mp h
  obtain ⟨r₃, hcontents, h⟩ := bind_eq_ok.mp h
  obtain rfl := Except.ok.inj h
  obtain ⟨basic, loops, report⟩ := check_structure_spec hstructure
  obtain ⟨cycles, sorted⟩ := sorted_of_check_acyclic report.nodup report.closed report.kept hacyclic
  obtain ⟨ms₁, hadds₁, hcoded₁, -⟩ := check_reachable_spec v r₂
  obtain ⟨ms₂, hadds₂, hcoded₂, -⟩ := check_coreachable_spec v (check_reachable v r₂)
  obtain ⟨r₄, hr₄, hcontents⟩ := bind_eq_ok.mp hcontents
  obtain rfl := Except.ok.inj hr₄
  obtain ⟨r₅, hconditions, hcontents⟩ := bind_eq_ok.mp hcontents
  obtain rfl := Except.ok.inj hcontents
  obtain ⟨ms₃, hadds₃, hcoded₃, -⟩ := check_conditions_spec hconditions
  have hwarned := adds_foldl (warn_isolated_spec v) v.key_to_idx r₅
  intro m hm
  have hall := (((hadds₁.trans hadds₂).trans hadds₃).trans hwarned).messages m
  rw [if_neg Bool.false_ne_true] at hm
  simp only [hall, sorted.messages, report.messages, List.mem_append, List.mem_flatMap,
    List.not_mem_nil, and_false, exists_false, or_false] at hm
  obtain ((hm | hm) | hm) | (hm | hm) | hm := hm
  · exact (report.basic_coded.mono (by simp)) m hm
  · exact (report.loops_coded.mono (by simp)) m hm
  · exact (sorted.coded.mono (by simp)) m hm
  · exact (hcoded₁.mono (by simp)) m hm
  · exact (hcoded₂.mono (by simp)) m hm
  · exact (hcoded₃.mono (by simp)) m hm

/-- What is reported stays so. -/
theorem ReportedAt.grow {ptr code : String} (h : ReportedAt r ptr code) (hgrows : Grows r r') :
    ReportedAt r' ptr code := by
  obtain ⟨m, hm, hprefix⟩ := h
  exact ⟨m, hgrows ptr m hm, hprefix⟩

/-- The loop over the node keys. -/
def checked_keys (py : Reprs) (dag : WorkflowDAG) : DAGValidationResult × Dict String Nat :=
  dag.nodes.zipIdx.foldl check_key
    (check_ends (places (is_type · "end") dag.nodes)
    (check_starts py (places (is_type · "start") dag.nodes) {}), [])

/-- Later checks of the structure lose no report of an edge. -/
theorem check_structure_grows (h : check_structure py dag = .ok (v, r)) :
    ∃ r₁, dag.edges.zipIdx.foldlM
      (check_edge py (checked_keys py dag).2) (checked_keys py dag).1 = .ok r₁ ∧
      Grows r₁ r := by
  unfold check_structure at h
  obtain ⟨start_key, -, h⟩ := bind_eq_ok.mp h
  obtain ⟨end_key, -, h⟩ := bind_eq_ok.mp h
  obtain ⟨r₁, hedges, h⟩ := bind_eq_ok.mp h
  obtain ⟨r₂, hterminals, h⟩ := bind_eq_ok.mp h
  obtain ⟨-, rfl⟩ := Prod.mk.inj (Except.ok.inj h)
  exact ⟨r₁, hedges, check_terminal_edges_grows hterminals⟩

theorem check_contents_grows (h : check_contents py registry dag strict r = .ok r') :
    ∃ r₁, check_types py registry dag strict r = .ok r₁ ∧ Grows r r₁ ∧ Grows r₁ r' := by
  unfold check_contents at h
  obtain ⟨r₁, htypes, h⟩ := bind_eq_ok.mp h
  obtain ⟨r₂, hconditions, h⟩ := bind_eq_ok.mp h
  obtain rfl := Except.ok.inj h
  refine ⟨r₁, htypes, check_types_grows htypes,
    (grows_foldlM check_condition_grows hconditions).trans ?_⟩
  split_ifs
  · exact grows_foldl check_hosts_grows _ _
  · exact Grows.refl r₂

/-- What checks 1 to 4 report about the keys and the edges is in the verdict, and so is what
check 7 reports. -/
theorem validate_dag_grows (h : validate_dag py registry dag strict = .ok r) :
    ∃ r₁ r₂ r₃, dag.edges.zipIdx.foldlM
      (check_edge py (checked_keys py dag).2) (checked_keys py dag).1 = .ok r₁ ∧
      check_types py registry dag strict r₂ = .ok r₃ ∧ Grows r₁ r ∧ Grows r₃ r := by
  unfold validate_dag at h
  obtain ⟨⟨v, r₁⟩, hstructure, h⟩ := bind_eq_ok.mp h
  obtain ⟨r₂, hacyclic, h⟩ := bind_eq_ok.mp h
  obtain ⟨r₃, hcontents, h⟩ := bind_eq_ok.mp h
  obtain rfl := Except.ok.inj h
  obtain ⟨r₀, hedges, hgrows₁⟩ := check_structure_grows hstructure
  obtain ⟨r₄, htypes, hgrows₂, hgrows₃⟩ := check_contents_grows hcontents
  have hlast := hgrows₃.trans (grows_foldl (warn_isolated_grows v) v.key_to_idx r₃)
  refine ⟨r₀, _, r₄, hedges, htypes, ?_, hlast⟩
  refine (hgrows₁.trans (check_acyclic_grows hacyclic)).trans ?_
  exact ((check_reachable_grows v r₂).trans (check_coreachable_grows v _)).trans
    (hgrows₂.trans hlast)

theorem dangling_coded (role : String) (k : Json) : "V-03".toList <+: (dangling py role k).toList :=
  prefix_append _ (prefix_append _ (prefix_append _ (prefix_append _ (by decide))))

/-- A type that is no text is reported. -/
theorem check_types_reported {registered : List String} {nodes : List (Dict String Json × Nat)}
    {n : Dict String Json × Nat} (hn : n ∈ nodes) (hk : (getJson n.1 "node_type").str? = none)
    (h : nodes.foldlM (check_type py registered) r = .ok r') :
    ReportedAt r' ("/nodes/" ++ toString n.2 ++ "/node_type") "V-07" := by
  induction nodes generalizing r with
  | nil => exact absurd hn List.not_mem_nil
  | cons x rest ih =>
    rw [List.foldlM_cons] at h
    obtain ⟨r₁, hx, hrest⟩ := bind_eq_ok.mp h
    obtain rfl | hn := List.mem_cons.mp hn
    · exact ReportedAt.grow (check_type_listed hk hx) (grows_foldlM check_type_grows hrest)
    · exact ih hn hrest

/-- A verdict reports every key and every end of an edge that is no text, and the types if it
looks at them; there is nothing to report about the conditions. -/
theorem defects_reported_of_valid (h : validate_dag py registry dag strict = .ok r)
    (htexts : strict = false → ∀ n ∈ dag.nodes, (getJson n "node_type").str? ≠ none) :
    DefectsReported dag r := by
  obtain ⟨r₁, r₂, r₃, hedges, htypes, hgrows, hgrows'⟩ := validate_dag_grows h
  have hpassable := returns_validate_dag_iff.mp ⟨r, h⟩
  constructor
  · intro n hn hk
    have hlisted := grows_foldlM check_edge_grows hedges _ _ (check_keys_listed _ hn hk)
    exact ReportedAt.grow ⟨_, hlisted, by decide⟩ hgrows
  · intro n hn hk
    cases strict with
    | false =>
      exact absurd hk ((forall_mem_zipIdx (p := fun n => (getJson n "node_type").str? ≠ none)).mpr
        (htexts rfl) n hn)
    | true =>
      rw [check_types, if_pos rfl] at htypes
      exact (check_types_reported hn hk htypes).grow hgrows'
  · intro e he hk
    have hlisted :=
      listed_foldlM check_edge_grows he (fun _ _ hturn => (check_edge_listed hturn).1 hk) hedges
    exact ReportedAt.grow ⟨_, hlisted, dangling_coded _ _⟩ hgrows
  · intro e he hk
    have hlisted :=
      listed_foldlM check_edge_grows he (fun _ _ hturn => (check_edge_listed hturn).2 hk) hedges
    exact ReportedAt.grow ⟨_, hlisted, dangling_coded _ _⟩ hgrows
  · intro e he hne hk
    obtain hnull | ⟨c, hc⟩ :=
      (forall_mem_zipIdx (p := ReadableCondition)).mpr hpassable.conditions e he
    · exact absurd hnull hne
    · rw [hc] at hk
      cases hk

end reports

/-- A verdict comes back, with every field that is missing or no text reported, exactly if the
DAG gets through the checks; without `strict` also every node type must be a text. -/
theorem defects_reported_iff (py : Reprs) (registry : UnitAdapterRegistry) (dag : WorkflowDAG)
    (strict : Bool) :
    (∃ r, validate_dag py registry dag strict = .ok r ∧ DefectsReported dag r) ↔
      Passable dag strict ∧ (strict = false →
        ∀ n ∈ dag.nodes, (getJson n "node_type").str? ≠ none) := by
  constructor
  · rintro ⟨r, hr, hreported⟩
    refine ⟨returns_validate_dag_iff.mp ⟨r, hr⟩, ?_⟩
    rintro rfl
    refine (forall_mem_zipIdx (p := fun n => (getJson n "node_type").str? ≠ none)).mp
      fun n hn hk => ?_
    obtain ⟨m, hlisted, hprefix⟩ := hreported.node_types n hn hk
    exact (codes_of_lenient hr).not_code (by decide) (by decide) m
      (mem_messages_of_listed hlisted) hprefix
  · rintro ⟨hpassable, htexts⟩
    obtain ⟨r, hr⟩ := returns_validate_dag_iff.mpr hpassable
    exact ⟨r, hr, defects_reported_of_valid hr htexts⟩

/-- A start node that has not been given a key. -/
def unnamed_start : WorkflowDAG where
  nodes := [[("node_type", .str "start")]]
  edges := []

/-- The key is read before it is checked. -/
theorem unnamed_start_raises :
    ¬ ∃ r, validate_dag .short noop_registry unnamed_start true = .ok r ∧
      DefectsReported unnamed_start r := by
  have hraises : validate_dag .short noop_registry unnamed_start true =
      .error (.other "KeyError" "'node_key'") := by
    decide +kernel
  rintro ⟨r, hr, -⟩
  rw [hraises] at hr
  cases hr

end taurus.engine.dag_validator
