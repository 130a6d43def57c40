import Taurus.Engine.DagValidator.Structure

namespace taurus.engine.dag_validator

open taurus.lib taurus.lib.digraph taurus.python taurus.engine.executor taurus.engine.registry

variable {r r' : DAGValidationResult} {ms : List String} {py : Reprs}
  {registry : UnitAdapterRegistry}
variable {dag : WorkflowDAG} {v : View} {strict : Bool}

section graph

variable (hnodup : v.keys.Nodup) (hclosed : ∀ a b, Link v.links a b → a ∈ v.keys ∧ b ∈ v.keys)

include hnodup hclosed

/-- Without errors so far the graph is sorted, or its cycle reported; a cycle seed is
always found. -/
theorem check_acyclic_spec (r : DAGValidationResult) :
    (r.errors ≠ [] ∧ check_acyclic v r = .ok r) ∨
      (r.errors = [] ∧ ¬Cyclic v.links ∧
        check_acyclic v r = .ok { r with topological_order := (kahn v.links v.keys).order }) ∨
      (r.errors = [] ∧ Cyclic v.links ∧ ∃ m, check_acyclic v r = .ok (r.add_error "/edges" m) ∧
        "V-04".toList <+: m.toList) := by
  unfold check_acyclic
  by_cases herrors : r.errors = []
  · refine .inr ?_
    simp only [herrors, ne_eq, not_true_eq_false, if_false]
    by_cases hlength : (kahn v.links v.keys).order.length = v.keys.length
    · exact .inl ⟨trivial, kahn_acyclic hnodup hclosed hlength,
        by rw [if_neg (not_not.mpr hlength)]⟩
    · refine .inr ⟨trivial, kahn_cyclic hnodup hclosed hlength, ?_⟩
      obtain ⟨b, hb, hout⟩ := kahn_missing hnodup hclosed hlength
      have hseed := (kahn_leftover hnodup hclosed hb hout).1
      rw [if_pos hlength]
      cases hfind : v.keys.find? fun k => decide (0 < (kahn v.links v.keys).remaining k) with
      | none =>
        have hnone := List.find?_eq_none.mp hfind b hb
        simp [hseed] at hnone
      | some cycle_seed =>
        refine ⟨_, rfl, ?_⟩
        repeat apply prefix_append
        decide
  · exact .inl ⟨herrors, by rw [if_pos herrors]⟩

end graph

/-- The nodes outside a closure that are not spared are reported, and no others. -/
theorem check_closure_spec (key_to_idx : Dict String Nat) (spared : String → Bool)
    (closure : List String) {message : String → String}
    (hcode : ∀ k, "V-05".toList <+: (message k).toList) (r : DAGValidationResult) :
    ∃ ms, Adds r (check_closure key_to_idx spared closure message r) ms ∧ Coded ["V-05"] ms ∧
      (ms = [] → ∀ k ∈ key_to_idx.map (·.1), spared k = false → k ∈ closure) := by
  have hturn : ∀ (r : DAGValidationResult) (kv : String × Nat),
      Adds r (if !spared kv.1 ∧
      kv.1 ∉ closure then r.add_error ("/nodes/" ++ toString kv.2) (message kv.1) else r)
        (if !spared kv.1 ∧ kv.1 ∉ closure then [message kv.1] else []) :=
        fun r kv => adds_if _ r _ _
  refine ⟨_, adds_foldl hturn key_to_idx r, ?_, ?_⟩
  · intro m hm
    obtain ⟨kv, _, hm⟩ := List.mem_flatMap.mp hm
    exact coded_if _ (hcode kv.1) m hm
  · intro hnil k hk hspared
    obtain ⟨kv, hkv, rfl⟩ := List.mem_map.mp hk
    have hkv' := List.flatMap_eq_nil_iff.mp hnil kv hkv
    by_contra hout
    simp [hspared, hout] at hkv'

theorem unreachable_coded (k : String) : "V-05".toList <+: (unreachable k).toList :=
  prefix_append _ (prefix_append _ (by decide))

theorem dead_end_coded (k : String) : "V-05".toList <+: (dead_end k).toList :=
  prefix_append _ (prefix_append _ (by decide))

/-- V-05 is silent only if all nodes but the isolated ones are reached from the start. -/
theorem check_reachable_spec (v : View) (r : DAGValidationResult) :
    ∃ ms, Adds r (check_reachable v r) ms ∧ Coded ["V-05"] ms ∧
      (r.errors = [] → ms = [] → ∀ start, v.start_key = .str start →
        ∀ k ∈ v.keys, truly_isolated v k = false → Reaches v.links start k) := by
  unfold check_reachable
  split
  · next start hstart =>
    split_ifs with herrors
    · obtain ⟨ms, hadds, hcoded, hall⟩ :=
        check_closure_spec v.key_to_idx (truly_isolated v) (closure v.links start)
        unreachable_coded r
      refine ⟨ms, hadds, hcoded, fun _ hnil start' hstart' k hk hisolated => ?_⟩
      obtain rfl : start = start' := by simpa using hstart.symm.trans hstart'
      exact (mem_traverse start k).mp (hall hnil k hk hisolated)
    · exact ⟨[], Adds.refl r, coded_nil, fun h => absurd h herrors⟩
  · next hother =>
    exact ⟨[], Adds.refl r, coded_nil, fun _ _ start hstart => absurd hstart (hother start)⟩

theorem check_coreachable_spec (v : View) (r : DAGValidationResult) :
    ∃ ms, Adds r (check_coreachable v r) ms ∧ Coded ["V-05"] ms ∧
      (r.errors = [] → ms = [] → ∀ start last, v.start_key = .str start → v.end_key = .str last →
        ∀ k ∈ v.keys, truly_isolated v k = false → Reaches v.links k last) := by
  unfold check_coreachable
  split
  · next start last hstart hlast =>
    split_ifs with herrors
    · obtain ⟨ms, hadds, hcoded, hall⟩ :=
        check_closure_spec v.key_to_idx (fun k => truly_isolated v k || k == last)
        (closure (v.links.map Prod.swap) last) dead_end_coded r
      refine ⟨ms, hadds, hcoded, fun _ hnil start' last' _ hlast' k hk hisolated => ?_⟩
      obtain rfl : last = last' := by simpa using hlast.symm.trans hlast'
      by_cases hkend : k = last
      · rw [hkend]
        exact Relation.ReflTransGen.refl
      · have hmem := hall hnil k hk (by simp [hisolated, hkend])
        exact reaches_swap.mp ((mem_traverse last k).mp hmem)
    · exact ⟨[], Adds.refl r, coded_nil, fun h => absurd h herrors⟩
  · next hother =>
    exact ⟨[], Adds.refl r, coded_nil,
      fun _ _ start last hstart hlast => (hother start last hstart hlast).elim⟩

/-- A type is reported by its message. -/
theorem check_type_spec {registered : List String} {n : Dict String Json × Nat}
    (h : check_type py registered r n = .ok r') :
    Adds r r' ((type_message py registered n.1).toOption.join.toList) ∧
      ∃ found, type_message py registered n.1 = .ok found := by
  unfold check_type at h
  obtain ⟨found, hfound, h⟩ := bind_eq_ok.mp h
  refine ⟨?_, found, hfound⟩
  rw [hfound]
  cases found with
  | none =>
    obtain rfl := Except.ok.inj h
    exact Adds.refl r
  | some message =>
    obtain rfl := Except.ok.inj h
    exact adds_error _ _ _

theorem type_message_coded {registered : List String} {n : Dict String Json} :
    Coded ["V-07"] (type_message py registered n).toOption.join.toList := by
  unfold type_message
  simp only
  split
  · exact coded_nil
  · split_ifs
    · exact coded_nil
    · refine coded_singleton ?_
      exact prefix_append _ (prefix_append _ (prefix_append _ (by decide)))

/-- What V-08 lets through. -/
def accepted_condition : Json → Prop
  | .null => True
  | .str cond => cond = "" ∨ (paren_depth 0 cond.toList = 0 ∧ unsafe_token? cond = none)
  | _ => False

/-- V-08 is silent only for an accepted condition. -/
theorem check_condition_spec {e : Dict String Json × Nat} (h : check_condition r e = .ok r') :
    ∃ ms, Adds r r' ms ∧ Coded ["V-08"] ms ∧
      (ms = [] → accepted_condition (getJson e.1 "condition")) := by
  unfold check_condition at h
  simp only at h
  split at h
  · next hnull =>
    obtain rfl := Except.ok.inj h
    exact ⟨[], Adds.refl r, coded_nil, fun _ => by rw [hnull]; trivial⟩
  · next cond hcond =>
    rw [hcond]
    by_cases hempty : cond = ""
    · rw [if_pos hempty] at h
      obtain rfl := Except.ok.inj h
      exact ⟨[], Adds.refl r, coded_nil, fun _ => .inl hempty⟩
    · rw [if_neg hempty] at h
      have hdepth :=
        adds_if (paren_depth 0 cond.toList ≠ 0) r ("/edges/" ++ toString e.2 ++ "/condition")
        "V-08: Condition expression has unbalanced parentheses (missing matching '(' or ')')"
      have hcoded : Coded ["V-08"] (if paren_depth 0 cond.toList ≠ 0 then
          ["V-08: Condition expression has unbalanced parentheses (missing matching '(' or ')')"]
            else []) :=
        coded_if _ (by decide)
      cases htoken : unsafe_token? cond with
      | some token =>
        rw [htoken] at h
        obtain rfl := Except.ok.inj h
        refine ⟨_, hdepth.trans (adds_error _ _ _),
          coded_append hcoded (coded_singleton ?_), by simp⟩
        exact prefix_append _ (prefix_append _ (by decide))
      | none =>
        rw [htoken] at h
        obtain rfl := Except.ok.inj h
        refine ⟨_, hdepth, hcoded, fun hnil => .inr ⟨?_, htoken⟩⟩
        by_contra hne
        simp [hne] at hnil
  · simp at h

/-- The hosts of a node are reported by their message. -/
theorem check_hosts_spec (r : DAGValidationResult) (n : Dict String Json × Nat) :
    Adds r (check_hosts py registry r n) (host_message py registry n.1 n.2).toList := by
  unfold check_hosts
  cases host_message py registry n.1 n.2 with
  | some message => exact adds_error _ _ _
  | none => exact Adds.refl r

theorem host_message_coded {n : Dict String Json} {i : Nat} :
    Coded ["V-09"] (host_message py registry n i).toList := by
  unfold host_message
  simp only
  split_ifs
  · exact coded_nil
  · exact coded_nil
  · exact coded_nil
  · refine coded_singleton ?_
    repeat apply prefix_append
    decide

/-- What the checks of the contents let through. -/
structure Contents (py : Reprs) (registry : UnitAdapterRegistry) (dag : WorkflowDAG)
    (strict : Bool) : Prop where
  conditions : ∀ e ∈ dag.edges, accepted_condition (getJson e "condition")
  types : strict = true → ∀ n ∈ dag.nodes,
    type_message py (list_all_adapter_types registry._adapters) n = .ok none

/-- V-08 over all edges. -/
theorem check_conditions_spec {edges : List (Dict String Json × Nat)}
    (h : edges.foldlM check_condition r = .ok r') :
    ∃ ms, Adds r r' ms ∧ Coded ["V-08"] ms ∧
      (ms = [] → ∀ e ∈ edges, accepted_condition (getJson e.1 "condition")) := by
  induction edges generalizing r with
  | nil =>
    obtain rfl := Except.ok.inj h
    exact ⟨[], Adds.refl r, coded_nil, by simp⟩
  | cons e rest ih =>
    rw [List.foldlM_cons] at h
    obtain ⟨r₁, he, hrest⟩ := bind_eq_ok.mp h
    obtain ⟨ms₁, hadds₁, hcoded₁, hall₁⟩ := check_condition_spec he
    obtain ⟨ms₂, hadds₂, hcoded₂, hall₂⟩ := ih hrest
    refine ⟨ms₁ ++ ms₂, hadds₁.trans hadds₂, coded_append hcoded₁ hcoded₂, fun hnil => ?_⟩
    obtain ⟨hnil₁, hnil₂⟩ := List.append_eq_nil_iff.mp hnil
    exact List.forall_mem_cons.mpr ⟨hall₁ hnil₁, hall₂ hnil₂⟩

/-- V-07 over all nodes. -/
theorem check_node_types_spec {registered : List String} {nodes : List (Dict String Json × Nat)}
    (h : nodes.foldlM (check_type py registered) r = .ok r') :
    ∃ ms, Adds r r' ms ∧ Coded ["V-07"] ms ∧
      (ms = [] → ∀ n ∈ nodes, type_message py registered n.1 = .ok none) := by
  induction nodes generalizing r with
  | nil =>
    obtain rfl := Except.ok.inj h
    exact ⟨[], Adds.refl r, coded_nil, by simp⟩
  | cons n rest ih =>
    rw [List.foldlM_cons] at h
    obtain ⟨r₁, hn, hrest⟩ := bind_eq_ok.mp h
    obtain ⟨hadds₁, found, hfound⟩ := check_type_spec hn
    obtain ⟨ms₂, hadds₂, hcoded₂, hall₂⟩ := ih hrest
    refine ⟨_, hadds₁.trans hadds₂, coded_append type_message_coded hcoded₂, fun hnil => ?_⟩
    obtain ⟨hnil₁, hnil₂⟩ := List.append_eq_nil_iff.mp hnil
    refine List.forall_mem_cons.mpr ⟨?_, hall₂ hnil₂⟩
    rw [hfound] at hnil₁ ⊢
    cases found with
    | none => rfl
    | some message => simp [Except.toOption] at hnil₁

/-- V-07 is silent for strict checks only if every type is known. -/
theorem check_types_spec (h : check_types py registry dag strict r = .ok r') :
    ∃ ms, Adds r r' ms ∧ Coded ["V-07"] ms ∧
      (ms = [] → strict = true → ∀ n ∈ dag.nodes,
        type_message py (list_all_adapter_types registry._adapters) n = .ok none) := by
  unfold check_types at h
  split_ifs at h with hstrict
  · obtain ⟨ms, hadds, hcoded, hall⟩ := check_node_types_spec h
    refine ⟨ms, hadds, hcoded, fun hnil _ => ?_⟩
    exact (forall_mem_zipIdx (p := fun n => type_message py
      (list_all_adapter_types registry._adapters) n = .ok none)).mp (hall hnil)
  · obtain rfl := Except.ok.inj h
    exact ⟨[], Adds.refl r, coded_nil, fun _ h => absurd h hstrict⟩

/-- What the checks of the contents report. -/
theorem check_contents_spec (h : check_contents py registry dag strict r = .ok r') :
    ∃ ms, Adds r r' ms ∧ Coded ["V-07", "V-08", "V-09"] ms ∧
      (ms = [] → Contents py registry dag strict) := by
  unfold check_contents at h
  obtain ⟨r₁, htypes, h⟩ := bind_eq_ok.mp h
  obtain ⟨r₂, hconditions, h⟩ := bind_eq_ok.mp h
  obtain rfl := Except.ok.inj h
  obtain ⟨ms₁, hadds₁, hcoded₁, hall₁⟩ := check_types_spec htypes
  obtain ⟨ms₂, hadds₂, hcoded₂, hall₂⟩ := check_conditions_spec hconditions
  have hhosts : ∃ ms₃, Adds r₂
    (if strict then dag.nodes.zipIdx.foldl (check_hosts py registry) r₂ else r₂) ms₃ ∧
      Coded ["V-09"] ms₃ := by
    split_ifs
    · refine ⟨_, adds_foldl check_hosts_spec dag.nodes.zipIdx r₂, fun m hm => ?_⟩
      obtain ⟨n, _, hm⟩ := List.mem_flatMap.mp hm
      exact host_message_coded m hm
    · exact ⟨[], Adds.refl r₂, coded_nil⟩
  obtain ⟨ms₃, hadds₃, hcoded₃⟩ := hhosts
  refine ⟨_, (hadds₁.trans hadds₂).trans hadds₃, ?_, fun hnil => ?_⟩
  · exact coded_append (coded_append (hcoded₁.mono (by simp)) (hcoded₂.mono (by simp)))
      (hcoded₃.mono (by simp))
  · simp only [List.append_eq_nil_iff] at hnil
    obtain ⟨⟨hnil₁, hnil₂⟩, -⟩ := hnil
    refine ⟨?_, hall₁ hnil₁⟩
    exact (forall_mem_zipIdx (p := fun e => accepted_condition (getJson e "condition"))).mp
      (hall₂ hnil₂)

theorem adds_warning (r : DAGValidationResult) (ptr message : String) :
    Adds r (r.add_warning ptr message) [] :=
  ⟨by simp [messages, DAGValidationResult.add_warning], rfl, fun h => ⟨h.ok_iff, h.filled⟩⟩

/-- A warning adds no message. -/
theorem warn_isolated_spec (v : View) (r : DAGValidationResult) (kv : String × Nat) :
    Adds r (warn_isolated v r kv) [] := by
  unfold warn_isolated
  simp only
  split
  · exact Adds.refl r
  · split
    · exact adds_warning _ _ _
    · exact Adds.refl r

/-- What the verdict `r` of `validate_dag` tells: the reports of the structure, the sorted graph
or its cycle, and later reports under other codes. -/
structure Verdict (py : Reprs) (registry : UnitAdapterRegistry) (dag : WorkflowDAG) (strict : Bool)
    (r : DAGValidationResult) (v : View) (basic loops cycles later : List String) : Prop where
  kept : Kept r
  messages : ∀ m, m ∈ messages r ↔ m ∈ basic ∨ m ∈ loops ∨ m ∈ cycles ∨ m ∈ later
  nodup : v.keys.Nodup
  closed : ∀ a b, Link v.links a b → a ∈ v.keys ∧ b ∈ v.keys
  basic_coded : Coded ["V-01", "V-02", "V-03", "V-06"] basic
  loops_coded : Coded ["V-04"] loops
  cycles_coded : Coded ["V-04"] cycles
  later_coded : Coded ["V-05", "V-07", "V-08", "V-09"] later
  structured : basic = [] → Structured dag v
  loops_iff : loops ≠ [] ↔ ∃ a, Link v.links a a
  cycles_iff : basic = [] → loops = [] → (cycles ≠ [] ↔ Cyclic v.links)
  order : basic = [] → loops = [] → cycles = [] → r.topological_order = (kahn v.links v.keys).order
  reachable : basic = [] → loops = [] → cycles = [] → later = [] →
    ∀ start, v.start_key = .str start →
    ∀ k ∈ v.keys, truly_isolated v k = false → Reaches v.links start k
  coreachable : basic = [] → loops = [] → cycles = [] → later = [] →
    ∀ start last, v.start_key = .str start →
    v.end_key = .str last → ∀ k ∈ v.keys, truly_isolated v k = false → Reaches v.links k last
  contents : later = [] → Contents py registry dag strict

/-- What Kahn's algorithm leaves of a kept result. -/
structure Sorted (v : View) (r r' : DAGValidationResult) (cycles : List String) : Prop where
  kept : Kept r'
  messages : ∀ m, m ∈ messages r' ↔ m ∈ dag_validator.messages r ∨ m ∈ cycles
  coded : Coded ["V-04"] cycles
  cycles_iff : r.errors = [] → (cycles ≠ [] ↔ Cyclic v.links)
  order : r.errors = [] → cycles = [] → r'.topological_order = (kahn v.links v.keys).order

/-- V-04 is silent only on an order of the nodes. -/
theorem sorted_of_check_acyclic (hnodup : v.keys.Nodup)
    (hclosed : ∀ a b, Link v.links a b → a ∈ v.keys ∧ b ∈ v.keys) (hkept : Kept r)
    (h : check_acyclic v r = .ok r') : ∃ cycles, Sorted v r r' cycles := by
  obtain ⟨herrors, hr⟩ | ⟨herrors, hacyclic, hr⟩ | ⟨herrors, hcyclic, m, hr, hcode⟩ :=
    check_acyclic_spec hnodup hclosed r
  · obtain rfl := Except.ok.inj (hr.symm.trans h)
    exact ⟨[], hkept, by simp, coded_nil, fun hnil => absurd hnil herrors, fun hnil => absurd hnil herrors⟩
  · obtain rfl := Except.ok.inj (hr.symm.trans h)
    exact ⟨[], ⟨hkept.ok_iff, hkept.filled⟩,
      by simp [messages], coded_nil, fun _ => by simp [hacyclic], fun _ _ => rfl⟩
  · obtain rfl := Except.ok.inj (hr.symm.trans h)
    have hadds := adds_error r "/edges" m
    exact ⟨[m], hadds.kept hkept, hadds.messages, coded_singleton hcode,
      fun _ => by simp [hcyclic], by simp⟩

theorem Kept.errors_eq_nil (h : Kept r) (hnone : ∀ m, m ∉ messages r) : r.errors = [] :=
  h.errors_eq_nil_iff.mpr (List.eq_nil_iff_forall_not_mem.mpr hnone)

/-- What a whole validation reports, check by check. -/
theorem validate_dag_spec (h : validate_dag py registry dag strict = .ok r) :
    ∃ v basic loops cycles later, Verdict py registry dag strict r v basic loops cycles later := by
  unfold validate_dag at h
  obtain ⟨⟨v, r₁⟩, hstructure, h⟩ := bind_eq_ok.mp h
  obtain ⟨r₂, hacyclic, h⟩ := bind_eq_ok.mp h
  obtain ⟨r₃, hcontents, h⟩ := bind_eq_ok.mp h
  obtain rfl := Except.ok.inj h
  obtain ⟨basic, loops, report⟩ := check_structure_spec hstructure
  obtain ⟨cycles, sorted⟩ := sorted_of_check_acyclic report.nodup report.closed report.kept hacyclic
  obtain ⟨ms₁, hadds₁, hcoded₁, hreach⟩ := check_reachable_spec v r₂
  obtain ⟨ms₂, hadds₂, hcoded₂, hcoreach⟩ := check_coreachable_spec v (check_reachable v r₂)
  obtain ⟨ms₃, hadds₃, hcoded₃, hcontent⟩ := check_contents_spec hcontents
  have hlater :=
    ((hadds₁.trans hadds₂).trans hadds₃).trans (adds_foldl (warn_isolated_spec v) v.key_to_idx r₃)
  have hnowarn : v.key_to_idx.flatMap (fun _ => ([] : List String)) = [] := by simp
  rw [hnowarn, List.append_nil] at hlater
  -- no reports up to the graph leave its checks without an error
  have hempty₁ : basic = [] → loops = [] → r₁.errors = [] := by
    rintro rfl rfl
    apply report.kept.errors_eq_nil
    intro m hm
    simpa using (report.messages m).mp hm
  have hempty₂ : basic = [] → loops = [] → cycles = [] → r₂.errors = [] := by
    rintro rfl rfl rfl
    apply sorted.kept.errors_eq_nil
    intro m hm
    obtain hm | hm := (sorted.messages m).mp hm
    · simpa using (report.messages m).mp hm
    · simp at hm
  have hempty₃ : r₂.errors = [] → ms₁ = [] → (check_reachable v r₂).errors = [] := by
    rintro herrors rfl
    apply (hadds₁.kept sorted.kept).errors_eq_nil
    intro m hm
    have hm' := (hadds₁.messages m).mp hm
    rw [sorted.kept.errors_eq_nil_iff.mp herrors] at hm'
    simp at hm'
  refine ⟨v, basic, loops, cycles, ms₁ ++ ms₂ ++ ms₃, ?_⟩
  constructor
  · exact hlater.kept sorted.kept
  · intro m
    rw [hlater.messages, sorted.messages, report.messages, or_assoc, or_assoc]
  · exact report.nodup
  · exact report.closed
  · exact report.basic_coded
  · exact report.loops_coded
  · exact sorted.coded
  · exact coded_append (coded_append (hcoded₁.mono (by simp)) (hcoded₂.mono (by simp)))
      (hcoded₃.mono (by simp))
  · exact report.structured
  · exact report.loops_iff
  · exact fun hbasic hloops => sorted.cycles_iff (hempty₁ hbasic hloops)
  · exact fun hbasic hloops hcycles =>
      hlater.order.trans (sorted.order (hempty₁ hbasic hloops) hcycles)
  · intro hbasic hloops hcycles hnil
    simp only [List.append_eq_nil_iff] at hnil
    exact hreach (hempty₂ hbasic hloops hcycles) hnil.1.1
  · intro hbasic hloops hcycles hnil
    simp only [List.append_eq_nil_iff] at hnil
    exact hcoreach (hempty₃ (hempty₂ hbasic hloops hcycles) hnil.1.1) hnil.1.2
  · exact fun hnil => hcontent (List.append_eq_nil_iff.mp hnil).2

/-- An accepted DAG has no reports at all. -/
theorem Verdict.of_ok {basic loops cycles later : List String}
    (verdict : Verdict py registry dag strict r v basic loops cycles later) (hok : r.ok = true) :
    basic = [] ∧ loops = [] ∧ cycles = [] ∧ later = [] := by
  have hnone := verdict.kept.ok_iff_messages.mp hok
  have hall := verdict.messages
  rw [hnone] at hall
  refine ⟨?_, ?_, ?_, ?_⟩ <;> apply List.eq_nil_iff_forall_not_mem.mpr <;> intro m hm
  · simpa [hm] using hall m
  · simpa [hm] using hall m
  · simpa [hm] using hall m
  · simpa [hm] using hall m

end taurus.engine.dag_validator
