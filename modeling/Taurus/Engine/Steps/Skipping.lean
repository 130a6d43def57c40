import Taurus.Engine.Steps.Calls

namespace taurus.engine.runner

open taurus.lib taurus.python taurus.engine.executor

/-- Two rows of one node on one host. -/
def SameSlot (a b : NodeExec) : Prop := a.node_key = b.node_key ∧ a.host_id = b.host_id

private def slot (r : NodeExec) : String × String := (r.node_key, r.host_id)

private theorem sameSlot_iff {a b : NodeExec} : SameSlot a b ↔ slot a = slot b := by
  simp [SameSlot, slot]

/-- The row that has reached the highest attempt among the failed rows of its slot. -/
def LastFailed (rows : List NodeExec) (r : NodeExec) : Prop :=
  (r ∈ rows ∧ r.status = .FAILED) ∧
    ∀ s ∈ rows, s.status = .FAILED → SameSlot s r → s.attempt_no ≤ r.attempt_no

private theorem mem_keep_latest {latest : List NodeExec} {r y : NodeExec}
    (h : y ∈ keep_latest latest r) : y = r ∨ y ∈ latest := by
  induction latest with
  | nil => exact Or.inl (List.mem_singleton.mp h)
  | cons x rest ih =>
    unfold keep_latest at h
    split_ifs at h with hslot hlt
    · obtain rfl | h := List.mem_cons.mp h
      · exact Or.inl rfl
      · exact Or.inr (List.mem_cons_of_mem _ h)
    · exact Or.inr h
    · obtain rfl | h := List.mem_cons.mp h
      · exact Or.inr List.mem_cons_self
      · exact (ih h).imp_right (List.mem_cons_of_mem _)

/-- Each slot keeps its highest attempt. -/
private theorem keep_latest_covers (latest : List NodeExec) (r : NodeExec) :
    (∃ y ∈ keep_latest latest r, SameSlot r y ∧ r.attempt_no ≤ y.attempt_no) ∧
      ∀ z ∈ latest, ∃ y ∈ keep_latest latest r, SameSlot z y ∧ z.attempt_no ≤ y.attempt_no := by
  induction latest with
  | nil => exact ⟨⟨r, List.mem_singleton.mpr rfl, ⟨rfl, rfl⟩, le_refl _⟩, by simp⟩
  | cons x rest ih =>
    unfold keep_latest
    split_ifs with hslot hlt
    · refine ⟨⟨r, List.mem_cons_self, ⟨rfl, rfl⟩, le_refl _⟩, fun z hz => ?_⟩
      obtain rfl | hz := List.mem_cons.mp hz
      · exact ⟨r, List.mem_cons_self, hslot, hlt.le⟩
      · exact ⟨z, List.mem_cons_of_mem _ hz, ⟨rfl, rfl⟩, le_refl _⟩
    · refine ⟨⟨x, List.mem_cons_self, ⟨hslot.1.symm, hslot.2.symm⟩, not_lt.mp hlt⟩, fun z hz => ?_⟩
      exact ⟨z, hz, ⟨rfl, rfl⟩, le_refl _⟩
    · obtain ⟨⟨y, hy, hcover⟩, hall⟩ := ih
      refine ⟨⟨y, List.mem_cons_of_mem _ hy, hcover⟩, fun z hz => ?_⟩
      obtain rfl | hz := List.mem_cons.mp hz
      · exact ⟨z, List.mem_cons_self, ⟨rfl, rfl⟩, le_refl _⟩
      · obtain ⟨y, hy, hcover⟩ := hall z hz
        exact ⟨y, List.mem_cons_of_mem _ hy, hcover⟩

private theorem map_keep_latest (latest : List NodeExec) (r : NodeExec) :
    (keep_latest latest r).map slot =
      if slot r ∈ latest.map slot then latest.map slot else latest.map slot ++ [slot r] := by
  induction latest with
  | nil => simp [keep_latest]
  | cons x rest ih =>
    unfold keep_latest
    by_cases hslot : x.node_key = r.node_key ∧ x.host_id = r.host_id
    · have heq : slot x = slot r := sameSlot_iff.mp hslot
      rw [if_pos hslot]
      split_ifs with h₁ h₂ h₂ <;> simp_all
    · have hne : slot r ≠ slot x := fun h => hslot (sameSlot_iff.mpr h.symm)
      rw [if_neg hslot, List.map_cons, ih]
      by_cases hmem : slot r ∈ rest.map slot
      · rw [if_pos hmem, if_pos (by simp only [List.map_cons]; exact List.mem_cons_of_mem _ hmem),
          List.map_cons]
      · rw [if_neg hmem, if_neg
          (by simp only [List.map_cons, List.mem_cons, not_or]; exact ⟨hne, hmem⟩)]
        simp

/-- What is left is one failed row a slot, of the highest attempt. -/
private theorem latest_spec (failed : List NodeExec) :
    (∀ y ∈ latest_per_key_host failed, y ∈ failed) ∧
    (∀ s ∈ failed, ∃ y ∈ latest_per_key_host failed, SameSlot s y ∧ s.attempt_no ≤ y.attempt_no) ∧
    ((latest_per_key_host failed).map slot).Nodup := by
  induction failed using List.reverseRecOn with
  | nil => simp [latest_per_key_host]
  | append_singleton seen r ih =>
    obtain ⟨hmem, hcover, hnodup⟩ := ih
    have hfold : latest_per_key_host (seen ++ [r]) = keep_latest (latest_per_key_host seen) r := by
      simp [latest_per_key_host]
    rw [hfold]
    obtain ⟨hr, hold⟩ := keep_latest_covers (latest_per_key_host seen) r
    refine ⟨fun y hy => ?_, fun s hs => ?_, ?_⟩
    · obtain rfl | hy := mem_keep_latest hy
      · simp
      · exact List.mem_append_left _ (hmem y hy)
    · obtain hs | hs := List.mem_append.mp hs
      · obtain ⟨z, hz, hslot, hle⟩ := hcover s hs
        obtain ⟨y, hy, hslot', hle'⟩ := hold z hz
        exact ⟨y, hy, ⟨hslot.1.trans hslot'.1, hslot.2.trans hslot'.2⟩, hle.trans hle'⟩
      · obtain rfl := List.mem_singleton.mp hs
        exact hr
    · rw [map_keep_latest]
      split_ifs with hin
      · exact hnodup
      · rw [List.nodup_append]
        refine ⟨hnodup, List.nodup_singleton _, ?_⟩
        rintro a ha b hb rfl
        exact hin (List.mem_singleton.mp hb ▸ ha)

/-- The rows considered for a retry are the last failed ones of the completed nodes. -/
theorem mem_latest_per_key_host {rows : List NodeExec} {completed : List String} {r : NodeExec}
    (hnodup : (rows.map (·.attempt_key)).Nodup) :
    r ∈ latest_per_key_host (rows.filter fun r => r.status = .FAILED ∧
      completed.contains r.node_key) ↔
      LastFailed rows r ∧ r.node_key ∈ completed := by
  obtain ⟨hmem, hcover, hnd⟩ :=
    latest_spec (rows.filter fun r => r.status = .FAILED ∧ completed.contains r.node_key)
  have hfilter : ∀ s, s ∈ rows.filter
    (fun r => r.status = .FAILED ∧ completed.contains r.node_key) ↔
      s ∈ rows ∧ s.status = .FAILED ∧ s.node_key ∈ completed := by simp
  constructor
  · intro hr
    obtain ⟨hin, hfailed, hkey⟩ := (hfilter r).mp (hmem r hr)
    refine ⟨⟨⟨hin, hfailed⟩, fun s hs hsf hslot => ?_⟩, hkey⟩
    obtain ⟨y, hy, hys, hle⟩ := hcover s ((hfilter s).mpr ⟨hs, hsf, hslot.1 ▸ hkey⟩)
    have hsame : slot y = slot r := by
      rw [← sameSlot_iff.mp hys]
      exact sameSlot_iff.mp hslot
    rwa [List.inj_on_of_nodup_map hnd hy hr hsame] at hle
  · rintro ⟨⟨⟨hin, hfailed⟩, hlast⟩, hkey⟩
    obtain ⟨y, hy, hslot, hle⟩ := hcover r ((hfilter r).mpr ⟨hin, hfailed, hkey⟩)
    obtain ⟨hyin, hyf, _⟩ := (hfilter y).mp (hmem y hy)
    have hge := hlast y hyin hyf ⟨hslot.1.symm, hslot.2.symm⟩
    have heq : y = r := List.inj_on_of_nodup_map hnodup hyin hin
      (by simp [NodeExec.attempt_key, hslot.1, hslot.2, le_antisymm hge hle])
    exact heq ▸ hy

/-- What a retry pass builds: the next attempt of each last failed row that wants one. -/
theorem mem_retry_rows {env : Env} {x : Execution} {dag : Dag} {completed : List String}
    {user_id : Option Int} {rows : List NodeExec} {r : NodeExec}
    (hnodup : (rows.map (·.attempt_key)).Nodup) :
    r ∈ retry_rows env x dag completed user_id rows ↔
      ∃ old, (LastFailed rows old ∧ old.node_key ∈ completed) ∧
        ∃ n, wants_retry dag old = some n ∧ r = retry_row env x n user_id old := by
  unfold retry_rows
  simp only [List.mem_filterMap, Option.map_eq_some_iff]
  constructor
  · rintro ⟨old, hold, n, hn, rfl⟩
    exact ⟨old, (mem_latest_per_key_host hnodup).mp hold, n, hn, rfl⟩
  · rintro ⟨old, hold, n, hn, rfl⟩
    exact ⟨old, (mem_latest_per_key_host hnodup).mpr hold, n, hn, rfl⟩

/-- A node the skip pass may come to skip, whatever the edge values: it has no rows, and
each of its sources is terminal in the context or may be skipped in the same pass. -/
inductive Skippable (dag : Dag) (rows : List NodeExec) (ctx : EdgeCtx) : String → Prop
  | mk {key : String} (hnew : key ∉ rows.map (·.node_key))
      (hsources : ∀ e ∈ dag.incoming key,
        (Dict.get? ctx.node_statuses e.from_key).any (·.terminal) = false →
          Skippable dag rows ctx e.from_key) :
      Skippable dag rows ctx key

/-- Why the skip pass over `rows` in the context `ctx` skips a node: it has no rows,
no edge into it fires, and each of its sources is terminal in the context or among
the skipped nodes, whose rows are in `inserts`. -/
structure SkippedNode (dag : Dag) (strategy : String) (rows : List NodeExec) (ctx : EdgeCtx)
    (inserts : List NodeExec) (n : Node) : Prop where
  node : n ∈ dag.nodes
  not_start : n.node_type ≠ "start"
  not_end : n.node_type ≠ "end"
  skippable : Skippable dag rows ctx n.node_key
  incoming : dag.incoming n.node_key ≠ []
  sources : ∀ e ∈ dag.incoming n.node_key,
    (Dict.get? ctx.node_statuses e.from_key).any (·.terminal) = true ∨
      ∃ r ∈ inserts, r.node_key = e.from_key
  quiet : ∀ e ∈ dag.incoming n.node_key, skip_fires dag rows ctx strategy e = false

/-- A node is skipped once. -/
theorem Skippable.new {dag : Dag} {rows : List NodeExec} {ctx : EdgeCtx} {key : String}
    (h : Skippable dag rows ctx key) : key ∉ rows.map (·.node_key) := by
  cases h with
  | mk hnew _ => exact hnew

theorem SkippedNode.mono {dag : Dag} {strategy : String} {rows inserts inserts' : List NodeExec}
    {ctx : EdgeCtx} {n : Node} (h : SkippedNode dag strategy rows ctx inserts n)
    (hsub : inserts ⊆ inserts') : SkippedNode dag strategy rows ctx inserts' n where
  node := h.node
  not_start := h.not_start
  not_end := h.not_end
  skippable := h.skippable
  incoming := h.incoming
  sources e he := (h.sources e he).imp_right fun ⟨r, hr, hkey⟩ => ⟨r, hsub hr, hkey⟩
  quiet := h.quiet

theorem prep_ne_nil (env : Env) (x : Execution) (n : Node) (user_id : Option Int) :
    _prep_node_rows env x n user_id ≠ [] := by
  unfold _prep_node_rows
  cases expand_hosts n <;> simp

/-- A skipped row is a first row of its node. -/
theorem firstRow_of_skipped {env : Env} {x : Execution} {n : Node} {user_id : Option Int}
    {r : NodeExec} (h : r ∈ skipped_rows env x n user_id) :
    r.node_key = n.node_key ∧ r.attempt_no = 1 ∧ r.status = .SKIPPED ∧
      r.adapter_state = [("skipped_reason", .str "upstream_conditions_not_met")] ∧ r.output = [] ∧
      r.fail_strategy = resolve_node_fail_strategy n.fail_strategy x.strategy := by
  obtain ⟨base, hbase, rfl⟩ := List.mem_map.mp h
  have hf := (firstRow_of_prep hbase).1
  exact ⟨hf.node_key, hf.attempt_no, rfl, rfl, hf.output, hf.fail_strategy⟩

/-- What one turn of the skip pass keeps. -/
private structure SkipInv (env : Env) (x : Execution) (dag : Dag) (rows : List NodeExec)
    (ctx : EdgeCtx) (user_id : Option Int) (s : SkipState) : Prop where
  statuses : ∀ k, Dict.get? s.local_statuses k = Dict.get? ctx.node_statuses k ∨
    ∃ r ∈ s.inserts, r.node_key = k
  inserts : ∀ r ∈ s.inserts, ∃ n, SkippedNode dag x.strategy rows ctx s.inserts n ∧
    r ∈ skipped_rows env x n user_id

/-- A skipped node keeps the invariant of the pass. -/
private theorem skip_node_inv {env : Env} {x : Execution} {dag : Dag} {rows : List NodeExec}
    {ctx : EdgeCtx} {user_id : Option Int} {s : SkipState}
    (h : SkipInv env x dag rows ctx user_id s) (key : String) :
    SkipInv env x dag rows ctx user_id (skip_node env x dag user_id (rows.map (·.node_key))
      (skip_fires dag rows ctx x.strategy) s key) := by
  unfold skip_node
  cases hn : dag.node? key with
  | none => exact h
  | some n =>
    obtain ⟨hmem, rfl⟩ := dag.node?_eq_some_iff.mp hn
    simp only
    split_ifs with hold hnone hterm hfires
    · exact h
    · exact h
    · exact h
    · exact h
    simp only [Bool.or_eq_true, List.contains_iff_mem, not_or, decide_eq_true_eq] at hold
    have hsub : s.inserts ⊆ s.inserts ++ skipped_rows env x n user_id := List.subset_append_left _ _
    have hnode : SkippedNode dag x.strategy rows ctx
        (s.inserts ++ skipped_rows env x n user_id) n := by
      have hall : all_upstream_terminal dag s.local_statuses n.node_key = true := by
        simpa using hterm
      have hsource : ∀ e ∈ dag.incoming n.node_key,
          (Dict.get? ctx.node_statuses e.from_key).any (·.terminal) = true ∨
            ∃ r ∈ s.inserts, r.node_key = e.from_key := by
        intro e he
        have hs := (List.all_eq_true.mp hall) e he
        refine (h.statuses e.from_key).imp_left fun heq => ?_
        rwa [← heq]
      refine ⟨hmem, hold.1.2, hold.2, .mk hold.1.1 fun e he hopen => ?_, hnone, fun e he => ?_,
        fun e he => ?_⟩
      · obtain hs | ⟨r, hr, hkey⟩ := hsource e he
        · rw [hs] at hopen
          cases hopen
        · obtain ⟨m, hm, hrm⟩ := h.inserts r hr
          rw [← hkey, (firstRow_of_skipped hrm).1]
          exact hm.skippable
      · exact (hsource e he).imp_right fun ⟨r, hr, hkey⟩ => ⟨r, hsub hr, hkey⟩
      · simpa using mt (fun hf => List.any_eq_true.mpr ⟨e, he, hf⟩) hfires
    constructor
    · intro k
      simp only
      by_cases hk : n.node_key = k
      · obtain ⟨base, hbase⟩ := List.exists_mem_of_ne_nil _ (prep_ne_nil env x n user_id)
        have hr : { base with
            status := .SKIPPED, finished_at := some env.now,
            adapter_state := [("skipped_reason", .str "upstream_conditions_not_met")] } ∈
            skipped_rows env x n user_id := List.mem_map_of_mem hbase
        exact Or.inr ⟨_, List.mem_append_right _ hr, (firstRow_of_skipped hr).1.trans hk⟩
      · rw [Dict.get?_set_ne _ _ hk]
        exact (h.statuses k).imp_right fun ⟨r, hr, hkey⟩ => ⟨r, hsub hr, hkey⟩
    · intro r hr
      obtain hr | hr := List.mem_append.mp hr
      · obtain ⟨m, hm, hrm⟩ := h.inserts r hr
        exact ⟨m, hm.mono hsub, hrm⟩
      · exact ⟨n, hnode, hr⟩

/-- Every row of the skip pass belongs to a node that it skips for a reason. -/
theorem skip_inserts_spec {env : Env} {x : Execution} {dag : Dag} {rows : List NodeExec}
    {ctx : EdgeCtx} {user_id : Option Int} {r : NodeExec}
    (hr : r ∈ skip_inserts env x dag rows ctx user_id) :
    ∃ n, SkippedNode dag x.strategy rows ctx (skip_inserts env x dag rows ctx user_id) n ∧
      r ∈ skipped_rows env x n user_id := by
  have hinv : ∀ (keys : List String) (s : SkipState), SkipInv env x dag rows ctx user_id s →
      SkipInv env x dag rows ctx user_id (keys.foldl (skip_node env x dag user_id
        (rows.map (·.node_key)) (skip_fires dag rows ctx x.strategy)) s) := by
    intro keys
    induction keys with
    | nil => exact fun _ h => h
    | cons key rest ih => exact fun s h => ih _ (skip_node_inv h key)
  have hinit : SkipInv env x dag rows ctx user_id
      { local_statuses := ctx.node_statuses, inserts := [] } :=
    ⟨fun _ => Or.inl rfl, by simp⟩
  exact (hinv (topological_order dag) _ hinit).inserts r hr

end taurus.engine.runner
