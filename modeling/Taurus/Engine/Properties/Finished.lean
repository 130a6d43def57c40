import Taurus.Engine.Steps.Quiet
import Taurus.Engine.Properties.SkipAgreement

namespace taurus.engine.runner

open taurus.lib taurus.lib.Prog taurus.python taurus.engine.executor

variable {ver : DagVersion} {x : Execution}

/-- What a later call may do to a finished execution: nothing is dispatched, no row changes
its status and the execution keeps its own. -/
structure FinishedFinal (w w' : World) : Prop where
  quiet : NoDispatch w.log w'.log
  rows : ∀ r ∈ w.rows, ∃ r' ∈ w'.rows, r'.pk = r.pk ∧ r'.status = r.status
  status : w'.execution.map (·.status) = w.execution.map (·.status)

theorem FinishedFinal.refl (w : World) : FinishedFinal w w :=
  ⟨.refl _, fun r hr => ⟨r, hr, rfl, rfl⟩, rfl⟩

/-- What is final stays final. -/
theorem FinishedFinal.trans {w₁ w₂ w₃ : World} (h : FinishedFinal w₁ w₂)
    (h' : FinishedFinal w₂ w₃) :
    FinishedFinal w₁ w₃ where
  quiet := h.quiet.trans h'.quiet
  rows r hr := by
    obtain ⟨r₂, hr₂, hpk, hstatus⟩ := h.rows r hr
    obtain ⟨r₃, hr₃, hpk', hstatus'⟩ := h'.rows r₂ hr₂
    exact ⟨r₃, hr₃, hpk'.trans hpk, hstatus'.trans hstatus⟩
  status := h'.status.trans h.status

/-- The status an aggregation over `rows` gives to a loop parent. -/
def loop_status (rows : List NodeExec) (key : String) : Status :=
  if (child_rows rows key).any (·.status = .FAILED) then .FAILED else .SUCCESS

/-- The status the business rows call for. -/
def rows_status (rows : List NodeExec) : ExecStatus :=
  let rows := rows.filter fun r => r.node_type ≠ "start" ∧ r.node_type ≠ "end"
  if rows.any (·.status = .CANCELLED) then .CANCELLED
  else if rows.any (·.status = .FAILED) then .FAILED
  else .SUCCESS

/-- A state in which a tick has nothing to do but to aggregate, skip and finalize: no row is
unfinished, no aggregation would change the status of its loop parent, no business node
without rows is runnable, and the execution has the status its rows call for. -/
structure QuietTick (ver : DagVersion) (env : Env) (x : Execution) (w : World) : Prop where
  settled : AllSettled w.rows
  aggregated : ∀ r ∈ w.rows, is_loop_parent r = true → r.status = loop_status w.rows r.node_key
  started : ∀ n ∈ ver.dag.nodes, n.node_type ≠ "start" → n.node_type ≠ "end" →
    node_rows w.rows n.node_key = [] →
      n.node_key ∉ (compute_next_runnables ver.dag (node_rows (aggregated_table env w.table).rows)
        (refresh_ctx (aggregated_table env w.table).rows (_build_edge_ctx x ver)) x.fail_strategy).1
  status : x.status = rows_status w.rows

/-- The calls that leave a finished execution as it is. -/
def QuietCall (ver : DagVersion) (w : World) : Call → Prop
  | .trigger .. => False
  | .advance env _ | .scheduled env => ∃ x, w.execution = some x ∧ QuietTick ver env x w
  | .cancel .. => ∃ x, w.execution = some x ∧ x.status = .CANCELLED ∧ AllSettled w.rows

/-- What the aggregation of a settled loop keeps of a row. -/
def outline (r : NodeExec) : Nat × String × String × Status :=
  (r.pk, r.node_key, r.node_type, r.status)

/-- The status of a loop is read off the outlines of its rows. -/
theorem loop_status_congr {rows rows' : List NodeExec} (h : rows'.map outline = rows.map outline)
    (key : String) : loop_status rows' key = loop_status rows key := by
  have hany : ∀ rows : List NodeExec, (child_rows rows key).any (·.status = .FAILED) =
      (rows.map outline).any fun o => hasChildPrefix key o.2.1 && decide (o.2.2.2 = .FAILED) := by
    intro rows
    rw [child_rows, List.any_filter, List.any_map]
    rfl
  unfold loop_status
  rw [hany, hany, h]

/-- Aggregations that respect the status of their loop parents change no outline. -/
theorem aggregated_table_outline (env : Env) {t : Table}
    (h : ∀ r ∈ t.rows, is_loop_parent r = true → r.status = loop_status t.rows r.node_key) :
    (aggregated_table env t).rows.map outline = t.rows.map outline := by
  suffices hfold : ∀ (parents : List NodeExec) (t' : Table),
      (∀ p ∈ parents, p ∈ t.rows ∧ p.status = loop_status t.rows p.node_key) →
      t'.rows.map outline = t.rows.map outline →
      (parents.foldl (fun t parent => t.save (aggregated_row env parent
        (child_rows t.rows parent.node_key)) env.now aggregateFields) t').rows.map outline =
        t.rows.map outline from
    hfold _ t (fun p hp => by
      obtain ⟨hp, hparent⟩ := List.mem_filter.mp hp
      exact ⟨hp, h p hp hparent⟩) rfl
  intro parents
  induction parents with
  | nil => exact fun _ _ h => h
  | cons p rest ih =>
    intro t' hparents hsame
    refine ih _ (fun q hq => hparents q (List.mem_cons_of_mem _ hq)) ?_
    obtain ⟨hp, hstatus⟩ := hparents p List.mem_cons_self
    rw [← hsame, Table.save_rows, List.map_map]
    refine List.map_congr_left fun r hr => ?_
    by_cases hpk : r.pk = p.pk
    · obtain ⟨q, hq, hqr⟩ := List.mem_map.mp (hsame ▸ List.mem_map_of_mem hr)
      have hqp : q = p := t.eq_of_pk hq hp ((congrArg Prod.fst hqr).trans hpk)
      have hrstatus : r.status = p.status := by
        rw [← hqp]
        exact (congrArg (·.2.2.2) hqr).symm
      have hnew : (aggregated_row env p (child_rows t'.rows p.node_key)).status = r.status := by
        rw [hrstatus, hstatus, ← loop_status_congr hsame]
        rfl
      have hrow : r.pk = (aggregated_row env p (child_rows t'.rows p.node_key)).pk := hpk
      simp [outline, NodeExec.write, aggregateFields, hrow.symm, hnew]
    · have hrow : r.pk ≠ (aggregated_row env p (child_rows t'.rows p.node_key)).pk := hpk
      simp [hrow]

/-- The rows stay as they are, and those that come in are skipped or reached end nodes. -/
structure OnlySkips (rows rows' : List NodeExec) : Prop where
  kept : ∀ r ∈ rows, outline r ∈ rows'.map outline
  new : ∀ r' ∈ rows', outline r' ∈ rows.map outline ∨ r'.status = .SKIPPED ∨
    (r'.node_type = "end" ∧ r'.status = .SUCCESS)

namespace OnlySkips

variable {rows rows' rows'' : List NodeExec}

/-- Equal outlines differ by no skip. -/
theorem of_outline (h : rows'.map outline = rows.map outline) : OnlySkips rows rows' where
  kept _ hr := h ▸ List.mem_map_of_mem hr
  new _ hr := Or.inl (h ▸ List.mem_map_of_mem hr)

/-- Skips after skips. -/
theorem trans (h : OnlySkips rows rows') (h' : OnlySkips rows' rows'') : OnlySkips rows rows'' where
  kept r hr := by
    obtain ⟨r', hr', heq⟩ := List.mem_map.mp (h.kept r hr)
    exact heq ▸ h'.kept r' hr'
  new r hr := by
    obtain hold | hnew := h'.new r hr
    · obtain ⟨r', hr', heq⟩ := List.mem_map.mp hold
      simp only [outline, Prod.mk.injEq] at heq
      obtain ⟨hpk, hkey, htype, hstatus⟩ := heq
      have hr' := h.new r' hr'
      simpa only [outline, hpk, hkey, htype, hstatus] using hr'
    · exact Or.inr hnew

/-- Skipping leaves all rows ended. -/
theorem settled (h : OnlySkips rows rows') (hsettled : AllSettled rows) : AllSettled rows' := by
  intro r' hr'
  obtain hold | hskipped | ⟨_, hsuccess⟩ := h.new r' hr'
  · obtain ⟨r, hr, heq⟩ := List.mem_map.mp hold
    have hstatus : r.status = r'.status := congrArg (·.2.2.2) heq
    exact hstatus ▸ hsettled r hr
  · simp [hskipped]
  · simp [hsuccess]

/-- So the status the rows call for stays the same. -/
theorem rows_status_eq (h : OnlySkips rows rows') : rows_status rows' = rows_status rows := by
  have hany : ∀ s : Status, s ≠ .SKIPPED →
      (rows'.filter (fun r => r.node_type ≠ "start" ∧ r.node_type ≠ "end")).any (·.status = s) =
      (rows.filter (fun r => r.node_type ≠ "start" ∧ r.node_type ≠ "end")).any (·.status = s) := by
    intro s hs
    rw [Bool.eq_iff_iff]
    simp only [List.any_eq_true, List.mem_filter, decide_eq_true_eq]
    constructor
    · rintro ⟨r', ⟨hr', htype⟩, hstatus⟩
      obtain hold | hskipped | ⟨hend, _⟩ := h.new r' hr'
      · obtain ⟨r, hr, heq⟩ := List.mem_map.mp hold
        simp only [outline, Prod.mk.injEq] at heq
        exact ⟨r, ⟨hr, heq.2.2.1 ▸ htype⟩, heq.2.2.2.trans hstatus⟩
      · exact absurd (hstatus.symm.trans hskipped) hs
      · exact absurd hend htype.2
    · rintro ⟨r, ⟨hr, htype⟩, hstatus⟩
      obtain ⟨r', hr', heq⟩ := List.mem_map.mp (h.kept r hr)
      simp only [outline, Prod.mk.injEq] at heq
      exact ⟨r', ⟨hr', heq.2.2.1 ▸ htype⟩, heq.2.2.2.trans hstatus⟩
  unfold rows_status
  simp only
  rw [hany .CANCELLED (by simp), hany .FAILED (by simp)]

end OnlySkips

/-- The final status is that of the rows. -/
theorem final_status_eq {dag : Dag} {rows : List NodeExec} {s : ExecStatus}
    (h : final_status dag rows = some s) : s = rows_status rows := by
  unfold final_status at h
  unfold rows_status
  generalize rows.filter (fun r => r.node_type ≠ "start" ∧ r.node_type ≠ "end") = business at h ⊢
  simp only at h ⊢
  split_ifs at h with hmissing hempty hnone hopen hcancel hfailed
  · rw [hempty.1]
    exact (Option.some.inj h).symm
  · rw [if_pos hcancel]
    exact (Option.some.inj h).symm
  · rw [if_neg hcancel, if_pos hfailed]
    exact (Option.some.inj h).symm
  · rw [if_neg hcancel, if_neg hfailed]
    exact (Option.some.inj h).symm

/-- A tick that has only let rows come in that are skipped or reached end nodes. -/
structure Calm (x : Execution) (log : List Entry) (rows : List NodeExec) (w : World) : Prop where
  execution : w.execution = some x
  quiet : NoDispatch log w.log
  rows : OnlySkips rows w.rows

section Calm

variable {log : List Entry} {rows : List NodeExec}

/-- The rule for inserting skipped rows or reached end nodes. -/
theorem triple_bulk_create_calm (act : Act) (hact : act.dispatched? = none)
    (hrows : ∀ r ∈ act.rows, r.status = .SKIPPED ∨ (r.node_type = "end" ∧ r.status = .SUCCESS)) :
    Triple (fun s => ∃ w, Calm x log rows w ∧ s = w.note act) (bulk_create act.rows)
      (fun created w => Calm x log rows w ∧ ∀ c ∈ created, c.status.terminal = true)
      (fun w => NoDispatch log w.log) := by
  refine triple_bulk_create (fun w table created hw hins => ?_) fun w hw => hw.quiet.note hact
  have hc := Table.bulk_create_created hins
  have hstored : ∀ c ∈ created, c.status = .SKIPPED ∨
      (c.node_type = "end" ∧ c.status = .SUCCESS) := by
    intro c hcm
    obtain ⟨r, hr, heq⟩ := hc.row_of_mem c hcm
    rw [heq]
    exact hrows r hr
  refine ⟨⟨hw.execution, hw.quiet.note hact, hw.rows.trans ⟨fun r hr => ?_, fun r hr => ?_⟩⟩,
    fun c hcm => ?_⟩
  · exact List.mem_map_of_mem ((hc.mem r).mpr (Or.inr hr))
  · obtain hcm | hold := (hc.mem r).mp hr
    · exact Or.inr (hstored r hcm)
    · exact Or.inl (List.mem_map_of_mem hold)
  · rcases hstored c hcm with h | ⟨_, h⟩ <;> simp [h]

/-- Rows that are not pending are not dispatched. -/
theorem triple_dispatch_none {env : Env} {dag : Dag} {ctx : EdgeCtx} {user_id : Option Int}
    {rows : List NodeExec} {P E : World → Prop} (h : ∀ r ∈ rows, r.status ≠ .PENDING) :
    Triple P (_dispatch_pending env x dag rows ctx user_id)
      (fun accepted w => accepted = 0 ∧ P w) E := by
  have hloop : ∀ w, Prog.forEach (dispatch_row env x dag ctx user_id) rows w =
      (.ok (rows.map fun _ => false), w) := by
    intro w
    induction rows with
    | nil => rfl
    | cons r rest ih =>
      have hr : dispatch_row env x dag ctx user_id r w = (.ok false, w) := by
        unfold dispatch_row
        rw [if_pos (h r List.mem_cons_self)]
        rfl
      simp only [Prog.forEach, Prog.andThen, hr, ih fun q hq => h q (List.mem_cons_of_mem _ hq)]
      rfl
  refine triple_bind (R := fun accepted w => accepted = rows.map (fun _ => false) ∧ P w)
    (fun w hw => ?_) fun accepted => ?_
  · rw [hloop w]
    exact ⟨rfl, hw⟩
  · rintro w ⟨rfl, hw⟩
    exact ⟨by simp [List.count_replicate, List.map_const'], hw⟩

/-- In a calm tick the dispatch phase creates end nodes at most, and dispatches nothing. -/
theorem triple_dispatch_phase_calm {env : Env} {ctx : EdgeCtx} {user_id : Option Int} {t : Table}
    (hsettled : AllSettled rows) (hrows : OnlySkips rows t.rows)
    (hkeys : ∀ n ∈ ver.dag.nodes, n.node_type ≠ "start" → n.node_type ≠ "end" →
      node_rows t.rows n.node_key = [] →
        n.node_key ∉ (compute_next_runnables ver.dag (node_rows t.rows) ctx x.fail_strategy).1) :
    Triple (Resting x log t) (dispatch_phase env x ver ctx user_id)
      (fun _ => Calm x log rows) (fun w => NoDispatch log w.log) := by
  refine triple_bind (triple_getState (Q := fun s w => s.rows = t.rows ∧ Calm x log rows w)
    fun w hw => ⟨hw.rows, hw.execution, hw.quiet, hw.rows ▸ hrows⟩) fun s => ?_
  rintro w ⟨hs, hw⟩
  simp only [hs]
  set keys :=
    (compute_next_runnables ver.dag (node_rows t.rows) ctx x.fail_strategy).1 with hkeys_eq
  set created := rows_for_keys env x ver.dag user_id (node_rows t.rows) keys with hcreated
  have hend : ∀ r ∈ created, r.status = .SKIPPED ∨ (r.node_type = "end" ∧ r.status = .SUCCESS) := by
    intro r hr
    obtain ⟨key, hkey, hr⟩ := List.mem_flatMap.mp hr
    split_ifs at hr with hold
    · cases hr
    split at hr
    · cases hr
    rename_i n hn
    obtain ⟨hmem, rfl⟩ := ver.dag.node?_eq_some_iff.mp hn
    obtain ⟨n', hn', hstart, _⟩ := (runnable_of_mem hkey).node
    obtain rfl : n = n' := Option.some.inj (hn.symm.trans hn')
    by_cases htype : n.node_type = "end"
    · exact Or.inr ⟨(firstRow_of_runnable_rows hr).node_type.trans htype,
        runnable_rows_status hr htype⟩
    · exact absurd hkey (hkeys n hmem hstart htype (by simpa using hold))
  suffices hphase : Triple (Calm x log rows) _ (fun _ => Calm x log rows)
    (fun w => NoDispatch log w.log)
    from hphase w hw
  refine triple_bind (R := fun created w => Calm x log rows w ∧ ∀ c ∈ created,
    c.status.terminal = true)
    ?_ fun created => ?_
  · unfold create_rows
    split_ifs with hnone
    · exact triple_pure fun w hw => ⟨hw, by simp⟩
    · exact triple_bind triple_record_noted fun _ =>
        triple_bulk_create_calm (.create created) rfl hend
  refine triple_bind (triple_objects_filter (Q := fun pending w =>
    pending = [] ∧ Calm x log rows w ∧ ∀ c ∈ created,
      c.status.terminal = true) fun w hw => ⟨?_, hw⟩)
    fun pending => ?_
  · exact filter_eq_nil_of_settled (hw.1.rows.settled hsettled) fun r hr => by
      simp only [Bool.and_eq_true, decide_eq_true_eq] at hr
      simp [hr.1]
  rintro w ⟨rfl, hw, hterm⟩
  have hpending : ∀ r ∈ created ++ [], r.status ≠ .PENDING := by
    intro r hr hstatus
    have := hterm r (by simpa using hr)
    simp [hstatus] at this
  refine (triple_bind (triple_dispatch_none hpending) fun accepted => ?_ :
    Triple (Calm x log rows) (_ >>= _) (fun _ => Calm x log rows)
    fun w => NoDispatch log w.log) w hw
  rintro w ⟨rfl, hw⟩
  exact hw

/-- Skipping dispatches nothing. -/
theorem triple_skip_calm {env : Env} {ctx : EdgeCtx} {user_id : Option Int} :
    Triple (Calm x log rows) (_mark_ineligible_nodes_skipped env x ver.dag ctx user_id)
      (fun _ => Calm x log rows) (fun w => NoDispatch log w.log) := by
  refine triple_bind (triple_objects_filter (Q := fun _ => Calm x log rows) fun w hw => hw)
    fun existing => ?_
  simp only
  split_ifs with hnone
  · exact triple_pure fun _ h => h
  refine triple_bind triple_record_noted fun _ => ?_
  refine triple_bind (triple_bulk_create_calm (.skip x ctx (skip_inserts env x ver.dag existing ctx
    user_id)) rfl fun r hr => ?_) fun _ => triple_pure fun _ h => h.1
  obtain ⟨n, _, hrow⟩ := skip_inserts_spec hr
  exact Or.inl (firstRow_of_skipped hrow).2.2.1

/-- The final status of a calm tick is the one the rows called for before. -/
theorem triple_finalize_calm {env : Env} (hstatus : x.status = rows_status rows)
    {E : World → Prop} :
    Triple (Calm x log rows) (_finalize_workflow_if_done env ver.dag)
      (fun _ w => (w.execution.map (·.status) = some x.status ∧ NoDispatch log w.log) ∧
        OnlySkips rows w.rows)
      E := by
  refine triple_bind (triple_getState (Q := fun s w => s.rows = w.rows ∧ Calm x log rows w)
    fun w hw => ⟨rfl, hw⟩) fun s => ?_
  rintro w ⟨hs, hw⟩
  rw [hs]
  cases hfinal : final_status ver.dag w.rows with
  | none => exact ⟨⟨by simp [hw.execution], hw.quiet⟩, hw.rows⟩
  | some status =>
    have heq : status = x.status := by rw [final_status_eq hfinal, hw.rows.rows_status_eq, hstatus]
    exact ⟨⟨by simp [hw.execution, heq], hw.quiet⟩, hw.rows⟩

end Calm

/-- Undoing a tick that has dispatched nothing leaves the execution as it was. -/
theorem FinishedFinal.rollback {w w' : World} (h : NoDispatch w.log w'.log) :
    FinishedFinal w (w.rollback w') := ⟨h, fun r hr => ⟨r, hr, rfl, rfl⟩, rfl⟩

/-- A tick in a quiet state leaves the execution as it is, whether it returns or raises. -/
theorem advance_final {env : Env} {user_id : Option Int} {w : World} (hx : w.execution = some x)
    (h : QuietTick ver env x w) : FinishedFinal w (advance_workflow env ver user_id w).2 := by
  have hsame := aggregated_table_outline env h.aggregated
  have hnone : ∀ k, node_rows (aggregated_table env w.table).rows k = [] →
      node_rows w.rows k = [] := by
    intro k hk
    refine node_rows_eq_nil.mpr fun r hr hkey => ?_
    obtain ⟨r', hr', heq⟩ := List.mem_map.mp (hsame ▸ List.mem_map_of_mem hr)
    exact node_rows_eq_nil.mp hk r' hr' ((congrArg (·.2.1) heq).trans hkey)
  refine Triple.state (P := Resting x w.log w.table) (triple_advance_settled (Q := FinishedFinal w)
    (E := fun w' => NoDispatch w.log w'.log) h.settled (fun tick => ?_) fun w₁ w' hw₁ hw' => ?_)
    (.start hx)
  · refine triple_bind (R := fun ctx w' => ctx = refresh_ctx (aggregated_table env w.table).rows
      (_build_edge_ctx x ver) ∧ Resting x w.log (aggregated_table env w.table) w')
      (fun w' hw' => ⟨by rw [hw'.rows], hw'⟩) fun ctx => ?_
    rintro w' ⟨rfl, hw'⟩
    refine (triple_bind (triple_dispatch_phase_calm h.settled (.of_outline hsame) ?_)
      fun answer => ?_ :
      Triple (Resting x w.log (aggregated_table env w.table)) (_ >>= _) (fun _ => FinishedFinal w)
        fun w' => NoDispatch w.log w'.log) w' hw'
    · exact fun n hn hstart hend hrows => h.started n hn hstart hend (hnone _ hrows)
    refine triple_bind triple_skip_calm fun _ => ?_
    refine triple_bind (triple_finalize_calm h.status) fun _ => triple_pure fun s hs => ?_
    refine ⟨hs.1.2, fun r hr => ?_, by rw [hs.1.1, hx]; rfl⟩
    obtain ⟨r', hr', heq⟩ := List.mem_map.mp (hs.2.kept r hr)
    exact ⟨r', hr', congrArg Prod.fst heq, congrArg (·.2.2.2) heq⟩
  · refine ⟨hw', fun r hr => ⟨r, ?_, rfl, rfl⟩, ?_⟩
    · exact hw₁.rows ▸ hr
    · exact congrArg (Option.map (·.status)) (hw₁.execution.trans hx.symm)

/-- So does one in the transaction of the scheduler. -/
theorem scheduled_final {env : Env} {w : World} (hx : w.execution = some x)
    (h : QuietTick ver env x w) : FinishedFinal w (scheduled_advance env ver w).2 := by
  have hadvance : FinishedFinal w (advance_workflow env ver none w).2 := advance_final hx h
  unfold scheduled_advance transaction atomic
  rcases hres : advance_workflow env ver none w with ⟨_ | _, w'⟩ <;> simp only [hres] at hadvance ⊢
  · exact .rollback hadvance.quiet
  · exact hadvance

/-- Cancelling a cancelled execution without unfinished rows changes its end time only. -/
theorem cancel_final {env : Env} {reason : Option String} {w : World} (hx : w.execution = some x)
    (hcancelled : x.status = .CANCELLED) (h : AllSettled w.rows) :
    FinishedFinal w (cancel_workflow env reason w).2 := by
  refine Triple.state (P := Resting x w.log w.table) (E := FinishedFinal w)
    (triple_atomic (E := fun _ => False) ?_ fun _ _ _ hfalse => hfalse.elim) (.start hx)
  refine triple_bind (triple_getState
    (Q := fun s s' => s.execution = some x ∧ Resting x w.log w.table s')
    fun s hs => ⟨hs.execution, hs⟩) fun s => ?_
  rintro w' ⟨hsx, hw'⟩
  simp only [hsx]
  refine (triple_bind (triple_objects_filter (Q :=
    fun rows s => rows = [] ∧ Resting x w.log w.table s)
    fun s hs => ⟨?_, hs⟩) fun rows => ?_ : Triple _ (_ >>= _) (fun _ => FinishedFinal w)
      fun _ => False) w' hw'
  · rw [hs.rows]
    exact filter_eq_nil_of_settled h fun r hr => by
      simp only [is_unfinished, Bool.or_eq_true, decide_eq_true_eq] at hr
      rcases hr with hr | hr <;> simp [hr]
  · rintro s ⟨rfl, hs⟩
    refine ⟨hs.quiet, fun r hr => ⟨r, hs.rows ▸ hr, rfl, rfl⟩, ?_⟩
    simp [hs.execution, hx, hcancelled]

/-- One quiet call. -/
def QuietCalls (ver : DagVersion) (w w' : World) : Prop :=
  ∃ c : Call, QuietCall ver w c ∧ w' = c.run ver w

/-- A finished execution stays as it is in every run of calls that each find it quiet. -/
theorem finished_final {w w' : World} (h : Relation.ReflTransGen (QuietCalls ver) w w') :
    FinishedFinal w w' := by
  induction h with
  | refl => exact .refl w
  | tail _ hcall ih =>
    obtain ⟨c, hc, rfl⟩ := hcall
    refine ih.trans ?_
    cases c with
    | trigger => exact hc.elim
    | advance env user =>
      obtain ⟨x, hx, htick⟩ := hc
      exact advance_final hx htick
    | scheduled env =>
      obtain ⟨x, hx, htick⟩ := hc
      exact scheduled_final hx htick
    | cancel env reason =>
      obtain ⟨x, hx, hcancelled, hsettled⟩ := hc
      exact cancel_final hx hcancelled hsettled

/-- A state in which every node has its rows is quiet. -/
theorem quietTick_of_rows {env : Env} {w : World} (hx : w.execution = some x)
    (hsettled : ∀ r ∈ w.rows, r.status.terminal = true)
    (hloops : ∀ r ∈ w.rows, is_loop_parent r = false)
    (hrows : ∀ n ∈ ver.dag.nodes, ∃ r ∈ w.rows, r.node_key = n.node_key)
    (hstatus : w.execution.map (·.status) = some (rows_status w.rows)) : QuietTick ver env x w where
  settled := hsettled
  aggregated r hr hparent := by
    rw [hloops r hr] at hparent
    cases hparent
  started n hn _ _ hnone := by
    obtain ⟨r, hr, hkey⟩ := hrows n hn
    exact absurd hkey (node_rows_eq_nil.mp hnone r hr)
  status := by simpa [hx] using hstatus

/-- The failed execution of the checked deployment is final. -/
theorem checkedDeploy_final :
    ∃ w, Reachable checkedDeploy w ∧ w.execution.map (·.status) = some .FAILED ∧
      FinishedFinal w (Call.run checkedDeploy (.scheduled (checkFails 2)) w) := by
  have hstatus : (started checkedDeploy (checkFails 0) [.scheduled (checkFails 1)]).execution.map
      (·.status) = some .FAILED := by decide +kernel
  obtain ⟨x, hx, _⟩ := Option.map_eq_some_iff.mp hstatus
  refine ⟨_, started_reachable _ _ _ rfl, hstatus,
    finished_final (.single ⟨.scheduled (checkFails 2), ⟨x, hx, ?_⟩, rfl⟩)⟩
  exact quietTick_of_rows hx (by decide +kernel) (by decide +kernel) (by decide +kernel)
    (by decide +kernel)

/-- Two commands that a third one waits for; it runs when one of them has succeeded. -/
def twoSources : DagVersion where
  dag :=
    { nodes := [{ node_key := "start", node_type := "start" },
        { node_key := "build", node_type := "command" },
        { node_key := "test", node_type := "command" },
        { node_key := "deploy", node_type := "command" }]
      edges := [{ from_key := "start", to_key := "build" },
        { from_key := "start", to_key := "test" }, { from_key := "build", to_key := "deploy" },
        { from_key := "test", to_key := "deploy" }]
      keys_nodup := by decide
      edges_closed := by decide }
  workflow := { pk := 1, name := "two sources" }

/-- The build succeeds at its first poll, everything else keeps running. -/
def buildSucceeds (minute : Int) : Env :=
  scripted minute (fun _ _ => running) fun key _ =>
    if key = "build" then { status := .SUCCESS } else running

/-- After a cancellation the next tick dispatches the deployment. -/
theorem cancelled_deploy_dispatched :
    ∃ w, Reachable twoSources w ∧ w.execution.map (·.status) = some .CANCELLED ∧
      ¬ FinishedFinal w (Call.run twoSources (.scheduled (buildSucceeds 3)) w) := by
  refine ⟨started twoSources
    (buildSucceeds 0) [.scheduled (buildSucceeds 1), .cancel (buildSucceeds 2) none],
    started_reachable _ _ _ rfl, by decide +kernel, fun hfinal => ?_⟩
  have hmore : ((Call.run twoSources (.scheduled (buildSucceeds 3))
    (started twoSources (buildSucceeds 0)
      [.scheduled (buildSucceeds 1), .cancel (buildSucceeds 2) none])).log.filterMap
        (·.act.dispatched?)).length ≠ ((started twoSources (buildSucceeds 0)
      [.scheduled (buildSucceeds 1), .cancel (buildSucceeds 2) none]).log.filterMap
        (·.act.dispatched?)).length := by decide +kernel
  exact hmore (congrArg List.length hfinal.quiet.dispatched)

end taurus.engine.runner
