import Taurus.Engine.Runner.Dispatch
import Taurus.Engine.Steps.Calls
import Taurus.Engine.Steps.Skipping

namespace taurus.engine.runner

open taurus.lib taurus.lib.Prog taurus.python taurus.engine.executor

/-- What no write of the runner changes. A row becomes RUNNING only by the answer of its adapter to
a dispatch, and no row is RUNNING when it is inserted. -/
structure KeptByCalls (ver : DagVersion) (I : World → Prop) : Prop where
  execution : ∀ w x, I w → I { w with execution := x }
  note : ∀ w act, I w → I (w.note act)
  insert : ∀ w rows table created, (∀ r ∈ rows, r.status ≠ .RUNNING) →
    w.table.bulk_create rows = some (table, created) → I w → I { w with table }
  save : ∀ w row now fields, (.status ∈ fields → row.status ≠ .RUNNING) → I w →
    I { w with table := w.table.save row now fields }
  answer : ∀ w row new now fields, new.pk = row.pk → I w →
    I { w.note (.dispatch row) with table := w.table.save new now fields }
  undo : ∀ w w', I w → Moves ver w (w.rollback w') → I (w.rollback w')

/-- An output writes the status when it changes. -/
theorem mem_apply_unit_output_fields {env : Env} {row : NodeExec} {uo : UnitOutput}
    {initial : Bool} :
    Field.status ∈ (_apply_unit_output env row uo initial).2 ↔
      nextStatus row.status uo.status ≠ row.status := by
  simp [_apply_unit_output, mem_assign_snd]

/-- The rows prepared for a node wait for their dispatch, or were reached at once. -/
theorem not_running_of_runnable {env : Env} {x : Execution} {n : Node} {user_id : Option Int}
    {r : NodeExec} (h : r ∈ runnable_rows env x user_id n) : r.status ≠ .RUNNING := by
  unfold runnable_rows at h
  simp only at h
  split_ifs at h
  · obtain ⟨base, -, rfl⟩ := List.mem_map.mp h
    simp [reached]
  · rcases (firstRow_of_prep h).2 with hstatus | hstatus <;> simp [hstatus]

/-- New rows do not run. -/
theorem not_running_of_rows_for_keys {env : Env} {x : Execution} {dag : Dag} {user_id : Option Int}
    {existing : String → List NodeExec} {keys : List String} {r : NodeExec}
    (h : r ∈ rows_for_keys env x dag user_id existing keys) : r.status ≠ .RUNNING := by
  unfold rows_for_keys at h
  obtain ⟨key, -, hr⟩ := List.mem_flatMap.mp h
  split_ifs at hr
  · cases hr
  split at hr
  · cases hr
  · exact not_running_of_runnable hr

/-- Neither do start rows. -/
theorem not_running_of_start {env : Env} {x : Execution} {dag : Dag} {user_id : Option Int}
    {r : NodeExec} (h : r ∈ start_rows env x dag user_id) : r.status ≠ .RUNNING := by
  unfold start_rows at h
  obtain ⟨n, -, hr⟩ := List.mem_flatMap.mp h
  obtain ⟨base, -, rfl⟩ := List.mem_map.mp hr
  simp [reached]

theorem not_running_of_retry {env : Env} {x : Execution} {dag : Dag} {completed : List String}
    {user_id : Option Int} {rows : List NodeExec} {r : NodeExec}
    (h : r ∈ retry_rows env x dag completed user_id rows) :
    r.status ≠ .RUNNING := by
  unfold retry_rows at h
  obtain ⟨old, -, hr⟩ := List.mem_filterMap.mp h
  obtain ⟨n, -, rfl⟩ := Option.map_eq_some_iff.mp hr
  simp [retry_row]

namespace KeptByCalls

variable {ver : DagVersion} {I : World → Prop} (h : KeptByCalls ver I)

include h

theorem record (act : Act) : Triple I (runner.record act) (fun _ => I) I :=
  triple_modifyState fun w hw => h.note w act hw

/-- A save that makes nothing run keeps the invariant. -/
theorem saved (env : Env) {row : NodeExec} {fields : List Field}
    (hrow : .status ∈ fields → row.status ≠ .RUNNING) :
    Triple I (runner.save env row fields) (fun _ => I) I :=
  triple_modifyState fun w hw => h.save w row env.now fields hrow hw

theorem bulk_create {rows : List NodeExec} (hrows : ∀ r ∈ rows, r.status ≠ .RUNNING) :
    Triple I (runner.bulk_create rows) (fun _ => I) I := by
  intro w hw
  unfold runner.bulk_create
  cases hins : w.table.bulk_create rows with
  | none => exact hw
  | some p => exact h.insert w rows p.1 p.2 hrows hins hw

omit h in
theorem load (p : NodeExec → Bool) : Triple I (objects_filter p) (fun _ => I) I := fun _ hw => hw

omit h in
theorem forEach {α β : Type} {body : α → RunnerM β} (hbody : ∀ a, Triple I (body a) (fun _ => I) I)
    (as : List α) :
    Triple I (Prog.forEach body as) (fun _ => I) I :=
  triple_forEach (I := fun _ => I) (fun a _ => hbody a) as

theorem fail_row (env : Env) (row : NodeExec) (message : String) :
    Triple I (runner.fail_row env row message) (fun _ => I) I :=
  triple_bind (h.saved env fun _ => by simp) fun _ => triple_pure fun _ hw => hw

theorem cancel_adapter (env : Env) (x : Execution) (row : NodeExec) :
    Triple I (runner.cancel_adapter env x row) (fun _ => I) I := by
  unfold runner.cancel_adapter
  split
  · exact triple_pure fun _ hw => hw
  split
  · exact triple_pure fun _ hw => hw
  · exact triple_bind (h.record _) fun _ => triple_pure fun _ hw => hw

/-- A running row may be answered. -/
theorem poll_answer (env : Env) {row : NodeExec} (uo : UnitOutput)
    (hrunning : row.status = .RUNNING) :
    Triple I (runner.poll_answer env row uo) (fun _ => I) I := by
  have hfields : .status ∈ (_apply_unit_output env row uo false).2 →
      (_apply_unit_output env row uo false).1.status ≠ .RUNNING := by
    rw [mem_apply_unit_output_fields, apply_unit_output_status, hrunning]
    exact id
  unfold runner.poll_answer
  simp only
  split_ifs with hnew hstate
  · exact triple_bind (h.saved env hfields) fun _ => triple_pure fun _ hw => hw
  · refine triple_bind (h.saved env fun hmem => hfields ?_) fun _ => triple_pure fun _ hw => hw
    simpa using hmem
  · exact triple_bind (h.saved env hfields) fun _ => triple_pure fun _ hw => hw

theorem poll_adapter (env : Env) (x : Execution) {row : NodeExec}
    (hrunning : row.status = .RUNNING) :
    Triple I (runner.poll_adapter env x row) (fun _ => I) I := by
  unfold runner.poll_adapter
  split
  · exact h.fail_row env row _
  refine triple_bind (R := fun _ => I)
    (triple_fromExcept (fun _ _ _ hw => hw) fun _ hw => hw) fun _ => ?_
  refine triple_bind (h.record _) fun _ => ?_
  split
  · exact h.fail_row env row _
  · exact h.poll_answer env _ hrunning

/-- Polling one row keeps the invariant. -/
theorem poll_one_row (env : Env) (x : Execution) (row : NodeExec) :
    Triple I (_poll_one_row env x row) (fun _ => I) I := by
  unfold _poll_one_row
  split
  · exact triple_pure fun _ hw => hw
  rename_i hstatus
  have hrunning : row.status = .RUNNING := by simpa using hstatus
  refine triple_bind (R := fun _ => I) (triple_fromExcept (fun _ _ _ hw => hw) fun _ hw => hw)
    fun backoff => ?_
  split_ifs
  · exact triple_pure fun _ hw => hw
  · exact h.fail_row env row _
  · exact h.fail_row env row _
  · refine triple_bind (h.cancel_adapter env x _) fun _ => ?_
    exact triple_bind (h.saved env fun _ => by simp) fun _ => triple_pure fun _ hw => hw
  · exact h.poll_adapter env x hrunning

theorem poll_phase (env : Env) (x : Execution) :
    Triple I (runner.poll_phase env x) (fun _ => I) I :=
  triple_bind (load _) fun _ => triple_bind (forEach (h.poll_one_row env x) _) fun _ =>
    triple_pure fun _ hw => hw

theorem cancel_answer (env : Env) (x : Execution) (on_error : NodeExec → NodeExec)
    (row : NodeExec) :
    Triple I (runner.cancel_answer env x on_error row) (fun _ => I) I := by
  unfold runner.cancel_answer
  split_ifs
  · refine triple_bind (h.cancel_adapter env x row) fun answer => ?_
    cases answer <;> exact triple_pure fun _ hw => hw
  · exact triple_pure fun _ hw => hw

theorem cancel_row (env : Env) (x : Execution) (user_id : Option Int) (message : String)
    (on_error : NodeExec → NodeExec) (row : NodeExec) :
    Triple I (runner.cancel_row env x user_id message on_error row) (fun _ => I) I :=
  triple_bind (h.cancel_answer env x on_error row) fun _ => h.saved env fun _ =>
    by simp [cancelled_row]

theorem aggregate (env : Env) (parent : NodeExec) :
    Triple I (_aggregate_loop_children env parent) (fun _ => I) I := by
  unfold _aggregate_loop_children
  refine triple_bind (load _) fun children => ?_
  simp only
  split_ifs
  · exact triple_pure fun _ hw => hw
  · exact triple_pure fun _ hw => hw
  · refine triple_bind (h.record _) fun _ => ?_
    refine triple_bind (h.saved env fun _ => ?_) fun _ => triple_pure fun _ hw => hw
    rcases aggregated_row_status env parent children with hstatus | hstatus <;> simp [hstatus]

theorem aggregate_loops (env : Env) : Triple I (runner.aggregate_loops env) (fun _ => I) I :=
  triple_bind (load _) fun _ => triple_bind (forEach (h.aggregate env) _) fun _ =>
    triple_pure fun _ hw => hw

theorem create_rows {rows : List NodeExec} (hrows : ∀ r ∈ rows, r.status ≠ .RUNNING) :
    Triple I (runner.create_rows rows) (fun _ => I) I := by
  unfold runner.create_rows
  split_ifs
  · exact triple_pure fun _ hw => hw
  · exact triple_bind (h.record _) fun _ => h.bulk_create hrows

theorem expand_children (env : Env) (x : Execution) (parent : NodeExec) (uo : UnitOutput)
    (user_id : Option Int) :
    Triple I (_expand_loop_children env x parent uo user_id) (fun _ => I) I := by
  unfold _expand_loop_children
  simp only
  split
  · exact triple_pure fun _ hw => hw
  split
  · exact triple_raise fun _ hw => hw
  refine triple_bind (h.record _) fun _ => ?_
  refine triple_bind (h.bulk_create fun r hr => ?_) fun _ => triple_pure fun _ hw => hw
  obtain ⟨i, hi, rfl⟩ := List.mem_mapIdx.mp hr
  simp [loop_child]

/-- A row may begin to run once its dispatch is in the log. -/
theorem dispatch_answer (env : Env) (x : Execution) (row : NodeExec) (uo : UnitOutput)
    (user_id : Option Int) :
    Triple (fun s => ∃ w, I w ∧ s = w.note (.dispatch row))
      (runner.dispatch_answer env x row uo user_id)
      (fun _ => I) I := by
  have hpk := (apply_unit_output_sameIdentity env { row with status := .RUNNING } uo true).pk
  unfold runner.dispatch_answer
  simp only
  refine triple_bind (R := fun _ => I) (triple_modifyState ?_) fun _ => ?_
  · rintro s ⟨w, hw, rfl⟩
    exact h.answer w row _ env.now _ hpk hw
  · split
    · exact h.expand_children env x _ uo user_id
    · exact triple_pure fun _ hw => hw

theorem dispatch_row (env : Env) (x : Execution) (dag : Dag) (ctx : EdgeCtx) (user_id : Option Int)
    (row : NodeExec) :
    Triple I (runner.dispatch_row env x dag ctx user_id row) (fun _ => I) I := by
  unfold runner.dispatch_row
  split
  · exact triple_pure fun _ hw => hw
  refine triple_bind (R := fun _ => I) (triple_prepare fun _ hw => hw) fun prepared => ?_
  cases prepared with
  | inl message =>
    exact triple_bind (h.fail_row env row message) fun _ => triple_pure fun _ hw => hw
  | inr prepared =>
    simp only
    split
    · refine triple_bind (h.record _) fun _ => ?_
      split
      · exact triple_bind (h.saved env fun _ => by simp) fun _ => triple_pure fun _ hw => hw
      · exact triple_raise fun _ hw => hw
    · refine triple_bind triple_record_noted fun _ => ?_
      exact triple_bind (h.dispatch_answer env x _ _ user_id) fun _ => triple_pure fun _ hw => hw

theorem dispatch_pending (env : Env) (x : Execution) (dag : Dag) (rows : List NodeExec)
    (ctx : EdgeCtx) (user_id : Option Int) :
    Triple I (_dispatch_pending env x dag rows ctx user_id) (fun _ => I) I :=
  triple_bind (forEach (h.dispatch_row env x dag ctx user_id) rows) fun _ =>
    triple_pure fun _ hw => hw

/-- Retry rows keep it. -/
theorem retry (env : Env) (x : Execution) (dag : Dag) (completed : List String)
    (user_id : Option Int) :
    Triple I (_retry_failed_rows env x dag completed user_id) (fun _ => I) I := by
  unfold _retry_failed_rows
  refine triple_bind (load _) fun rows => ?_
  simp only
  split_ifs
  · exact triple_pure fun _ hw => hw
  · refine triple_bind (h.record _) fun _ => ?_
    exact triple_bind (h.bulk_create fun r hr => not_running_of_retry hr) fun _ =>
      triple_pure fun _ hw => hw

theorem fail_fast (env : Env) (x : Execution) (user_id : Option Int) :
    Triple I (fail_fast_phase env x user_id) (fun _ => I) I := by
  unfold fail_fast_phase
  refine triple_bind (load _) fun failed => ?_
  split_ifs
  · refine triple_bind (load _) fun rows => ?_
    exact triple_bind (forEach (h.cancel_row env x user_id _ id) rows) fun _ =>
      triple_pure fun _ hw => hw
  · exact triple_pure fun _ hw => hw

theorem skip (env : Env) (x : Execution) (dag : Dag) (ctx : EdgeCtx) (user_id : Option Int) :
    Triple I (_mark_ineligible_nodes_skipped env x dag ctx user_id) (fun _ => I) I := by
  unfold _mark_ineligible_nodes_skipped
  refine triple_bind (load _) fun rows => ?_
  simp only
  split_ifs
  · exact triple_pure fun _ hw => hw
  · refine triple_bind (h.record _) fun _ => ?_
    refine triple_bind (h.bulk_create fun r hr => ?_) fun _ => triple_pure fun _ hw => hw
    obtain ⟨n, -, hrow⟩ := skip_inserts_spec hr
    simp [(firstRow_of_skipped hrow).2.2.1]

theorem finalize (env : Env) (dag : Dag) :
    Triple I (_finalize_workflow_if_done env dag) (fun _ => I) I := by
  refine triple_bind (R := fun _ => I) (triple_getState fun _ hw => hw) fun s => ?_
  split
  · exact triple_pure fun _ hw => hw
  · refine triple_bind (R := fun _ => I) (triple_modifyState fun w hw => ?_) fun _ =>
      triple_pure fun _ hw => hw
    exact h.execution w _ hw

omit h in
theorem refresh (ctx : EdgeCtx) : Triple I (_refresh_ctx_from_db ctx) (fun _ => I) I :=
  fun _ hw => hw

theorem dispatch_phase (env : Env) (x : Execution) (ctx : EdgeCtx) (user_id : Option Int) :
    Triple I (runner.dispatch_phase env x ver ctx user_id) (fun _ => I) I := by
  unfold runner.dispatch_phase
  refine triple_bind (R := fun _ => I) (triple_getState fun _ hw => hw) fun s => ?_
  simp only
  refine triple_bind (h.create_rows fun r hr => not_running_of_rows_for_keys hr) fun created => ?_
  refine triple_bind (load _) fun pending => ?_
  refine triple_bind (h.dispatch_pending env x ver.dag _ _ user_id) fun dispatched => ?_
  split_ifs
  · refine triple_bind (refresh _) fun _ => ?_
    exact triple_bind (h.aggregate_loops env) fun _ => triple_pure fun _ hw => hw
  · exact triple_pure fun _ hw => hw

theorem schedule_phases (env : Env) (x : Execution) (ctx : EdgeCtx) (user_id : Option Int)
    (tick : AdvanceTick) :
    Triple I (runner.schedule_phases env x ver ctx user_id tick) (fun _ => I) I := by
  refine triple_bind (refresh _) fun ctx => ?_
  refine triple_bind (h.dispatch_phase env x ctx user_id) fun answer => ?_
  refine triple_bind (h.skip env x ver.dag answer.2.2 user_id) fun _ => ?_
  exact triple_bind (h.finalize env ver.dag) fun _ => triple_pure fun _ hw => hw

/-- The phases together keep it. -/
theorem advance_phases (env : Env) (x : Execution) (ctx : EdgeCtx) (user_id : Option Int)
    (tick : AdvanceTick) (completed : List String) :
    Triple I (runner.advance_phases env x ver ctx user_id tick completed) (fun _ => I) I := by
  refine triple_bind (h.retry env x ver.dag completed user_id) fun _ => ?_
  refine triple_bind (h.fail_fast env x user_id) fun _ => ?_
  exact triple_bind (h.aggregate_loops env) fun _ => h.schedule_phases env x ctx user_id _

theorem reach_end_nodes (env : Env) (x : Execution) (user_id : Option Int) :
    Triple I (runner.reach_end_nodes env x ver user_id) (fun _ => I) I := by
  refine triple_bind (R := fun _ => I) (triple_getState fun _ hw => hw) fun s => ?_
  refine triple_bind (refresh _) fun ctx => ?_
  refine triple_bind (forEach (fun key => ?_) _) fun _ => triple_pure fun _ hw => hw
  split
  · exact triple_pure fun _ hw => hw
  · split_ifs
    · exact triple_pure fun _ hw => hw
    · exact h.create_rows fun r hr => not_running_of_runnable hr

theorem start_execution (env : Env) (x : Execution) (user_id : Option Int) :
    Triple I (runner.start_execution env x ver user_id) (fun _ => I) I := by
  unfold runner.start_execution
  simp only
  refine triple_bind (h.create_rows fun r hr => ?_) fun inserts => ?_
  · obtain hr | hr := List.mem_append.mp hr
    · exact not_running_of_start hr
    · exact not_running_of_rows_for_keys hr
  refine triple_bind (h.dispatch_pending env x ver.dag _ _ user_id) fun _ => ?_
  refine triple_bind (h.reach_end_nodes env x user_id) fun _ => ?_
  exact triple_bind (h.finalize env ver.dag) fun _ => triple_pure fun _ hw => hw

/-- A transaction keeps what its writes keep, whether it is committed or undone. -/
theorem transaction {α : Type} {m : RunnerM α} {w : World}
    (hm : Triple I m (fun _ => I) I) (hw : I w) (hmoves : Moves ver w (runner.transaction m w).2) :
    I (runner.transaction m w).2 := by
  have hend := hm.state hw
  unfold runner.transaction atomic at hmoves ⊢
  rcases hrun : m w with ⟨_ | a, w'⟩ <;> simp only [hrun] at hmoves hend ⊢
  · exact h.undo w w' hw hmoves
  · exact hend

theorem advance_workflow (env : Env) (user_id : Option Int) :
    Triple I (runner.advance_workflow env ver user_id) (fun _ => I) I := by
  refine triple_bind (R := fun s w => I w ∧ s = w) (triple_getState fun _ hw => ⟨hw, rfl⟩)
    fun s => ?_
  cases hx : s.execution with
  | none => exact triple_raise fun _ hw => hw.1
  | some x =>
    refine triple_bind (R := fun _ w => I w ∧ w.execution = some x) ?_ fun polled =>
      Triple.of_state fun w hw => ?_
    · rintro w ⟨hw, rfl⟩
      have hlive : Triple (Live ver x s) (runner.poll_phase env x) (fun _ => Live ver x s)
          (Live ver x s) :=
        triple_poll_phase env
      refine ((h.poll_phase env x).and hlive).conseq (fun _ hw => hw)
        (fun _ w hw => ⟨hw.1, hw.2.execution⟩)
        (fun _ hw => hw.1) s ⟨hw, .start hx⟩
    · exact h.transaction (h.advance_phases env x _ user_id _ _) hw.1
        (transaction_moves (advance_phases_moves env user_id _ _ hw.2))

/-- Every call keeps the invariant. -/
theorem call (c : Call) {w : World} (hc : c.Enabled w)
    (hempty : NoneEmpty (recorded.view w)) (hw : I w) :
    I (c.run ver w) := by
  have hmoves : Moves ver w (c.run ver w) := call_moves c hc hempty
  cases c with
  | trigger env id params type user fs =>
    refine h.transaction ?_ hw hmoves
    split_ifs
    · exact triple_raise fun _ hw => hw
    · exact triple_bind (R := fun _ => I)
        (triple_modifyState fun w hw => h.execution w _ hw) fun _ =>
        h.start_execution env _ user
  | advance env user => exact (h.advance_workflow env user).state hw
  | scheduled env => exact h.transaction (h.advance_workflow env none) hw hmoves
  | cancel env reason =>
    refine h.transaction ?_ hw hmoves
    refine triple_bind (R := fun _ => I) (triple_getState fun _ hw => hw) fun s => ?_
    cases s.execution with
    | none => exact triple_raise fun _ hw => hw
    | some x =>
      refine triple_bind (load _) fun rows => ?_
      refine triple_bind (forEach (h.cancel_row env x none _ _) rows) fun _ => ?_
      exact triple_modifyState fun w hw => h.execution w _ hw

/-- What no write changes holds in every reachable world, if it does at the start. -/
theorem reachable {w : World} (hw : Reachable ver w) (hinit : I .initial) : I w := by
  induction hw with
  | refl => exact hinit
  | tail hrun hcall ih =>
    obtain ⟨c, hc, rfl⟩ := hcall
    exact h.call c hc (reachable_noneEmpty hrun) ih

end KeptByCalls

end taurus.engine.runner
