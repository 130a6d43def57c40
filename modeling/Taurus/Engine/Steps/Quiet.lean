import Taurus.Engine.Steps.Context

namespace taurus.engine.runner

open taurus.lib taurus.lib.Prog taurus.python taurus.engine.executor

variable {ver : DagVersion} {x : Execution}

/-- Nothing is in flight: all rows are terminal. -/
def AllSettled (rows : List NodeExec) : Prop := ∀ r ∈ rows, r.status.terminal = true

/-- The entries that `log'` adds to `log` dispatch nothing. -/
def NoDispatch (log log' : List Entry) : Prop :=
  ∃ more, log' = log ++ more ∧ ∀ e ∈ more, e.act.dispatched? = none

namespace NoDispatch

theorem refl (log : List Entry) : NoDispatch log log := ⟨[], by simp, by simp⟩

theorem trans {l₁ l₂ l₃ : List Entry} (h : NoDispatch l₁ l₂) (h' : NoDispatch l₂ l₃) :
    NoDispatch l₁ l₃ := by
  obtain ⟨more, rfl, hmore⟩ := h
  obtain ⟨more', rfl, hmore'⟩ := h'
  refine ⟨more ++ more', by simp, fun e he => ?_⟩
  exact (List.mem_append.mp he).elim (hmore e) (hmore' e)

/-- Acts other than dispatches may be noted. -/
theorem note {log : List Entry} {w : World} (h : NoDispatch log w.log) {act : Act}
    (hact : act.dispatched? = none) : NoDispatch log (w.note act).log :=
  h.trans ⟨_, rfl, fun e he => by rw [List.mem_singleton.mp he]; exact hact⟩

/-- The dispatched rows are the same. -/
theorem dispatched {log log' : List Entry} (h : NoDispatch log log') :
    log'.filterMap (·.act.dispatched?) = log.filterMap (·.act.dispatched?) := by
  obtain ⟨more, rfl, hmore⟩ := h
  rw [List.filterMap_append, List.filterMap_eq_nil_iff.mpr hmore, List.append_nil]

end NoDispatch

/-- The current execution with the table `t`, nothing having been dispatched since `log`. -/
structure Resting (x : Execution) (log : List Entry) (t : Table) (w : World) : Prop where
  execution : w.execution = some x
  table : w.table = t
  quiet : NoDispatch log w.log

/-- A call begins at rest. -/
theorem Resting.start {w : World} (hx : w.execution = some x) : Resting x w.log w.table w :=
  ⟨hx, rfl, .refl _⟩

theorem Resting.rows {log : List Entry} {t : Table} {w : World} (h : Resting x log t w) :
    w.rows = t.rows := congrArg Table.rows h.table

theorem Resting.note {log : List Entry} {t : Table} {w : World} (h : Resting x log t w) {act : Act}
    (hact : act.dispatched? = none) : Resting x log t (w.note act) :=
  ⟨h.execution, h.table, h.quiet.note hact⟩

/-- The table after `aggregate_loops` has found all children terminal. -/
def aggregated_table (env : Env) (t : Table) : Table :=
  (t.rows.filter is_loop_parent).foldl (fun t parent =>
    t.save (aggregated_row env parent (child_rows t.rows parent.node_key)) env.now aggregateFields) t

/-- A pass over rows of which none is selected finds nothing. -/
theorem filter_eq_nil_of_settled {rows : List NodeExec} (h : AllSettled rows) {p : NodeExec → Bool}
    (hp : ∀ r, p r = true → r.status.terminal = false) : rows.filter p = [] := by
  refine List.filter_eq_nil_iff.mpr fun r hr hpr => ?_
  have hterm := h r hr
  rw [hp r hpr] at hterm
  cases hterm

/-- A collected loop has ended. -/
theorem aggregated_row_terminal (env : Env) (parent : NodeExec) (children : List NodeExec) :
    (aggregated_row env parent children).status.terminal = true := by
  simp only [aggregated_row]
  split_ifs <;> rfl

/-- Ended rows stay ended. -/
theorem settled_save {t : Table} (h : AllSettled t.rows) {row : NodeExec} {now : Time}
    {fields : List Field} (hrow : row.status.terminal = true) :
    AllSettled (t.save row now fields).rows := by
  intro r hr
  obtain ⟨r₀, hr₀, rfl⟩ := List.mem_map.mp hr
  split_ifs
  · rcases write_status_cases r₀ row now fields with hs | hs <;> rw [hs]
    · exact hrow
    · exact h r₀ hr₀
  · exact h r₀ hr₀

section Settled

variable {log : List Entry} {t : Table} {E : World → Prop}

/-- In a settled table a loop parent is aggregated at once. -/
private theorem triple_aggregate_settled {env : Env} {parent : NodeExec}
    (hparent : is_loop_parent parent = true) (h : AllSettled t.rows) :
    Triple (Resting x log t) (_aggregate_loop_children env parent)
      (fun _ => Resting x log (t.save
        (aggregated_row env parent (child_rows t.rows parent.node_key))
        env.now aggregateFields)) E := by
  unfold _aggregate_loop_children
  refine triple_bind (triple_objects_filter (Q := fun children w =>
    Resting x log t w ∧ children = child_rows t.rows parent.node_key) fun w hw =>
      ⟨hw, by rw [hw.rows]; rfl⟩) fun children => ?_
  have hempty : (getJson parent.adapter_state "loop_items").truthy ∨ parent.node_type = "loop" := by
    simp only [is_loop_parent, Bool.and_eq_true, Bool.or_eq_true, decide_eq_true_eq] at hparent
    exact hparent.2.symm
  simp only
  split_ifs with hnone hopen
  · exact absurd hempty hnone.2
  · rintro w ⟨_, rfl⟩
    have hall : (child_rows t.rows parent.node_key).all (·.status.terminal) = true :=
      List.all_eq_true.mpr fun c hc => h c (List.mem_filter.mp hc).1
    simp [hall] at hopen
  · refine triple_bind (R := fun _ w => Resting x log t w ∧
      children = child_rows t.rows parent.node_key)
      (triple_modifyState fun s hs => ⟨hs.1.note rfl, hs.2⟩) fun _ => ?_
    refine triple_bind (triple_modifyState fun s hs => ?_) fun _ => triple_pure fun _ h => h
    exact ⟨hs.1.execution, by rw [hs.1.table, hs.2], hs.1.quiet⟩

/-- So an aggregation pass goes through all loop parents. -/
theorem triple_aggregate_loops_settled (env : Env) (h : AllSettled t.rows) :
    Triple (Resting x log t) (aggregate_loops env)
      (fun _ => Resting x log (aggregated_table env t)) E := by
  refine triple_bind (triple_objects_filter (Q := fun parents w =>
    Resting x log t w ∧ parents = t.rows.filter is_loop_parent) fun w hw => ⟨hw, by rw [hw.rows]⟩)
    fun parents => ?_
  refine triple_bind (R := fun _ => Resting x log (aggregated_table env t)) ?_ fun _ =>
    triple_pure fun _ h => h
  -- the loop invariant: what is left to aggregate leads to the aggregated table
  refine (triple_forEach (E := E) (I := fun rest w => ∃ t',
    (Resting x log t' w ∧ AllSettled t'.rows) ∧
    (∀ p ∈ rest, is_loop_parent p = true) ∧ rest.foldl (fun t parent => t.save (aggregated_row env
      parent (child_rows t.rows parent.node_key)) env.now aggregateFields) t' =
      aggregated_table env t)
    (fun p rest => ?_) parents).conseq ?_ ?_ fun _ h => h
  · rintro w ⟨t', ⟨hw, hsettled⟩, hparents, hfold⟩
    refine (triple_aggregate_settled (hparents p List.mem_cons_self) hsettled).conseq (fun _ h => h)
      (fun _ s hs => ?_) (fun _ h => h) w hw
    exact ⟨_, ⟨hs, settled_save hsettled (aggregated_row_terminal _ _ _)⟩,
      fun q hq => hparents q (List.mem_cons_of_mem _ hq), hfold⟩
  · rintro w ⟨hw, rfl⟩
    exact ⟨t, ⟨hw, h⟩, fun p hp => (List.mem_filter.mp hp).2, rfl⟩
  · rintro _ w ⟨t', ⟨hw, _⟩, _, hfold⟩
    exact hfold ▸ hw

/-- Nothing is polled when all rows have ended. -/
theorem triple_poll_settled (env : Env) (h : AllSettled t.rows) :
    Triple (Resting x log t) (poll_phase env x)
      (fun answer w => answer = (0, []) ∧ Resting x log t w) E := by
  refine triple_bind (triple_objects_filter (Q := fun rows w => rows = [] ∧ Resting x log t w)
    fun w hw => ⟨?_, hw⟩) fun rows => ?_
  · rw [hw.rows]
    exact filter_eq_nil_of_settled h fun r hr => by simp [of_decide_eq_true hr]
  · rintro w ⟨rfl, hw⟩
    exact ⟨rfl, hw⟩

/-- Without completed nodes there is nothing to retry. -/
theorem triple_retry_none (env : Env) (user_id : Option Int) :
    Triple (Resting x log t) (_retry_failed_rows env x ver.dag [] user_id)
      (fun _ => Resting x log t) E := by
  refine triple_bind (triple_objects_filter (Q := fun _ => Resting x log t) fun w hw => hw)
    fun rows => ?_
  have hnone : retry_rows env x ver.dag [] user_id rows = [] := by
    simp [retry_rows, latest_per_key_host]
  simp only [hnone, if_true]
  exact triple_pure fun _ h => h

/-- Nothing is cancelled then. -/
theorem triple_fail_fast_settled (env : Env) (user_id : Option Int) (h : AllSettled t.rows) :
    Triple (Resting x log t) (fail_fast_phase env x user_id) (fun _ => Resting x log t) E := by
  refine triple_bind (triple_objects_filter (Q := fun _ => Resting x log t) fun w hw => hw)
    fun failed => ?_
  split_ifs
  · refine triple_bind (triple_objects_filter (Q := fun rows w => rows = [] ∧ Resting x log t w)
      fun w hw => ⟨?_, hw⟩) fun rows => ?_
    · rw [hw.rows]
      refine filter_eq_nil_of_settled h fun r hr => ?_
      simp only [is_unfinished, Bool.or_eq_true, decide_eq_true_eq] at hr
      rcases hr with hr | hr <;> simp [hr]
    · rintro w ⟨rfl, hw⟩
      exact hw
  · exact triple_pure fun _ h => h

/-- A tick that finds nothing in flight aggregates the loops and goes on to schedule. -/
theorem triple_advance_settled {env : Env} {user_id : Option Int} (h : AllSettled t.rows)
    {Q E E' : World → Prop}
    (hschedule : ∀ tick, Triple (Resting x log (aggregated_table env t))
      (schedule_phases env x ver (_build_edge_ctx x ver) user_id tick) (fun _ => Q) E)
    (hrollback : ∀ w w', Resting x log t w → E w' → E' (w.rollback w')) :
    Triple (Resting x log t) (advance_workflow env ver user_id) (fun _ => Q) E' := by
  refine triple_bind (triple_getState (Q := fun s w => s.execution = some x ∧ Resting x log t w)
    fun w hw => ⟨hw.execution, hw⟩) fun s => ?_
  rintro w ⟨hx, hw⟩
  simp only [hx]
  refine (triple_bind (triple_poll_settled env h)
    fun answer => ?_ : Triple (Resting x log t) _ _ E') w hw
  rintro w ⟨rfl, hw⟩
  refine (triple_atomic ?_ hrollback : Triple (Resting x log t) _ _ E') w hw
  refine triple_bind (triple_retry_none env user_id) fun _ => ?_
  refine triple_bind (triple_fail_fast_settled env user_id h) fun _ => ?_
  exact triple_bind (triple_aggregate_loops_settled env h) fun k => hschedule _

end Settled

end taurus.engine.runner
