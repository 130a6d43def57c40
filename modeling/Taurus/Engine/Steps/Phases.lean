import Taurus.Engine.Steps.Creating

namespace taurus.engine.runner

open taurus.lib taurus.lib.Prog taurus.python taurus.engine.executor

variable {ver : DagVersion} {x : Execution} {w₀ : World}

/-- The rows just read by a filtered query. -/
structure Loaded (ver : DagVersion) (x : Execution) (w₀ : World) (p : NodeExec → Bool)
    (rows : List NodeExec) (w : World) : Prop where
  live : Live ver x w₀ w
  rows_eq : rows = w.rows.filter p

/-- Loaded rows are rows of the state. -/
theorem triple_load {p : NodeExec → Bool} {E : World → Prop} :
    Triple (Live ver x w₀) (objects_filter p) (fun rows => Loaded ver x w₀ p rows) E :=
  triple_objects_filter fun _ hw => ⟨hw, rfl⟩

/-- A loop over loaded rows whose body writes only the row it is at. -/
theorem triple_forEach_loaded {β : Type} {p : NodeExec → Bool} {body : NodeExec → RunnerM β}
    {rows : List NodeExec}
    (hbody : ∀ r w, w.execution = some x → r ∈ w.rows → p r = true →
      Touched ver [r] w (body r w).2) :
    Triple (Loaded ver x w₀ p rows) (Prog.forEach body rows) (fun _ => Live ver x w₀)
      (Live ver x w₀) := by
  refine Triple.of_state fun w hw => ?_
  obtain ⟨hlive, rfl⟩ := hw
  refine hlive.touched (touched_forEach (I := fun s => s.execution = some x)
    (loaded_nodup w p) ?_ ?_
    hlive.execution fun r hr => (List.mem_filter.mp hr).1)
  · exact fun r hr s hs hin => hbody r s hs hin (List.mem_filter.mp hr).2
  · exact fun s s' hs ht => ht.execution.trans hs

/-- Polling keeps the call live. -/
theorem triple_poll_phase (env : Env) :
    Triple (Live ver x w₀) (poll_phase env x) (fun _ => Live ver x w₀) (Live ver x w₀) := by
  refine triple_bind triple_load fun rows => ?_
  refine triple_bind (triple_forEach_loaded fun r w hx hr _ => poll_one_row_touched env r w hx hr)
    fun _ => ?_
  exact triple_pure fun _ h => h


/-- Cancelling the loaded rows keeps them loaded. -/
theorem triple_cancel_rows {env : Env} {user_id : Option Int} {message : String}
    {on_error : NodeExec → NodeExec} {rows : List NodeExec} (herr : ∀ r, (on_error r).pk = r.pk) :
    Triple (Loaded ver x w₀ is_unfinished rows)
      (Prog.forEach (cancel_row env x user_id message on_error) rows)
      (fun _ => Live ver x w₀) (Live ver x w₀) :=
  triple_forEach_loaded fun r w hx hr hp =>
    cancel_row_touched env user_id message on_error herr r w hx hr hp

theorem triple_fail_fast (env : Env) (user_id : Option Int) :
    Triple (Live ver x w₀) (fail_fast_phase env x user_id) (fun _ => Live ver x w₀)
      (Live ver x w₀) := by
  unfold fail_fast_phase
  refine triple_bind (triple_objects_filter (Q := fun _ => Live ver x w₀) fun w hw => hw)
    fun failed => ?_
  split_ifs
  · refine triple_bind triple_load fun rows => ?_
    exact triple_bind (triple_cancel_rows fun _ => rfl) fun _ => triple_pure fun _ h => h
  · exact triple_pure fun _ h => h

/-- The rows that were not pending are still there, as they were or with the result of a loop. -/
def Spares (rows rows' : List NodeExec) : Prop :=
  ∀ b ∈ rows, b.status ≠ .PENDING →
    ∃ r ∈ rows', r.SameIdentity b ∧ (r.status = b.status ∨ r.status = .SUCCESS ∨ r.status = .FAILED)

/-- Rows that stay are spared. -/
theorem Spares.of_kept {rows rows' : List NodeExec}
    (h : ∀ b ∈ rows, b.status ≠ .PENDING → b ∈ rows') :
    Spares rows rows' := fun b hb hne => ⟨b, h b hb hne, .refl b, Or.inl rfl⟩

theorem Spares.trans {rows rows' rows'' : List NodeExec} (h : Spares rows rows')
    (h' : Spares rows' rows'') :
    Spares rows rows'' := by
  intro b hb hne
  obtain ⟨r, hr, hrb, hstatus⟩ := h b hb hne
  have hrne : r.status ≠ .PENDING := by
    rcases hstatus with hs | hs | hs <;> rw [hs]
    · exact hne
    · decide
    · decide
  obtain ⟨q, hq, hqr, hqs⟩ := h' r hr hrne
  refine ⟨q, hq, hqr.trans hrb, ?_⟩
  obtain hqs | hqs := hqs
  · rwa [hqs]
  · exact Or.inr hqs

/-- An insert spares all rows. -/
theorem Spares.insert {rows created stored : List NodeExec} {t t' : Table} (h : Spares rows t.rows)
    (hins : t.bulk_create created = some (t', stored)) : Spares rows t'.rows :=
  h.trans (.of_kept fun b hb _ => (Table.bulk_create_created hins).mem b |>.mpr (Or.inr hb))

/-- The aggregated parent succeeds or fails. -/
theorem aggregated_row_status (env : Env) (parent : NodeExec) (children : List NodeExec) :
    (aggregated_row env parent children).status = .SUCCESS ∨
      (aggregated_row env parent children).status = .FAILED := by
  simp only [aggregated_row]
  split_ifs <;> simp

/-- Collecting a loop spares the others. -/
theorem Spares.aggregate {rows : List NodeExec} {t : Table} (h : Spares rows t.rows) (env : Env)
    (parent : NodeExec) (children : List NodeExec) :
    Spares rows (t.save (aggregated_row env parent children) env.now aggregateFields).rows := by
  refine h.trans fun b hb _ => ⟨_, List.mem_map_of_mem hb, ?_⟩
  split_ifs
  · refine ⟨b.write_sameIdentity _ _ _, ?_⟩
    rcases write_status_cases b
      (aggregated_row env parent children) env.now aggregateFields with hs | hs <;> rw [hs]
    · exact Or.inr (aggregated_row_status env parent children)
    · exact Or.inl rfl
  · exact ⟨.refl b, Or.inl rfl⟩

/-- Retrying spares the rows before. -/
theorem triple_retry (env : Env) (completed : List String) (user_id : Option Int)
    (base : List NodeExec) :
    Triple (fun w => Live ver x w₀ w ∧ Spares base w.rows)
      (_retry_failed_rows env x ver.dag completed user_id)
      (fun _ w => Live ver x w₀ w ∧ Spares base w.rows) (Live ver x w₀) := by
  unfold _retry_failed_rows
  refine triple_bind (triple_objects_filter (Q := fun rows w =>
    (Live ver x w₀ w ∧ Spares base w.rows) ∧ rows = w.rows)
    fun w hw => ⟨hw, List.filter_eq_self.mpr (by simp)⟩) fun rows => ?_
  simp only
  split_ifs
  · exact triple_pure fun _ h => h.1
  refine triple_bind triple_record_noted fun _ => ?_
  refine triple_bind (R := fun _ w => Live ver x w₀ w ∧ Spares base w.rows)
    (triple_bulk_create ?_ ?_) fun _ =>
    triple_pure fun _ h => h
  · rintro w table created ⟨⟨hw, hspares⟩, rfl⟩ hins
    exact ⟨hw.step (.insert _ hw.execution ⟨env, user_id, rfl⟩ hins) rfl, hspares.insert hins⟩
  · rintro w ⟨⟨hw, _⟩, rfl⟩
    exact hw.step (.note _ hw.execution ⟨env, user_id, rfl⟩) rfl

/-- The table has all the rows it had, and is as it was unless some loop was aggregated. -/
structure Aggregated (t : Table) (w : World) : Prop where
  keeps : KeepsRows t.rows w.rows
  spares : Spares t.rows w.rows
  changed : w.table = t ∨ ∃ e ∈ w.log, ∃ r, e.act = .aggregate r

/-- A loop that is collected stays collected. -/
theorem triple_aggregate_aggregated (env : Env) (t : Table) (row : NodeExec) :
    Triple (Aggregated t) (_aggregate_loop_children env row) (fun _ => Aggregated t)
      (Aggregated t) := by
  unfold _aggregate_loop_children
  refine triple_bind (triple_objects_filter (Q := fun _ => Aggregated t) fun w hw => hw)
    fun children => ?_
  simp only
  split_ifs
  · exact triple_pure fun _ h => h
  · exact triple_pure fun _ h => h
  · refine triple_bind (R := fun _ w => (KeepsRows t.rows w.rows ∧ Spares t.rows w.rows) ∧
      ∃ e ∈ w.log, ∃ r, e.act = .aggregate r) ?_ fun _ => ?_
    · refine triple_modifyState fun w hw =>
        ⟨⟨hw.keeps, hw.spares⟩, { act := .aggregate row, before := w.rows }, ?_, row, rfl⟩
      exact List.mem_append_right _ (List.mem_singleton.mpr rfl)
    · refine triple_bind (R := fun _ => Aggregated t) (triple_modifyState fun w hw => ?_) fun _ =>
        triple_pure fun _ h => h
      exact ⟨hw.1.1.trans fun _ hr => w.table.exists_mem_save _ _ _ hr,
        hw.1.2.aggregate _ _ _, Or.inr hw.2⟩

/-- An aggregation pass writes loop parents only, and nothing without saying so. -/
theorem triple_aggregate_loops (env : Env) {t : Table} :
    Triple (fun w => Live ver x w₀ w ∧ w.table = t) (aggregate_loops env)
      (fun _ w => Live ver x w₀ w ∧ Aggregated t w) (Live ver x w₀) := by
  refine triple_bind (triple_objects_filter (Q := fun rows w =>
    Loaded ver x w₀ is_loop_parent rows w ∧ Aggregated t w) fun w hw =>
      ⟨⟨hw.1, rfl⟩, hw.2 ▸ .refl _, hw.2 ▸ .of_kept fun _ hb _ => hb, Or.inl hw.2⟩)
    fun rows => ?_
  have hloop : Triple (fun w => Loaded ver x w₀ is_loop_parent rows w ∧ Aggregated t w)
      (Prog.forEach (_aggregate_loop_children env) rows)
      (fun _ w => Live ver x w₀ w ∧ Aggregated t w) (fun w => Live ver x w₀ w ∧ Aggregated t w) :=
    (triple_forEach_loaded fun r w hx hr hp => aggregate_touched env r w hx hr hp).and
      (triple_forEach (I := fun _ => Aggregated t)
        (fun r _ => triple_aggregate_aggregated env t r) rows)
  exact triple_bind (hloop.conseq (fun _ h => h) (fun _ _ h => h) fun _ h => h.1) fun _ =>
    triple_pure fun _ h => h

/-- The state in which a context has just been refreshed from the table. -/
structure Refreshed (ver : DagVersion) (x : Execution) (w₀ : World) (ctx : EdgeCtx) (w : World) :
    Prop where
  live : Live ver x w₀ w
  ctx_eq : ctx = refresh_ctx w.rows (_build_edge_ctx x ver)

/-- Refreshing the context reads the rows. -/
theorem triple_refresh {ctx : EdgeCtx} {P E : World → Prop} (hP : ∀ w, P w → Live ver x w₀ w)
    (hworkflow : ctx.workflow = (_build_edge_ctx x ver).workflow)
    (htrigger : ctx.trigger = (_build_edge_ctx x ver).trigger) :
    Triple P (_refresh_ctx_from_db ctx) (fun ctx w => Refreshed ver x w₀ ctx w ∧ P w) E := by
  intro w hw
  refine ⟨⟨hP w hw, ?_⟩, hw⟩
  simp only [refresh_ctx, hworkflow, htrigger]

/-- The dispatch phase creates the runnable rows and leaves a context for the skip pass. -/
theorem triple_dispatch_phase (env : Env) (ctx : EdgeCtx) (user_id : Option Int)
    (base : List NodeExec) :
    Triple (fun w => Refreshed ver x w₀ ctx w ∧ Spares base w.rows)
      (dispatch_phase env x ver ctx user_id)
      (fun answer w => (Live ver x w₀ w ∧ SkipContext ver x w.log w.rows answer.2.2) ∧
        Spares base w.rows)
      (Live ver x w₀) := by
  refine triple_bind (triple_getState (Q := fun s w =>
    (Refreshed ver x w₀ ctx w ∧ Spares base w.rows) ∧ s = w) fun w hw => ⟨hw, rfl⟩) fun s => ?_
  intro w hw
  obtain ⟨⟨⟨hlive, rfl⟩, hbase⟩, rfl⟩ := hw
  set ctx₀ := refresh_ctx s.rows (_build_edge_ctx x ver)
  set computed :=
    compute_next_runnables ver.dag (node_rows s.rows) ctx₀ x.fail_strategy with hcomputed
  set rows := rows_for_keys env x ver.dag user_id (node_rows s.rows) computed.1 with hrows
  have hcreated : ∀ r ∈ rows, CreatedRow ver x s.rows r :=
    fun r hr => createdRow_of_rows_for_keys hr
  have hfirst : ∀ r ∈ rows, ∃ n, FirstRow x n r := by
    intro r hr
    obtain ⟨n, _, _, hf, _⟩ := hcreated r hr
    exact ⟨n, hf⟩
  suffices h : Triple (fun w => Live ver x w₀ w ∧ w.rows = s.rows) _ _ _ from h s ⟨hlive, rfl⟩
  refine triple_bind (triple_create_rows hcreated) fun created => ?_
  refine triple_bind (triple_objects_filter (Q := fun pending w =>
    (Live ver x w₀ w ∧ Creation s.rows rows created w) ∧
      pending = w.rows.filter fun r => r.status = .PENDING && is_loop_child r)
      fun w hw => ⟨hw, rfl⟩)
    fun pending => ?_
  refine triple_bind (R := fun _ w => Live ver x w₀ w ∧ KeepsRows s.rows w.rows ∧
    ∀ b ∈ s.rows, b.status ≠ .PENDING → b ∈ w.rows) ?_ fun accepted => ?_
  · refine Triple.conseq (E := fun w => Live ver x w₀ w ∧ KeepsRows s.rows w.rows ∧
      ∀ b ∈ s.rows, b.status ≠ .PENDING → b ∈ w.rows) (Triple.of_state ?_) (fun _ h => h)
      (fun _ _ h => h) fun _ h => h.1
    rintro w ⟨⟨hw, hcreation⟩, rfl⟩
    have hpending : ∀ r ∈ w.rows.filter (fun r => r.status = .PENDING && is_loop_child r),
        r ∈ w.rows ∧ r.status = .PENDING ∧ is_loop_child r = true := by
      intro r hr
      simpa using hr
    have h := dispatch_pending_touched ver _ env computed.2 user_id hw.execution hcreation hfirst
      hpending (loaded_nodup w _)
    have hkeeps : KeepsRows s.rows w.rows :=
      .of_subset fun b hb => (hcreation.mem b).mpr (Or.inr hb)
    exact ⟨hw.touched h.1, hkeeps.trans h.1.keeps, h.2⟩
  · by_cases haccepted : 0 < accepted
    · rw [if_pos haccepted]
      refine triple_bind (triple_refresh (fun _ h => h.1) rfl rfl) fun ctx₁ => ?_
      intro w hw
      obtain ⟨⟨hw, rfl⟩, _, _, hkept⟩ := hw
      have hspares : Spares base w.rows := hbase.trans (.of_kept hkept)
      refine (triple_bind (triple_aggregate_loops (t := w.table) env) fun _ => triple_pure
        fun w' hw' => ⟨⟨hw'.1, w.rows, hw'.2.keeps, ?_, Or.inl rfl⟩, hspares.trans hw'.2.spares⟩ :
          Triple _ _ _ _) w ⟨hw, rfl⟩
      obtain htable | hentry := hw'.2.changed
      · exact Or.inl fun b hb _ => by simpa only [World.rows, htable] using hb
      · exact Or.inr hentry
    · rw [if_neg haccepted]
      refine triple_pure fun w hw =>
        ⟨⟨hw.1, s.rows, hw.2.1, Or.inl fun b hb hterm => ?_, Or.inr rfl⟩,
          hbase.trans (.of_kept hw.2.2)⟩
      exact hw.2.2 b hb (ne_pending_of_terminal hterm)

/-- Skipping spares the rows before. -/
theorem triple_skip (env : Env) (ctx : EdgeCtx) (user_id : Option Int) (base : List NodeExec) :
    Triple (fun w => (Live ver x w₀ w ∧ SkipContext ver x w.log w.rows ctx) ∧ Spares base w.rows)
      (_mark_ineligible_nodes_skipped env x ver.dag ctx user_id)
      (fun _ w => Live ver x w₀ w ∧ Spares base w.rows) (Live ver x w₀) := by
  unfold _mark_ineligible_nodes_skipped
  refine triple_bind (triple_objects_filter (Q := fun rows w =>
    ((Live ver x w₀ w ∧ SkipContext ver x w.log w.rows ctx) ∧ Spares base w.rows) ∧ rows = w.rows)
    fun w hw => ⟨hw, List.filter_eq_self.mpr (by simp)⟩) fun rows => ?_
  simp only
  split_ifs
  · exact triple_pure fun _ h => ⟨h.1.1.1, h.1.2⟩
  refine triple_bind triple_record_noted fun _ => ?_
  refine triple_bind (R := fun _ w => Live ver x w₀ w ∧ Spares base w.rows)
    (triple_bulk_create ?_ ?_) fun _ =>
    triple_pure fun _ h => h
  · rintro w table created ⟨⟨⟨hw, hctx⟩, hspares⟩, rfl⟩ hins
    exact ⟨hw.step (.insert _ hw.execution ⟨rfl, hctx, env, user_id, rfl⟩ hins) rfl,
      hspares.insert hins⟩
  · rintro w ⟨⟨⟨hw, hctx⟩, _⟩, rfl⟩
    exact hw.step (.note _ hw.execution ⟨rfl, hctx, env, user_id, rfl⟩) rfl

/-- Finalizing changes the execution record only. -/
theorem finalize_moves (env : Env) (w : World) :
    Moves ver w (_finalize_workflow_if_done env ver.dag w).2 ∧
      (_finalize_workflow_if_done env ver.dag w).2.rows = w.rows := by
  refine Triple.state (P := fun s => s = w) (E := fun s => Moves ver w s ∧ s.rows = w.rows) ?_ rfl
  refine triple_bind (triple_getState (Q := fun _ s => s = w) fun _ h => h) fun s => ?_
  split
  · exact triple_pure fun _ hs => hs ▸ ⟨Moves.refl _, rfl⟩
  · refine triple_bind (R := fun _ s => Moves ver w s ∧ s.rows = w.rows) (triple_modifyState
      fun s hs => ?_)
      fun _ => triple_pure fun _ h => h
    subst hs
    exact ⟨.step (.finish _ fun _ => by constructor <;> rfl), rfl⟩

/-- From the refreshed context on, a tick writes no row that was not pending but
aggregates loops. -/
theorem triple_schedule_phases (env : Env) (user_id : Option Int) (tick : AdvanceTick)
    (base : List NodeExec) :
    Triple (fun w => Live ver x w₀ w ∧ Spares base w.rows)
      (schedule_phases env x ver (_build_edge_ctx x ver) user_id tick)
      (fun _ w => Moves ver w₀ w ∧ Spares base w.rows) (Moves ver w₀) := by
  have hE : ∀ s, Live ver x w₀ s → Moves ver w₀ s := fun _ h => h.moves
  refine triple_bind (triple_refresh (fun _ h => h.1) rfl rfl) fun ctx => ?_
  refine triple_bind ((triple_dispatch_phase env ctx user_id base).conseq (fun _ h => ⟨h.1, h.2.2⟩)
    (fun _ _ h => h) hE) fun answer => ?_
  refine triple_bind ((triple_skip env answer.2.2 user_id base).conseq (fun _ h => h)
    (fun _ _ h => h) hE)
    fun _ => ?_
  refine triple_bind (R := fun _ w => Moves ver w₀ w ∧ Spares base w.rows) ?_ fun _ =>
    triple_pure fun _ h => h
  refine (Triple.of_state (E := fun w => Moves ver w₀ w ∧ Spares base w.rows) fun s hs => ?_).conseq
    (fun _ h => h)
    (fun _ _ h => h) fun _ h => h.1
  obtain ⟨hmoves, hrows⟩ := @finalize_moves ver env s
  exact ⟨hs.1.moves.trans hmoves, hrows ▸ hs.2⟩

/-- The transactional part of a tick is made of steps. -/
theorem advance_phases_moves (env : Env) (user_id : Option Int) (tick : AdvanceTick)
    (completed : List String) {w : World} (hx : w.execution = some x) :
    Moves ver w (advance_phases env x ver (_build_edge_ctx x ver) user_id tick completed w).2 := by
  refine Triple.state (P := Live ver x w) (E := Moves ver w) ?_ (.start hx)
  have hE : ∀ s, Live ver x w s → Moves ver w s := fun _ h => h.moves
  have hnone : ∀ rows, Spares [] rows := fun _ _ hb => by cases hb
  refine triple_bind ((triple_retry env completed user_id []).conseq (fun _ h => ⟨h, hnone _⟩)
    (fun _ _ h => h.1) hE) fun _ => ?_
  refine triple_bind ((triple_fail_fast env user_id).conseq (fun _ h => h) (fun _ _ h => h) hE)
    fun _ => ?_
  refine triple_bind (R := fun _ => Live ver x w) ?_ fun _ => ?_
  · intro s hs
    exact (triple_aggregate_loops env).conseq (fun _ h => h) (fun _ _ h => h.1) hE s ⟨hs, rfl⟩
  · exact (triple_schedule_phases env user_id _ []).conseq (fun _ h => ⟨h, hnone _⟩)
      (fun _ _ h => h.1) fun _ h => h

end taurus.engine.runner
