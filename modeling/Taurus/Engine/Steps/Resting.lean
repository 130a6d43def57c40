import Taurus.Engine.Steps.Calls

namespace taurus.engine.runner

open taurus.lib taurus.lib.Prog taurus.python taurus.engine.executor

/-- The act asks an adapter about the row `pk`. -/
def Act.Asks (pk : Nat) : Act → Prop
  | .dispatch row | .poll row | .cancel row => row.pk = pk
  | .create _ | .retry .. | .expand .. | .aggregate _ | .skip .. => False

/-- A property `P` of a row that no call works on: the row is neither running nor a pending
loop child, and a cancellation or an aggregation keeps the property. While such a row is
there, the execution ends only with a status of `Q`. -/
structure Idle (P : NodeExec → Prop) (Q : ExecStatus → Prop) : Prop where
  not_running : ∀ r, P r → r.status ≠ .RUNNING
  not_waiting : ∀ r, P r → r.status = .PENDING → is_loop_child r = false
  cancelled : ∀ r row (env : Env) user_id message, P r → P row → is_unfinished row = true →
    P (r.write (cancelled_row env user_id message row) env.now (cancelFields user_id))
  aggregated : ∀ r row (env : Env) children, P r → P row → is_loop_parent row = true →
    P (r.write (aggregated_row env row children) env.now aggregateFields)
  finished : ∀ r dag rows status, r ∈ rows → P r → final_status dag rows = some status → Q status
  cancelled_execution : Q .CANCELLED

/-- The row `pk` has the property, no adapter was asked about it since `before`, and the
execution has a status of `Q`. -/
structure Rests (P : NodeExec → Prop) (Q : ExecStatus → Prop) (pk : Nat) (before : List Entry)
    (w : World) : Prop where
  stored : ∃ r ∈ w.rows, r.pk = pk ∧ P r
  unasked : ∃ later, w.log = before ++ later ∧ ∀ e ∈ later, ¬ e.act.Asks pk
  allowed : ∃ x, w.execution = some x ∧ Q x.status

namespace Rests

variable {P : NodeExec → Prop} {Q : ExecStatus → Prop} {pk : Nat} {before : List Entry}
  {w w' : World}

/-- A row at rest, before the call. -/
theorem start {r : NodeExec} {x : Execution} (hr : r ∈ w.rows) (hP : P r)
    (hx : w.execution = some x) (hQ : Q x.status) :
    Rests P Q r.pk w.log w := ⟨⟨r, hr, rfl, hP⟩, ⟨[], by simp⟩, x, hx, hQ⟩

/-- The execution may change within `Q`. -/
theorem execution (h : Rests P Q pk before w) {f : Execution → Execution}
    (hf : ∀ x, Q (f x).status) :
    Rests P Q pk before { w with execution := w.execution.map f } := by
  obtain ⟨x, hx, _⟩ := h.allowed
  exact ⟨h.stored, h.unasked, f x, by simp [hx], hf x⟩

/-- Acts that do not ask about the row may be noted. -/
theorem note (h : Rests P Q pk before w) {act : Act} (hact : ¬ act.Asks pk) :
    Rests P Q pk before (w.note act) := by
  refine ⟨h.stored, ?_, h.allowed⟩
  obtain ⟨later, hlog, hlater⟩ := h.unasked
  refine ⟨later ++ [{ act, before := w.rows }], by simp [World.note, hlog], ?_⟩
  intro e he
  obtain he | he := List.mem_append.mp he
  · exact hlater e he
  · obtain rfl := List.mem_singleton.mp he
    exact hact

/-- Rows may be inserted. -/
theorem insert (h : Rests P Q pk before w) {rows created : List NodeExec} {table : Table}
    (hins : w.table.bulk_create rows = some (table, created)) :
    Rests P Q pk before { w with table } := by
  obtain ⟨r, hr, hrest⟩ := h.stored
  exact ⟨⟨r, ((Table.bulk_create_created hins).mem r).mpr (Or.inr hr), hrest⟩, h.unasked, h.allowed⟩

/-- Inserted rows are others. -/
theorem created_ne (h : Rests P Q pk before w) {rows created : List NodeExec} {table : Table}
    (hins : w.table.bulk_create rows = some (table, created)) : ∀ c ∈ created, c.pk ≠ pk := by
  intro c hc heq
  obtain ⟨r, hr, hrpk, _⟩ := h.stored
  have hlt := w.table.pk_lt r hr
  have hle := (Table.bulk_create_created hins).pk_le c hc
  omega

/-- Other rows may be saved. -/
theorem save (h : Rests P Q pk before w) {row : NodeExec} (hpk : row.pk ≠ pk) (now : Time)
    (fields : List Field) :
    Rests P Q pk before { w with table := w.table.save row now fields } := by
  obtain ⟨r, hr, hrpk, hP⟩ := h.stored
  refine ⟨⟨r, ?_, hrpk, hP⟩, h.unasked, h.allowed⟩
  rw [World.rows, Table.save_rows, List.mem_map]
  exact ⟨r, hr, if_neg fun heq => hpk (heq.symm.trans hrpk)⟩

/-- A save of the row itself that keeps the property. -/
theorem rewrite (h : Rests P Q pk before w) {row : NodeExec} {now : Time} {fields : List Field}
    (hkeep : ∀ r, P r → P (r.write row now fields)) :
    Rests P Q pk before { w with table := w.table.save row now fields } := by
  by_cases hpk : row.pk = pk
  · obtain ⟨r, hr, hrpk, hP⟩ := h.stored
    refine ⟨⟨r.write row now fields, ?_, hrpk, hkeep r hP⟩, h.unasked, h.allowed⟩
    exact (w.table.mem_save hr (hpk.trans hrpk.symm) _).mpr (Or.inr rfl)
  · exact h.save hpk now fields

/-- A transaction that fails puts the row back. -/
theorem rollback (h : Rests P Q pk before w) (h' : Rests P Q pk before w') :
    Rests P Q pk before (w.rollback w') :=
  ⟨h.stored, h'.unasked, h.allowed⟩

/-- A stored row under the key is the one that rests. -/
theorem of_pk (h : Rests P Q pk before w) {r : NodeExec} (hr : r ∈ w.rows)
    (hpk : r.pk = pk) : P r := by
  obtain ⟨s, hs, hspk, hP⟩ := h.stored
  obtain rfl := w.table.eq_of_pk hr hs (hpk.trans hspk.symm)
  exact hP

end Rests

namespace Idle

variable {P : NodeExec → Prop} {Q : ExecStatus → Prop} {pk : Nat} {before : List Entry}
  {ver : DagVersion}

theorem record (act : Act) (hact : ¬ act.Asks pk) :
    Triple (Rests P Q pk before) (runner.record act) (fun _ => Rests P Q pk before)
      (Rests P Q pk before) :=
  triple_modifyState fun _ hw => hw.note hact

/-- Saving another row leaves this one at rest. -/
theorem saved (env : Env) {row : NodeExec} (hpk : row.pk ≠ pk) (fields : List Field) :
    Triple (Rests P Q pk before) (runner.save env row fields) (fun _ => Rests P Q pk before)
      (Rests P Q pk before) :=
  triple_modifyState fun _ hw => hw.save hpk env.now fields

/-- `bulk_create` answers other rows. -/
theorem bulk_create (rows : List NodeExec) :
    Triple (Rests P Q pk before) (runner.bulk_create rows)
      (fun created w => Rests P Q pk before w ∧ ∀ c ∈ created, c.pk ≠ pk)
        (Rests P Q pk before) := by
  intro w hw
  unfold runner.bulk_create
  cases hins : w.table.bulk_create rows with
  | none => exact hw
  | some p => exact ⟨hw.insert hins, hw.created_ne hins⟩

/-- The rows loaded by a filter: each of them is another one, or has the property. -/
theorem load (p : NodeExec → Bool) :
    Triple (Rests P Q pk before) (objects_filter p)
      (fun rows w => Rests P Q pk before w ∧ ∀ r ∈ rows, p r = true ∧ (r.pk = pk → P r))
        (Rests P Q pk before) := by
  intro w hw
  refine ⟨hw, fun r hr => ?_⟩
  obtain ⟨hr, hp⟩ := List.mem_filter.mp hr
  exact ⟨hp, hw.of_pk hr⟩

/-- A loop over loaded rows, each of which the body may work on. -/
theorem forEach {β : Type} {body : NodeExec → RunnerM β} {C : NodeExec → Prop}
    (hbody : ∀ r, C r → Triple (Rests P Q pk before) (body r)
      (fun _ => Rests P Q pk before) (Rests P Q pk before))
    (rows : List NodeExec) :
    Triple (fun w => Rests P Q pk before w ∧ ∀ r ∈ rows, C r) (Prog.forEach body rows)
      (fun _ => Rests P Q pk before) (Rests P Q pk before) := by
  refine (triple_forEach (I := fun rest w => Rests P Q pk before w ∧ ∀ r ∈ rest, C r)
    (E := Rests P Q pk before)
    (fun r rest => ?_) rows).conseq (fun _ hw => hw) (fun _ _ hw => hw.1) fun _ hw => hw
  rintro w ⟨hw, hrest⟩
  refine (hbody r (hrest r List.mem_cons_self)).conseq (fun _ h => h) (fun _ _ h => ⟨h, ?_⟩)
    (fun _ h => h) w hw
  exact fun s hs => hrest s (List.mem_cons_of_mem _ hs)

theorem fail_row (env : Env) {row : NodeExec} (hpk : row.pk ≠ pk) (message : String) :
    Triple (Rests P Q pk before) (runner.fail_row env row message) (fun _ => Rests P Q pk before)
      (Rests P Q pk before) :=
  triple_bind (saved env (by exact hpk) _) fun _ => triple_pure fun _ hw => hw

theorem cancel_adapter (env : Env) (x : Execution) {row : NodeExec} (hpk : row.pk ≠ pk) :
    Triple (Rests P Q pk before) (runner.cancel_adapter env x row) (fun _ => Rests P Q pk before)
      (Rests P Q pk before) := by
  unfold runner.cancel_adapter
  split
  · exact triple_pure fun _ hw => hw
  split
  · exact triple_pure fun _ hw => hw
  · exact triple_bind (record _ hpk) fun _ => triple_pure fun _ hw => hw

theorem poll_answer (env : Env) {row : NodeExec} (hpk : row.pk ≠ pk) (uo : UnitOutput) :
    Triple (Rests P Q pk before) (runner.poll_answer env row uo) (fun _ => Rests P Q pk before)
      (Rests P Q pk before) := by
  have hnew : (_apply_unit_output env row uo false).1.pk ≠ pk := by
    rw [(apply_unit_output_sameIdentity env row uo false).pk]
    exact hpk
  unfold runner.poll_answer
  simp only
  split
  · exact triple_bind (saved env (by exact hnew) _) fun _ => triple_pure fun _ hw => hw
  · exact triple_bind (saved env hnew _) fun _ => triple_pure fun _ hw => hw

theorem poll_adapter (env : Env) (x : Execution) {row : NodeExec} (hpk : row.pk ≠ pk) :
    Triple (Rests P Q pk before) (runner.poll_adapter env x row) (fun _ => Rests P Q pk before)
      (Rests P Q pk before) := by
  unfold runner.poll_adapter
  split
  · exact fail_row env hpk _
  refine triple_bind (R := fun _ => Rests P Q pk before)
    (triple_fromExcept (fun _ _ _ hw => hw) fun _ hw => hw) fun _ => ?_
  refine triple_bind (record _ hpk) fun _ => ?_
  split
  · exact fail_row env hpk _
  · exact poll_answer env hpk _

/-- A poll of another row. -/
theorem poll_one_row (env : Env) (x : Execution) {row : NodeExec} (hpk : row.pk ≠ pk) :
    Triple (Rests P Q pk before) (_poll_one_row env x row) (fun _ => Rests P Q pk before)
      (Rests P Q pk before) := by
  unfold _poll_one_row
  split
  · exact triple_pure fun _ hw => hw
  refine triple_bind (R := fun _ => Rests P Q pk before)
    (triple_fromExcept (fun _ _ _ hw => hw) fun _ hw => hw) fun _ => ?_
  split_ifs
  · exact triple_pure fun _ hw => hw
  · exact fail_row env hpk _
  · exact fail_row env hpk _
  · refine triple_bind (cancel_adapter env x (by exact hpk)) fun _ => ?_
    exact triple_bind (saved env (by exact hpk) _) fun _ => triple_pure fun _ hw => hw
  · exact poll_adapter env x hpk

theorem create_rows (rows : List NodeExec) :
    Triple (Rests P Q pk before) (runner.create_rows rows)
      (fun created w => Rests P Q pk before w ∧ ∀ c ∈ created, c.pk ≠ pk)
        (Rests P Q pk before) := by
  unfold runner.create_rows
  split_ifs
  · exact triple_pure fun _ hw => ⟨hw, by simp⟩
  · exact triple_bind (record (.create rows) id) fun _ => bulk_create rows

theorem expand_children (env : Env) (x : Execution) (parent : NodeExec) (uo : UnitOutput)
    (user_id : Option Int) :
    Triple (Rests P Q pk before) (_expand_loop_children env x parent uo user_id)
      (fun _ => Rests P Q pk before) (Rests P Q pk before) := by
  unfold _expand_loop_children
  simp only
  split
  · exact triple_pure fun _ hw => hw
  split
  · exact triple_raise fun _ hw => hw
  refine triple_bind (record _ (by exact id)) fun _ => ?_
  exact triple_bind (bulk_create _) fun _ => triple_pure fun _ hw => hw.1

theorem dispatch_answer (env : Env) (x : Execution) {row : NodeExec} (hpk : row.pk ≠ pk)
    (uo : UnitOutput) (user_id : Option Int) :
    Triple (Rests P Q pk before) (runner.dispatch_answer env x row uo user_id)
      (fun _ => Rests P Q pk before) (Rests P Q pk before) := by
  have hnew : (_apply_unit_output env { row with status := .RUNNING } uo true).1.pk ≠ pk := by
    rw [(apply_unit_output_sameIdentity env { row with status := .RUNNING } uo true).pk]
    exact hpk
  unfold runner.dispatch_answer
  simp only
  refine triple_bind (saved env hnew _) fun _ => ?_
  split
  · exact expand_children env x _ uo user_id
  · exact triple_pure fun _ hw => hw

/-- The dispatch of another row. -/
theorem dispatch_row (env : Env) (x : Execution) (dag : Dag) (ctx : EdgeCtx) (user_id : Option Int)
    {row : NodeExec} (hpk : row.pk ≠ pk) :
    Triple (Rests P Q pk before) (runner.dispatch_row env x dag ctx user_id row)
      (fun _ => Rests P Q pk before) (Rests P Q pk before) := by
  unfold runner.dispatch_row
  split
  · exact triple_pure fun _ hw => hw
  refine triple_bind (R := fun _ => Rests P Q pk before) (triple_prepare fun _ hw => hw)
    fun prepared => ?_
  cases prepared with
  | inl message => exact triple_bind (fail_row env hpk message) fun _ => triple_pure fun _ hw => hw
  | inr prepared =>
    simp only
    refine triple_bind (record _ (by exact hpk)) fun _ => ?_
    split
    · split
      · exact triple_bind (saved env (by exact hpk) _) fun _ => triple_pure fun _ hw => hw
      · exact triple_raise fun _ hw => hw
    · exact triple_bind (dispatch_answer env x (by exact hpk) _ user_id) fun _ =>
        triple_pure fun _ hw => hw

theorem dispatch_pending (env : Env) (x : Execution) (dag : Dag) (rows : List NodeExec)
    (ctx : EdgeCtx) (user_id : Option Int) :
    Triple (fun w => Rests P Q pk before w ∧ ∀ r ∈ rows, r.pk ≠ pk)
      (_dispatch_pending env x dag rows ctx user_id)
      (fun _ => Rests P Q pk before) (Rests P Q pk before) :=
  triple_bind (forEach (fun _ hpk => dispatch_row env x dag ctx user_id hpk) rows) fun _ =>
    triple_pure fun _ hw => hw

theorem retry (env : Env) (x : Execution) (dag : Dag) (completed : List String)
    (user_id : Option Int) :
    Triple (Rests P Q pk before) (_retry_failed_rows env x dag completed user_id)
      (fun _ => Rests P Q pk before) (Rests P Q pk before) := by
  unfold _retry_failed_rows
  refine triple_bind ((load _).conseq (fun _ hw => hw) (fun _ _ hw => hw.1) fun _ hw => hw)
    fun rows => ?_
  simp only
  split_ifs
  · exact triple_pure fun _ hw => hw
  · refine triple_bind (record _ (by exact id)) fun _ => ?_
    exact triple_bind (bulk_create _) fun _ => triple_pure fun _ hw => hw.1

theorem skip (env : Env) (x : Execution) (dag : Dag) (ctx : EdgeCtx) (user_id : Option Int) :
    Triple (Rests P Q pk before) (_mark_ineligible_nodes_skipped env x dag ctx user_id)
      (fun _ => Rests P Q pk before) (Rests P Q pk before) := by
  unfold _mark_ineligible_nodes_skipped
  refine triple_bind ((load _).conseq (fun _ hw => hw) (fun _ _ hw => hw.1) fun _ hw => hw)
    fun rows => ?_
  simp only
  split_ifs
  · exact triple_pure fun _ hw => hw
  · refine triple_bind (record _ (by exact id)) fun _ => ?_
    exact triple_bind (bulk_create _) fun _ => triple_pure fun _ hw => hw.1

variable (h : Idle P Q)

include h

/-- What ends the execution is decided over rows that include the one that rests. -/
theorem finalize (env : Env) (dag : Dag) :
    Triple (Rests P Q pk before) (_finalize_workflow_if_done env dag) (fun _ => Rests P Q pk before)
      (Rests P Q pk before) := by
  refine triple_bind (R := fun s w => s = w ∧ Rests P Q pk before w)
    (triple_getState fun _ hw => ⟨rfl, hw⟩) fun s => ?_
  cases hstatus : final_status dag s.rows with
  | none => exact triple_pure fun _ hw => hw.2
  | some status =>
    refine triple_bind (R := fun _ => Rests P Q pk before) (triple_modifyState ?_) fun _ =>
      triple_pure fun _ hw => hw
    rintro w ⟨rfl, hw⟩
    obtain ⟨r, hr, _, hP⟩ := hw.stored
    exact hw.execution fun _ => h.finished r dag s.rows status hr hP hstatus

/-- The polled rows are others. -/
theorem poll_phase (env : Env) (x : Execution) :
    Triple (Rests P Q pk before) (runner.poll_phase env x) (fun _ => Rests P Q pk before)
      (Rests P Q pk before) := by
  refine triple_bind (R := fun rows w => Rests P Q pk before w ∧ ∀ r ∈ rows, r.pk ≠ pk) ?_
    fun rows => ?_
  · refine (load _).conseq (fun _ hw => hw) (fun rows w hw => ⟨hw.1, fun r hr heq => ?_⟩)
      fun _ hw => hw
    obtain ⟨hrunning, hP⟩ := hw.2 r hr
    exact h.not_running r (hP heq) (by simpa using hrunning)
  · exact triple_bind (forEach (fun _ hpk => poll_one_row env x hpk) rows) fun _ =>
      triple_pure fun _ hw => hw

/-- A cancellation does not ask the adapter of a row that is not running. -/
theorem cancel_row (env : Env) (x : Execution) (user_id : Option Int) (message : String)
    {on_error : NodeExec → NodeExec} (herror : ∀ r, (on_error r).pk = r.pk) {row : NodeExec}
    (hrow : is_unfinished row = true ∧ (row.pk = pk → P row)) :
    Triple (Rests P Q pk before) (runner.cancel_row env x user_id message on_error row)
      (fun _ => Rests P Q pk before) (Rests P Q pk before) := by
  by_cases hpk : row.pk = pk
  · have hP := hrow.2 hpk
    refine triple_bind (R := fun r w => r = row ∧ Rests P Q pk before w) ?_ fun r => ?_
    · unfold runner.cancel_answer
      rw [if_neg (h.not_running row hP)]
      exact triple_pure fun _ hw => ⟨rfl, hw⟩
    · refine triple_modifyState ?_
      rintro w ⟨rfl, hw⟩
      exact hw.rewrite fun s hs => h.cancelled s _ env user_id message hs hP hrow.1
  · refine triple_bind (R := fun r w => r.pk ≠ pk ∧ Rests P Q pk before w) ?_ fun r => ?_
    · unfold runner.cancel_answer
      split_ifs
      · refine triple_bind (cancel_adapter env x hpk) fun answer => ?_
        cases answer with
        | ok uo =>
          refine triple_pure fun _ hw => ⟨?_, hw⟩
          rw [(apply_unit_output_sameIdentity env row uo false).pk]
          exact hpk
        | error e => exact triple_pure fun _ hw => ⟨by rwa [herror], hw⟩
      · exact triple_pure fun _ hw => ⟨hpk, hw⟩
    · exact triple_modifyState fun w hw => hw.2.save (by exact hw.1) env.now _

theorem fail_fast (env : Env) (x : Execution) (user_id : Option Int) :
    Triple (Rests P Q pk before) (fail_fast_phase env x user_id) (fun _ => Rests P Q pk before)
      (Rests P Q pk before) := by
  unfold fail_fast_phase
  refine triple_bind ((load _).conseq (fun _ hw => hw) (fun _ _ hw => hw.1) fun _ hw => hw)
    fun failed => ?_
  split_ifs
  · refine triple_bind (load _) fun rows => ?_
    exact triple_bind (forEach (fun r hr => h.cancel_row env x user_id _ (fun _ => rfl) hr) rows)
      fun _ =>
      triple_pure fun _ hw => hw
  · exact triple_pure fun _ hw => hw

theorem aggregate (env : Env) {row : NodeExec}
    (hrow : is_loop_parent row = true ∧ (row.pk = pk → P row)) :
    Triple (Rests P Q pk before) (_aggregate_loop_children env row) (fun _ => Rests P Q pk before)
      (Rests P Q pk before) := by
  unfold _aggregate_loop_children
  refine triple_bind ((load _).conseq (fun _ hw => hw) (fun _ _ hw => hw.1) fun _ hw => hw)
    fun children => ?_
  simp only
  split_ifs
  · exact triple_pure fun _ hw => hw
  · exact triple_pure fun _ hw => hw
  · refine triple_bind (record (.aggregate row) id) fun _ => ?_
    refine triple_bind (R := fun _ => Rests P Q pk before)
      (triple_modifyState fun w hw => ?_) fun _ =>
      triple_pure fun _ hw => hw
    by_cases hpk : row.pk = pk
    · exact hw.rewrite fun s hs => h.aggregated s row env children hs (hrow.2 hpk) hrow.1
    · exact hw.save (by exact hpk) env.now _

theorem aggregate_loops (env : Env) :
    Triple (Rests P Q pk before) (runner.aggregate_loops env) (fun _ => Rests P Q pk before)
      (Rests P Q pk before) :=
  triple_bind (load is_loop_parent) fun rows =>
    triple_bind (forEach (fun _ hr => h.aggregate env hr) rows) fun _ => triple_pure fun _ hw => hw

/-- The dispatched rows were created a moment ago, or are pending loop children. -/
theorem dispatch_phase (env : Env) (x : Execution) (ctx : EdgeCtx) (user_id : Option Int) :
    Triple (Rests P Q pk before) (runner.dispatch_phase env x ver ctx user_id)
      (fun _ => Rests P Q pk before) (Rests P Q pk before) := by
  unfold runner.dispatch_phase
  refine triple_bind (R := fun _ => Rests P Q pk before)
    (triple_getState fun _ hw => hw) fun s => ?_
  simp only
  refine triple_bind (create_rows _) fun created => ?_
  refine triple_bind (R := fun pending w => Rests P Q pk before w ∧ ∀ r ∈ created ++ pending,
    r.pk ≠ pk) ?_ fun pending => ?_
  · rintro w ⟨hw, hcreated⟩
    refine ⟨hw, fun r hr heq => ?_⟩
    obtain hr | hr := List.mem_append.mp hr
    · exact hcreated r hr heq
    · obtain ⟨hr, hp⟩ := List.mem_filter.mp hr
      obtain ⟨hpending, hchild⟩ : r.status = .PENDING ∧ is_loop_child r = true := by simpa using hp
      rw [h.not_waiting r (hw.of_pk hr heq) hpending] at hchild
      cases hchild
  refine triple_bind (dispatch_pending env x ver.dag _ _ user_id) fun dispatched => ?_
  split_ifs
  · refine triple_bind (R := fun _ => Rests P Q pk before) (fun _ hw => hw) fun _ => ?_
    exact triple_bind (h.aggregate_loops env) fun _ => triple_pure fun _ hw => hw
  · exact triple_pure fun _ hw => hw

/-- The phases leave the row at rest. -/
theorem advance_phases (env : Env) (x : Execution) (ctx : EdgeCtx) (user_id : Option Int)
    (tick : AdvanceTick) (completed : List String) :
    Triple (Rests P Q pk before) (runner.advance_phases env x ver ctx user_id tick completed)
      (fun _ => Rests P Q pk before) (Rests P Q pk before) := by
  refine triple_bind (retry env x ver.dag completed user_id) fun _ => ?_
  refine triple_bind (h.fail_fast env x user_id) fun _ => ?_
  refine triple_bind (h.aggregate_loops env) fun _ => ?_
  refine triple_bind (R := fun _ => Rests P Q pk before) (fun _ hw => hw) fun ctx => ?_
  refine triple_bind (h.dispatch_phase env x ctx user_id) fun answer => ?_
  refine triple_bind (skip env x ver.dag answer.2.2 user_id) fun _ => ?_
  exact triple_bind (h.finalize env ver.dag) fun _ => triple_pure fun _ hw => hw

theorem advance_workflow (env : Env) (user_id : Option Int) :
    Triple (Rests P Q pk before) (runner.advance_workflow env ver user_id)
      (fun _ => Rests P Q pk before) (Rests P Q pk before) := by
  refine triple_bind (R := fun _ => Rests P Q pk before)
    (triple_getState fun _ hw => hw) fun s => ?_
  cases s.execution with
  | none => exact triple_raise fun _ hw => hw
  | some x =>
    refine triple_bind (h.poll_phase env x) fun polled => ?_
    exact triple_atomic (h.advance_phases env x _ user_id _ _) fun _ _ hw hw' => hw.rollback hw'

theorem cancel_workflow (env : Env) (reason : Option String) :
    Triple (Rests P Q pk before) (runner.cancel_workflow env reason)
      (fun _ => Rests P Q pk before) (Rests P Q pk before) := by
  refine triple_atomic (E := Rests P Q pk before) ?_ fun _ _ hw hw' => hw.rollback hw'
  refine triple_bind (R := fun _ => Rests P Q pk before)
    (triple_getState fun _ hw => hw) fun s => ?_
  cases s.execution with
  | none => exact triple_raise fun _ hw => hw
  | some x =>
    refine triple_bind (load _) fun rows => ?_
    refine triple_bind (forEach
      (fun r hr => h.cancel_row env x none _ (by exact fun _ => rfl) hr) rows) fun _ => ?_
    exact triple_modifyState fun w hw => hw.execution fun _ => h.cancelled_execution

/-- No call works on a row that rests. -/
theorem call (c : Call) {w : World} (hc : c.Enabled w) (hw : Rests P Q pk before w) :
    Rests P Q pk before (c.run ver w) := by
  cases c with
  | trigger env id params type user fs =>
    obtain ⟨x, hx, _⟩ := hw.allowed
    cases hx.symm.trans hc
  | advance env user => exact (h.advance_workflow env user).state hw
  | scheduled env =>
    exact Triple.state (triple_atomic (h.advance_workflow env none)
      fun _ _ hw hw' => hw.rollback hw') hw
  | cancel env reason => exact (h.cancel_workflow env reason).state hw

end Idle

end taurus.engine.runner
