import Taurus.Engine.Steps.Polling

namespace taurus.engine.runner

open taurus.lib taurus.lib.Prog taurus.python taurus.engine.executor

variable {ver : DagVersion} {x : Execution} {w₀ : World}

/-- The rule for `bulk_create` of the rows of an act just noted. -/
theorem triple_bulk_create {act : Act} {P : World → Prop} {Q : List NodeExec → World → Prop}
    {E : World → Prop}
    (hok : ∀ w table created, P w → w.table.bulk_create act.rows = some (table, created) →
      Q created { w.note act with table })
    (herr : ∀ w, P w → E (w.note act)) :
    Triple (fun s => ∃ w, P w ∧ s = w.note act) (bulk_create act.rows) Q E := by
  rintro s ⟨w, hw, rfl⟩
  unfold bulk_create
  cases h : w.table.bulk_create act.rows with
  | none => simpa [World.note, h] using herr w hw
  | some p => simpa [World.note, h] using hok w p.1 p.2 hw h

/-- Noting an act leaves the noted world to the next command. -/
theorem triple_record_noted {act : Act} {P : World → Prop} {E : World → Prop} :
    Triple P (record act) (fun _ s => ∃ w, P w ∧ s = w.note act) E :=
  triple_modifyState fun w hw => ⟨w, hw, rfl⟩

/-- A row that a loop expands to is a child row of it. -/
theorem loop_child_childRow (env : Env) (x : Execution) (parent : NodeExec) (user_id : Option Int)
    (body_node_type : String) (body_params : Json) (total i : Nat) (item : Json) :
    ChildRow parent (loop_child env x parent user_id body_node_type body_params total i item) where
  node_key := ⟨i, rfl⟩
  attempt_no := rfl
  status := rfl
  loop_child := rfl
  host_id := rfl

/-- A body whose written row may be expanded. -/
structure Expanding (ver : DagVersion) (x : Execution) (row : NodeExec) (w₀ w : World) : Prop
    extends After ver x row w₀ w where
  expandable : Expandable w.log w.rows row.node_key

/-- Expanding a loop inserts pending children of the written row, if anything. -/
theorem triple_expand {env : Env} {row parent : NodeExec} {uo : UnitOutput} {user_id : Option Int}
    (hid : parent.SameIdentity row) :
    Triple (Expanding ver x row w₀) (_expand_loop_children env x parent uo user_id)
      (fun _ => Touched ver [row] w₀) (Touched ver [row] w₀) := by
  unfold _expand_loop_children
  simp only
  split
  · exact triple_pure fun _ h => h.touched
  split
  · exact triple_raise fun _ h => h.touched
  rename_i items _
  have hnoted : ∀ w, Expanding ver x row w₀ w → ∀ total params ty, Noted ver x w.log w.rows
      (.expand parent (items.mapIdx fun i item =>
        loop_child env x parent user_id ty params total i item)) := by
    intro w hw total params ty
    obtain ⟨r, hr, hsame⟩ := hw.stored
    refine ⟨hid.node_key ▸ hw.expandable, ⟨r, hr, hid.trans hsame.symm⟩, ?_⟩
    intro c hc
    obtain ⟨i, hi, rfl⟩ := List.mem_mapIdx.mp hc
    exact loop_child_childRow ..
  refine triple_bind triple_record_noted fun _ => ?_
  refine triple_bind (R := fun _ => Touched ver [row] w₀) (triple_bulk_create ?_ ?_) fun _ =>
    triple_pure fun _ h => h
  · intro w table created hw hins
    exact hw.touched.trans (.expand hw.execution hid.node_key (hnoted w hw _ _ _) hins)
  · intro w hw
    exact hw.touched.trans (.note hw.execution (hnoted w hw _ _ _))

/-- A candidate stays one while the log grows. -/
theorem Candidate.mono {log log' : List Entry} {rows : List NodeExec} {r : NodeExec}
    (h : Candidate log rows r) (hlog : log <+: log') : Candidate log' rows r := by
  cases h with
  | child h => exact .child h
  | created created before hmem hrow hattempt hsince =>
    exact .created created before (hlog.subset hmem) hrow hattempt hsince

/-- A body at a stored row that it may dispatch. -/
structure Dispatchable (ver : DagVersion) (x : Execution) (row : NodeExec) (w₀ w : World) : Prop
    extends Before ver x row w₀ w where
  candidate : Candidate w.log w.rows row

/-- A body at a candidate that its adapter was just asked to dispatch. -/
structure Dispatched (ver : DagVersion) (x : Execution) (row : NodeExec) (w₀ w : World) : Prop
    extends Dispatchable ver x row w₀ w where
  noted : ∃ e ∈ w.log, ∃ d, e.act = .dispatch d ∧ d.node_key = row.node_key ∧
    is_loop_child d = is_loop_child row

/-- A dispatched candidate may be expanded once it is saved. -/
theorem Dispatched.expandable {row new : NodeExec} {w : World} {now : Time} {fields : List Field}
    (h : Dispatched ver x row w₀ w) (hpending : row.status = .PENDING) (hpk : new.pk = row.pk) :
    Expandable w.log (w.table.save new now fields).rows row.node_key := by
  obtain ⟨e, he, d, hact, hkey, hflag⟩ := h.noted
  cases h.candidate with
  | child hchild => exact .child e he d hact hkey (hflag.trans hchild)
  | created created before hlog hrow _ hsince =>
    have hin : row.node_key ∈ created.map (·.node_key) := by
      obtain ⟨c, hc, heq⟩ := hrow
      exact List.mem_map.mpr ⟨c, hc, by rw [heq]⟩
    refine .created created before hlog hin ⟨fun b hb hterm => ?_, fun y hy => ?_⟩
      ⟨e, he, d, hact, hkey⟩
    · have hbin := hsince.kept b hb hterm
      refine (w.table.mem_save h.stored hpk b).mpr (Or.inl ⟨hbin, fun hbpk => ?_⟩)
      rw [w.table.eq_of_pk hbin h.stored hbpk, hpending] at hterm
      cases hterm
    · obtain ⟨hy, _⟩ | rfl := (w.table.mem_save h.stored hpk y).mp hy
      · exact hsince.origin y hy
      · exact Or.inr (Or.inl (by simpa using hin))

/-- Checking and rendering a row does not touch the database. -/
theorem triple_prepare {env : Env} {dag : Dag} {ctx : EdgeCtx} {row : NodeExec} {P E : World → Prop}
    (hE : ∀ w, P w → E w) :
    Triple P (prepare_dispatch env dag ctx row) (fun _ => P) E := by
  unfold prepare_dispatch
  split
  · exact triple_pure fun _ h => h
  split
  · exact triple_pure fun _ h => h
  refine triple_bind (R := fun _ => P) (triple_fromExcept (fun _ _ _ h => h) hE) fun _ => ?_
  split
  · exact triple_pure fun _ h => h
  · exact triple_raise hE
  split
  · exact triple_pure fun _ h => h
  · split_ifs <;> exact triple_pure fun _ h => h

/-- An answer touches the dispatched row alone. -/
theorem triple_dispatch_answer {env : Env} {row base : NodeExec} {uo : UnitOutput}
    {user_id : Option Int} (hpending : row.status = .PENDING) (hid : base.SameIdentity row) :
    Triple (Dispatched ver x row w₀) (dispatch_answer env x base uo user_id)
      (fun _ => Touched ver [row] w₀) (Touched ver [row] w₀) := by
  unfold dispatch_answer
  simp only
  set running : NodeExec := { base with status := .RUNNING }
  have hnew := (apply_unit_output_sameIdentity env running uo true).trans
    (show running.SameIdentity base by constructor <;> rfl) |>.trans hid
  have hstatus := apply_unit_output_status env running uo true
  refine triple_bind (R := fun _ => Expanding ver x row w₀) (triple_modifyState fun w hw => ?_)
    fun _ => ?_
  · refine ⟨hw.toBefore.save hnew.pk (.dispatch hpending ?_ hw.candidate),
      hw.expandable hpending hnew.pk⟩
    simp only [NodeExec.write, List.mem_append, List.mem_cons, true_or, or_true, if_true]
    rw [hstatus]
    exact nextStatus_running _
  · split
    · exact triple_expand hnew
    · exact triple_pure fun _ h => h.touched

/-- Dispatching a candidate writes its own row and inserts at most its loop children. -/
theorem dispatch_row_touched (env : Env) (ctx : EdgeCtx) (user_id : Option Int) (row : NodeExec)
    (w : World) (hx : w.execution = some x) (hrow : row ∈ w.rows)
    (hcand : row.status = .PENDING → Candidate w.log w.rows row) :
    Touched ver [row] w (dispatch_row env x ver.dag ctx user_id row w).2 := by
  unfold dispatch_row
  split
  · exact .refl _ w
  rename_i hstatus
  have hpending : row.status = .PENDING := by simpa using hstatus
  suffices h : Triple (Dispatchable ver x row w) _ (fun _ => Touched ver [row] w)
      (Touched ver [row] w) from h.state ⟨.start hx hrow, hcand hpending⟩
  refine triple_bind (triple_prepare fun _ h => h.touched) fun prepared => ?_
  obtain message | ⟨adapter, rendered⟩ := prepared
  · refine triple_bind (triple_fail_row rfl (fun _ h => h.toBefore) fun w new hw hnew =>
      .refuse hpending hnew hw.candidate) fun _ => triple_pure fun _ h => h
  · simp only
    set base : NodeExec := { row with
      rendered_params := rendered, user_id := user_id.or row.user_id, started_at := some env.now }
    have hid : base.SameIdentity row := by constructor <;> rfl
    refine triple_bind (R := fun _ => Dispatched ver x row w) ?_ fun _ => ?_
    · refine triple_modifyState fun w' hw => ?_
      have hnoted : Noted ver x w'.log w'.rows (.dispatch base) :=
        ⟨row, hw.stored, hid, rfl, hpending, hw.candidate⟩
      have hcand :=
        hw.candidate.mono (List.prefix_append w'.log [{ act := .dispatch base, before := w'.rows }])
      refine ⟨⟨⟨hw.touched.trans (.note hw.execution hnoted), hw.execution, hw.stored⟩, hcand⟩, ?_⟩
      exact ⟨_, List.mem_append_right _ (List.mem_singleton.mpr rfl), base, rfl, rfl, rfl⟩
    · split
      · split
        · refine triple_bind (triple_save hid.pk (fun _ h => h.toBefore) fun w' hw => ?_) fun _ =>
            triple_pure fun _ h => h.touched
          refine .dispatch hpending ?_ hw.candidate
          simp only [NodeExec.write, List.mem_cons, true_or, if_true]
          decide
        · exact triple_raise fun _ h => h.touched
      · exact triple_bind (triple_dispatch_answer hpending hid) fun _ => triple_pure fun _ h => h

/-- What no write of a dispatch pass over rows with keys in `own` changes. -/
structure KeptByDispatch (own : Nat → Prop) (I : World → Prop) : Prop where
  dispatch : ∀ w row, I w → I (w.note (.dispatch row))
  expand : ∀ w parent rows, I w → I (w.note (.expand parent rows))
  save : ∀ w row now fields, own row.pk → I w → I { w with table := w.table.save row now fields }
  insert : ∀ w rows table created, w.table.bulk_create rows = some (table, created) → I w →
    I { w with table }

namespace KeptByDispatch

variable {own : Nat → Prop} {I : World → Prop} (h : KeptByDispatch own I)

include h

theorem bulk_create (rows : List NodeExec) : Triple I (runner.bulk_create rows) (fun _ => I) I := by
  intro w hw
  unfold runner.bulk_create
  cases hins : w.table.bulk_create rows with
  | none => exact hw
  | some p => exact h.insert w rows p.1 p.2 hins hw

theorem expand_children (env : Env) (x : Execution) (parent : NodeExec) (uo : UnitOutput)
    (user_id : Option Int) :
    Triple I (_expand_loop_children env x parent uo user_id) (fun _ => I) I := by
  unfold _expand_loop_children
  simp only
  split
  · exact triple_pure fun _ hw => hw
  split
  · exact triple_raise fun _ hw => hw
  refine triple_bind (R := fun _ => I)
    (triple_modifyState fun w hw => h.expand w parent _ hw) fun _ => ?_
  exact triple_bind (h.bulk_create _) fun _ => triple_pure fun _ hw => hw

/-- The answer of a dispatch keeps the invariant on rows of one's own. -/
theorem dispatch_answer (env : Env) (x : Execution) (row : NodeExec) (uo : UnitOutput)
    (user_id : Option Int) (hown : own row.pk) :
    Triple I (runner.dispatch_answer env x row uo user_id) (fun _ => I) I := by
  unfold runner.dispatch_answer
  simp only
  have hnew : own (_apply_unit_output env { row with status := .RUNNING } uo true).1.pk := by
    rw [(apply_unit_output_sameIdentity env { row with status := .RUNNING } uo true).pk]
    exact hown
  refine triple_bind (R := fun _ => I)
    (triple_modifyState fun w hw => h.save w _ env.now _ hnew hw) fun _ => ?_
  split
  · exact h.expand_children env x _ uo user_id
  · exact triple_pure fun _ hw => hw

theorem dispatch_row (env : Env) (x : Execution) (dag : Dag) (ctx : EdgeCtx) (user_id : Option Int)
    (row : NodeExec) (hown : own row.pk) :
    Triple I (runner.dispatch_row env x dag ctx user_id row) (fun _ => I) I := by
  unfold runner.dispatch_row
  split
  · exact triple_pure fun _ hw => hw
  refine triple_bind (R := fun _ => I) (triple_prepare fun _ hw => hw) fun prepared => ?_
  cases prepared with
  | inl message =>
    refine triple_bind (R := fun _ => I) ?_ fun _ => triple_pure fun _ hw => hw
    exact triple_bind (R := fun _ => I)
      (triple_modifyState fun w hw => h.save w _ env.now _ hown hw) fun _ =>
      triple_pure fun _ hw => hw
  | inr prepared =>
    simp only
    refine triple_bind (R := fun _ => I)
      (triple_modifyState fun w hw => h.dispatch w _ hw) fun _ => ?_
    split
    · split
      · refine triple_bind (R := fun _ => I)
          (triple_modifyState fun w hw => h.save w _ env.now _ hown hw) fun _ => ?_
        exact triple_pure fun _ hw => hw
      · exact triple_raise fun _ hw => hw
    · exact triple_bind (h.dispatch_answer env x _ _ user_id hown) fun _ =>
        triple_pure fun _ hw => hw

theorem dispatch_rows (env : Env) (x : Execution) (dag : Dag) (candidates : List NodeExec)
    (ctx : EdgeCtx) (user_id : Option Int) (hown : ∀ row ∈ candidates, own row.pk) :
    Triple I (Prog.forEach (runner.dispatch_row env x dag ctx user_id) candidates)
      (fun _ => I) I := by
  refine (triple_forEach (I := fun rest w => (∀ row ∈ rest, own row.pk) ∧ I w)
    (E := I) (fun row rest => ?_)
    candidates).conseq (fun _ hw => ⟨hown, hw⟩) (fun _ _ hw => hw.2) fun _ hw => hw
  rintro w ⟨hrest, hw⟩
  refine (h.dispatch_row env x dag ctx user_id row (hrest row List.mem_cons_self)).conseq
    (fun _ hw => hw)
    (fun _ _ hw => ⟨fun r hr => hrest r (List.mem_cons_of_mem _ hr), hw⟩) (fun _ hw => hw) w hw

theorem dispatch_pending (env : Env) (x : Execution) (dag : Dag) (candidates : List NodeExec)
    (ctx : EdgeCtx) (user_id : Option Int) (hown : ∀ row ∈ candidates, own row.pk) :
    Triple I (_dispatch_pending env x dag candidates ctx user_id) (fun _ => I) I :=
  triple_bind (h.dispatch_rows env x dag candidates ctx user_id hown) fun _ =>
    triple_pure fun _ hw => hw

end KeptByDispatch

end taurus.engine.runner
