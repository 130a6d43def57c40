import Taurus.Engine.Steps.Basic

namespace taurus.engine.runner

open taurus.lib taurus.lib.Prog taurus.python taurus.engine.executor

variable {ver : DagVersion} {x : Execution} {w₀ : World}

/-- The steps from `w` to `w'` wrote no other rows than `rows`, and inserted no other
rows than pending loop children of these. -/
structure Touched (ver : DagVersion) (rows : List NodeExec) (w w' : World) : Prop where
  moves : Moves ver w w'
  execution : w'.execution = w.execution
  kept : ∀ r ∈ w.rows, r.pk ∉ rows.map (·.pk) → r ∈ w'.rows
  keeps : KeepsRows w.rows w'.rows
  origin : ∀ r ∈ w'.rows, r ∈ w.rows ∨ (∃ a ∈ rows, r.pk = a.pk ∧ r.node_key = a.node_key) ∨
    (r.status = .PENDING ∧ is_loop_child r = true ∧ ∃ a ∈ rows, ∃ i,
    r.node_key = childKey a.node_key i)

namespace Touched

variable {rows : List NodeExec} {w w₁ w₂ : World}

theorem refl (rows : List NodeExec) (w : World) : Touched ver rows w w where
  moves := .refl w
  execution := rfl
  kept _ hr _ := hr
  keeps := .refl _
  origin _ hr := Or.inl hr

theorem trans (h : Touched ver rows w w₁) (h' : Touched ver rows w₁ w₂) :
    Touched ver rows w w₂ where
  moves := h.moves.trans h'.moves
  execution := h'.execution.trans h.execution
  kept r hr hpk := h'.kept r (h.kept r hr hpk) hpk
  keeps := h.keeps.trans h'.keeps
  origin r hr := by
    obtain hr | hr := h'.origin r hr
    · exact h.origin r hr
    · exact Or.inr hr

theorem mono {rows' : List NodeExec} (h : Touched ver rows w w₁) (hsub : rows ⊆ rows') :
    Touched ver rows' w w₁ where
  moves := h.moves
  execution := h.execution
  kept r hr hpk := h.kept r hr fun hmem => hpk (List.map_subset _ hsub hmem)
  keeps := h.keeps
  origin r hr := by
    obtain hr | ⟨a, ha, hr⟩ | ⟨hp, hc, a, ha, hr⟩ := h.origin r hr
    · exact Or.inl hr
    · exact Or.inr (Or.inl ⟨a, hsub ha, hr⟩)
    · exact Or.inr (Or.inr ⟨hp, hc, a, hsub ha, hr⟩)

/-- An act may be noted. -/
theorem note {act : Act} (hx : w.execution = some x) (h : Noted ver x w.log w.rows act) :
    Touched ver rows w (w.note act) where
  moves := .step (.note act hx h)
  execution := rfl
  kept _ hr _ := hr
  keeps := .refl _
  origin _ hr := Or.inl hr

/-- A write touches its row. -/
theorem save {old row : NodeExec} {now : Time} {fields : List Field} (hold : old ∈ w.rows)
    (hpk : row.pk = old.pk) (h : Write w.log w.rows old (old.write row now fields)) :
    Touched ver [old] w { w with table := w.table.save row now fields } where
  moves := .step (.save old row now fields hold hpk h)
  execution := rfl
  kept r hr hne := (w.table.mem_save hold hpk r).mpr (Or.inl ⟨hr, by simpa using hne⟩)
  keeps _ hr := w.table.exists_mem_save _ _ _ hr
  origin r hr := by
    obtain ⟨hr, _⟩ | rfl := (w.table.mem_save hold hpk r).mp hr
    · exact Or.inl hr
    · exact Or.inr (Or.inl ⟨old, by simp, by simp, by simp⟩)

/-- Loop children were inserted for a row with the identity of a stored one. -/
theorem expand {r parent : NodeExec} {created stored : List NodeExec} {table : Table}
    (hx : w.execution = some x) (hkey : parent.node_key = r.node_key)
    (h : Noted ver x w.log w.rows (.expand parent created))
    (hins : w.table.bulk_create created = some (table, stored)) :
    Touched ver [r] w { w.note (.expand parent created) with table } where
  moves := .step (.insert (.expand parent created) hx h hins)
  execution := rfl
  kept a ha _ := (Table.bulk_create_created hins).mem a |>.mpr (Or.inr ha)
  keeps := .of_subset fun a ha => (Table.bulk_create_created hins).mem a |>.mpr (Or.inr ha)
  origin a ha := by
    have hc := Table.bulk_create_created hins
    obtain ha | ha := (hc.mem a).mp ha
    · obtain ⟨s, hs, heq⟩ := hc.row_of_mem a ha
      have hchild := h.2.2 s hs
      obtain ⟨i, hi⟩ := hchild.node_key
      rw [heq]
      exact Or.inr (Or.inr ⟨hchild.status, hchild.loop_child, r,
        by simp, i, by simpa [hkey] using hi⟩)
    · exact Or.inl ha

end Touched

/-- Writing the first of some distinct rows leaves the others in the table. -/
theorem Touched.others {a : NodeExec} {rest : List NodeExec} {w w' : World}
    (h : Touched ver [a] w w') (hnodup : ((a :: rest).map (·.pk)).Nodup)
    (hin : ∀ r ∈ a :: rest, r ∈ w.rows) : ∀ r ∈ rest, r ∈ w'.rows := by
  intro r hr
  rw [List.map_cons, List.nodup_cons] at hnodup
  refine h.kept r (hin r (List.mem_cons_of_mem _ hr)) fun hpk => ?_
  have hpk : r.pk = a.pk := by simpa using hpk
  exact hnodup.1 (hpk ▸ List.mem_map_of_mem hr)

/-- A loop over loaded rows whose body writes only the row it is at. -/
theorem touched_forEach {β : Type} {body : NodeExec → RunnerM β} {I : World → Prop}
    {rows : List NodeExec} (hnodup : (rows.map (·.pk)).Nodup)
    (hbody : ∀ r ∈ rows, ∀ w, I w → r ∈ w.rows → Touched ver [r] w (body r w).2)
    (hinv : ∀ w w', I w → Touched ver rows w w' → I w')
    {w : World} (hw : I w) (hin : ∀ r ∈ rows, r ∈ w.rows) :
    Touched ver rows w (Prog.forEach body rows w).2 := by
  suffices h : ∀ as : List NodeExec, as ⊆ rows → (as.map (·.pk)).Nodup → ∀ w, I w →
      (∀ r ∈ as, r ∈ w.rows) → Touched ver rows w (Prog.forEach body as w).2 from
    h rows (List.Subset.refl _) hnodup w hw hin
  intro as
  induction as with
  | nil => exact fun _ _ w _ _ => .refl rows w
  | cons a rest ih =>
    intro hsub hnd w hw hin
    have ha : a ∈ rows := hsub List.mem_cons_self
    have htouch := hbody a ha w hw (hin a List.mem_cons_self)
    have hmono : Touched ver rows w (body a w).2 := htouch.mono (by simpa using ha)
    have hrest : ∀ r ∈ rest, r ∈ (body a w).2.rows := htouch.others hnd hin
    rw [List.map_cons, List.nodup_cons] at hnd
    have hloop :=
      ih (fun r hr => hsub (List.mem_cons_of_mem _ hr)) hnd.2 _ (hinv _ _ hw hmono) hrest
    unfold Prog.forEach Prog.andThen
    rcases hres : body a w with ⟨_ | b, w₁⟩
    · simpa only [hres] using hmono
    · simp only [hres] at hmono hloop
      rcases hres' : Prog.forEach body rest w₁ with ⟨_ | bs, w₂⟩
      · simpa only [hres', Prog.andThen] using hmono.trans (by simpa only [hres'] using hloop)
      · simpa only [hres', Prog.andThen,
          Prog.ret] using hmono.trans (by simpa only [hres'] using hloop)

/-- Assignments keep the identity. -/
theorem assign_sameIdentity {wanted : Bool} {f : Field} {change : NodeExec → NodeExec}
    {p : NodeExec × List Field} {row : NodeExec} (hchange : ∀ r, (change r).SameIdentity r)
    (hp : p.1.SameIdentity row) : (assign wanted f change p).1.SameIdentity row := by
  unfold assign
  split_ifs
  · exact (hchange _).trans hp
  · exact hp

theorem assign_status {wanted : Bool} {f : Field} {change : NodeExec → NodeExec}
    {p : NodeExec × List Field} (hchange : ∀ r, (change r).status = r.status) :
    (assign wanted f change p).1.status = p.1.status := by
  unfold assign
  split_ifs
  · exact hchange _
  · rfl

/-- Flushing an answer into a row keeps which row it is. -/
theorem apply_unit_output_sameIdentity (env : Env) (row : NodeExec) (uo : UnitOutput)
    (initial : Bool) :
    (_apply_unit_output env row uo initial).1.SameIdentity row := by
  unfold _apply_unit_output
  iterate 9 refine assign_sameIdentity (fun r => by constructor <;> rfl) ?_
  exact .refl row

/-- The status after flushing an answer is the one of the transition table. -/
theorem apply_unit_output_status (env : Env) (row : NodeExec) (uo : UnitOutput) (initial : Bool) :
    (_apply_unit_output env row uo initial).1.status = nextStatus row.status uo.status := by
  unfold _apply_unit_output
  dsimp only
  iterate 8
    refine (assign_status ?_).trans ?_
    · exact fun _ => rfl
  unfold assign
  split_ifs with h
  · rfl
  · have hsame : nextStatus row.status uo.status = row.status := by simpa using h
    exact hsame.symm

/-- A running row moves by the table only. -/
theorem nextStatus_running (s : Status) : nextStatus .RUNNING s ∈ VALID_TRANSITIONS .RUNNING := by
  cases s <;> decide

/-- A saved status is the new one or the old one. -/
theorem write_status_cases (r row : NodeExec) (now : Time) (fields : List Field) :
    (r.write row now fields).status = row.status ∨ (r.write row now fields).status = r.status := by
  unfold NodeExec.write
  by_cases h : Field.status ∈ fields <;> simp [h]

/-- A body that is at the stored row `row` of the current execution and has not
written it yet. -/
structure Before (ver : DagVersion) (x : Execution) (row : NodeExec) (w₀ w : World) : Prop where
  touched : Touched ver [row] w₀ w
  execution : w.execution = some x
  stored : row ∈ w.rows

/-- Before anything is asked. -/
theorem Before.start {row : NodeExec} {w : World} (hx : w.execution = some x)
    (hrow : row ∈ w.rows) :
    Before ver x row w w := ⟨.refl _ _, hx, hrow⟩

/-- A body that has written its row, in the current execution. -/
structure After (ver : DagVersion) (x : Execution) (row : NodeExec) (w₀ w : World) : Prop where
  touched : Touched ver [row] w₀ w
  execution : w.execution = some x
  stored : ∃ r ∈ w.rows, r.SameIdentity row

/-- A save of the row a loop body is at. -/
theorem Before.save {row new : NodeExec} {now : Time} {fields : List Field} {w : World}
    (h : Before ver x row w₀ w) (hpk : new.pk = row.pk)
    (hwrite : Write w.log w.rows row (row.write new now fields)) :
    After ver x row w₀ { w with table := w.table.save new now fields } where
  touched := h.touched.trans (.save h.stored hpk hwrite)
  execution := h.execution
  stored := ⟨row.write new now fields, (w.table.mem_save h.stored hpk _).mpr (Or.inr rfl),
    NodeExec.write_sameIdentity _ _ _ _⟩

/-- The rule for a save of the row a loop body is at. -/
theorem triple_save {env : Env} {row new : NodeExec} {fields : List Field} {P : World → Prop}
    {E : World → Prop} (hpk : new.pk = row.pk) (hbefore : ∀ w, P w → Before ver x row w₀ w)
    (hwrite : ∀ w, P w → Write w.log w.rows row (row.write new env.now fields)) :
    Triple P (save env new fields) (fun _ => After ver x row w₀) E :=
  triple_modifyState fun w hw => (hbefore w hw).save hpk (hwrite w hw)

/-- The rule for noting an act: only the history changes. -/
theorem triple_record {act : Act} {row : NodeExec} {E : World → Prop}
    (hnoted : ∀ w, Before ver x row w₀ w → Noted ver x w.log w.rows act) :
    Triple (Before ver x row w₀) (record act) (fun _ => Before ver x row w₀) E :=
  triple_modifyState fun w hw =>
    ⟨hw.touched.trans (.note hw.execution (hnoted w hw)), hw.execution, hw.stored⟩

/-- Failing a row is one allowed write. -/
theorem triple_fail_row {env : Env} {row base : NodeExec} {message : String} {P : World → Prop}
    (hpk : base.pk = row.pk) (hbefore : ∀ w, P w → Before ver x row w₀ w)
    (hwrite : ∀ w new, P w → new.status = .FAILED → Write w.log w.rows row new) :
    Triple P (fail_row env base message) (fun _ => Touched ver [row] w₀) (Touched ver [row] w₀) :=
  triple_bind (triple_save hpk hbefore fun w hw => hwrite w _ hw rfl) fun _ =>
    triple_pure fun _ h => h.touched

/-- Asking the adapter to cancel writes nothing. -/
theorem triple_cancel_adapter {env : Env} {row r : NodeExec} {E : World → Prop} :
    Triple (Before ver x row w₀) (cancel_adapter env x r) (fun _ => Before ver x row w₀) E := by
  unfold cancel_adapter
  split
  · exact triple_pure fun _ h => h
  · split
    · exact triple_pure fun _ h => h
    · exact triple_bind (triple_record fun _ _ => trivial) fun _ => triple_pure fun _ h => h

/-- Polling a running row writes only this row, by a move out of RUNNING. -/
theorem triple_poll_answer {env : Env} {row : NodeExec} {uo : UnitOutput}
    (hrunning : row.status = .RUNNING) :
    Triple (Before ver x row w₀) (poll_answer env row uo) (fun _ => Touched ver [row] w₀)
      (Touched ver [row] w₀) := by
  have hid := apply_unit_output_sameIdentity env row uo false
  have hstatus := apply_unit_output_status env row uo false
  have hmove : (_apply_unit_output env row uo false).1.status ∈ VALID_TRANSITIONS .RUNNING := by
    rw [hstatus, hrunning]
    exact nextStatus_running _
  have hwrite : ∀ (w : World) (new : NodeExec) (fields : List Field),
      new.status ∈ VALID_TRANSITIONS .RUNNING →
      Write w.log w.rows row (row.write new env.now fields) := by
    intro w new fields hnew
    refine .poll hrunning ?_
    rcases write_status_cases row new env.now fields with h | h <;> rw [h]
    · exact hnew
    · rw [hrunning]
      decide
  unfold poll_answer
  simp only
  split
  · exact triple_bind (triple_save hid.pk (fun _ h => h) fun w _ => hwrite w _ _ hmove)
      fun _ => triple_pure fun _ h => h.touched
  · exact triple_bind (triple_save hid.pk (fun _ h => h) fun w _ => hwrite w _ _ hmove)
      fun _ => triple_pure fun _ h => h.touched

/-- A poll touches its row alone. -/
theorem poll_one_row_touched (env : Env) (row : NodeExec) (w : World) (hx : w.execution = some x)
    (hrow : row ∈ w.rows) : Touched ver [row] w (_poll_one_row env x row w).2 := by
  suffices h : Triple (Before ver x row w) (_poll_one_row env x row)
      (fun _ => Touched ver [row] w) (Touched ver [row] w) from h.state (.start hx hrow)
  unfold _poll_one_row
  split
  · exact triple_pure fun _ h => h.touched
  rename_i hstatus
  have hrunning : row.status = .RUNNING := by simpa using hstatus
  have hfailed : ∀ (w : World) (new : NodeExec), new.status = .FAILED →
      Write w.log w.rows row new :=
    fun w new h => .poll hrunning (by rw [h]; decide)
  have hfail : ∀ message, Triple (Before ver x row w) (fail_row env row message)
      (fun _ => Touched ver [row] w) (Touched ver [row] w) :=
    fun message => triple_fail_row rfl (fun _ h => h) fun w new _ hnew => hfailed w new hnew
  refine triple_bind (R := fun _ => Before ver x row w)
    (triple_fromExcept (fun _ _ _ h => h) fun _ h => h.touched) fun backoff_sec => ?_
  split_ifs
  · exact triple_pure fun _ h => h.touched
  · exact hfail _
  · exact hfail _
  · refine triple_bind triple_cancel_adapter fun _ => ?_
    exact triple_bind (R := fun _ => After ver x row w)
      (triple_save rfl (fun _ h => h) fun w _ => hfailed w _ rfl) fun _ =>
      triple_pure fun _ h => h.touched
  · unfold poll_adapter
    split
    · exact hfail _
    · refine triple_bind (R := fun _ => Before ver x row w)
        (triple_fromExcept (fun _ _ _ h => h) fun _ h => h.touched) fun _ => ?_
      refine triple_bind (triple_record fun _ _ => trivial) fun _ => ?_
      split
      · exact hfail _
      · exact triple_poll_answer hrunning

end taurus.engine.runner
