import Mathlib.Data.List.Forall2
import Taurus.Engine.Tables
import Taurus.Engine.Runner.Dispatch
import Taurus.Engine.Steps.Polling

namespace taurus.engine.runner

open taurus.lib taurus.lib.Prog taurus.python taurus.engine.executor

variable {env : Env} {x : Execution} {row : NodeExec} {w : World}

/-- A row the runner fails on its own account. -/
def failed_row (env : Env) (row : NodeExec) (message : String) : NodeExec :=
  { row with status := .FAILED, finished_at := some env.now, error_message := some message }

/-- An adapter's answer in the row, with the next backoff if it is still running. -/
def answered (env : Env) (row : NodeExec) (uo : UnitOutput) : NodeExec × List Field :=
  let backoff := min (POLL_BACKOFF_INITIAL_SEC * 2 ^ row.poll_count) POLL_BACKOFF_MAX_SEC
  let (new, fields) := _apply_unit_output env row uo false
  if new.status = .RUNNING then
    let state := Dict.set new.adapter_state "__backoff_sec__" (.int backoff)
    let state := Dict.set state "__poll_count__" (.int (row.poll_count + 1))
    let state := Dict.set state "__last_poll_ts__" (.str (env.isoformat env.now))
    ({ new with adapter_state := state }, if .adapter_state ∈ fields then fields
      else fields ++ [.adapter_state])
  else (new, fields)

/-- What the adapter makes of a row: the row in memory and its `update_fields`. -/
def adapter_polled (env : Env) (x : Execution) (row : NodeExec) :
    Except Exn (NodeExec × List Field) :=
  match env.get_class row.node_type with
  | .error e => .ok (failed_row env row ("E3110: adapter load failed " ++ e.text), failFields)
  | .ok adapter =>
    match adapter.construct with
    | .error e => .error e
    | .ok _ =>
      match adapter.poll (_build_rendered_cfg env x row row.rendered_params) row.adapter_state with
      | .error e =>
        .ok (failed_row env row ("E3111: poll threw exception " ++ e.name ++ ": " ++ e.text),
          failFields)
      | .ok uo => .ok (answered env row uo)

/-- The backoff interval a row carries. -/
def backoff_sec (row : NodeExec) : Except Exn PyFloat :=
  let raw := getJson row.adapter_state "__backoff_sec__"
  toFloat (if raw.truthy then raw else .int 0)

/-- What a poll makes of a loaded row: the row in memory and the fields it saves. -/
def polled (env : Env) (x : Execution) (row : NodeExec) : Except Exn (NodeExec × List Field) :=
  if row.status ≠ .RUNNING then .ok (row, [])
  else
    match backoff_sec row with
    | .error e => .error e
    | .ok backoff =>
      if backoffPending env row backoff then .ok (row, [])
      else if runsLongerThan env row MAX_RUNTIME_SEC then
        .ok (failed_row env row (E4401_runtime env row), failFields)
      else if MAX_POLL_ATTEMPTS ≤ row.poll_count then
        .ok (failed_row env row (E4401_polls row), failFields)
      else if 0 < row.timeout_sec ∧ runsLongerThan env row row.timeout_sec then
        .ok (failed_row env row (E4402 env row), failFields)
      else adapter_polled env x row

end taurus.engine.runner

namespace taurus.engine

theorem NodeExec.write_nil (r row : NodeExec) (now : Time) : r.write row now [] = r := by
  simp [NodeExec.write]

theorem Table.save_nil (t : Table) (row : NodeExec) (now : Time) : t.save row now [] = t := by
  have hrows : (t.save row now []).rows = t.rows := by
    rw [Table.save_rows]
    simp [NodeExec.write_nil]
  cases t
  simp only [Table.save] at hrows ⊢
  simp only [hrows]

end taurus.engine

namespace taurus.engine.runner

open taurus.lib taurus.lib.Prog taurus.python taurus.engine.executor

variable {env : Env} {x : Execution} {row : NodeExec} {w : World}

/-- The world after a poll, but for the history. -/
inductive PollsTo (env : Env) (w : World) :
    Except Exn (NodeExec × List Field) → Except Exn NodeExec × World → Prop
  | raised (e : Exn) (log : List Entry) : PollsTo env w (.error e) (.error e, { w with log })
  | saved (new : NodeExec) (fields : List Field) (log : List Entry) :
      PollsTo env w (.ok (new, fields))
      (.ok new, { w with log, table := w.table.save new env.now fields })

theorem PollsTo.same (log : List Entry) :
    PollsTo env w (.ok (row, [])) (.ok row, { w with log }) := by
  have h := @PollsTo.saved env w row [] log
  rwa [Table.save_nil] at h

/-- An answer is saved as it is computed. -/
theorem poll_answer_to (uo : UnitOutput) (log : List Entry) :
    PollsTo env w (.ok (answered env row uo)) (poll_answer env row uo { w with log }) := by
  unfold answered poll_answer
  by_cases h : (_apply_unit_output env row uo false).1.status = .RUNNING
  · simp only [h, if_true]
    exact .saved _ _ log
  · simp only [h, if_false]
    exact .saved _ _ log

theorem poll_adapter_to : PollsTo env w (adapter_polled env x row) (poll_adapter env x row w) := by
  unfold adapter_polled poll_adapter
  cases env.get_class row.node_type with
  | error e => exact .saved _ _ w.log
  | ok adapter =>
    simp only
    cases adapter.construct with
    | error e => exact .raised e w.log
    | ok _ =>
      simp only
      cases adapter.poll (_build_rendered_cfg env x row row.rendered_params) row.adapter_state with
      | error e => exact .saved _ _ (w.note (.poll row)).log
      | ok uo => exact poll_answer_to uo (w.note (.poll row)).log

/-- Asking an adapter to cancel leaves the database as it is. -/
theorem cancel_adapter_to (env : Env) (x : Execution) (w : World) (r : NodeExec) :
    ∃ answer log, cancel_adapter env x r w = (.ok answer, { w with log }) := by
  unfold cancel_adapter
  cases env.get_class r.node_type with
  | error e => exact ⟨_, w.log, rfl⟩
  | ok adapter =>
    simp only
    cases adapter.construct with
    | error e => exact ⟨_, w.log, rfl⟩
    | ok _ => exact ⟨_, (w.note (.cancel r)).log, rfl⟩

/-- `_poll_one_row` does what `polled` says. -/
theorem poll_one_row_to (env : Env) (x : Execution) (row : NodeExec) (w : World) :
    PollsTo env w (polled env x row) (_poll_one_row env x row w) := by
  unfold polled _poll_one_row
  by_cases hrunning : row.status ≠ .RUNNING
  · simp only [if_pos hrunning]
    exact .same w.log
  simp only [if_neg hrunning, ← backoff_sec.eq_1]
  cases backoff_sec row with
  | error e => exact .raised e w.log
  | ok backoff =>
    show PollsTo env w _ ((if _ then _ else _ : RunnerM NodeExec) w)
    simp only
    split_ifs
    · exact .same w.log
    · exact .saved _ _ w.log
    · exact .saved _ _ w.log
    · obtain ⟨answer, log, hcancel⟩ :=
        cancel_adapter_to env x w (failed_row env row (E4402 env row))
      show PollsTo env w _ (Prog.andThen
        (cancel_adapter env x (failed_row env row (E4402 env row))) _ w)
      unfold Prog.andThen
      rw [hcancel]
      exact .saved _ _ log
    · exact poll_adapter_to

/-- A poll saves one row. -/
theorem poll_one_row_ok {new : NodeExec} {fields : List Field}
    (h : polled env x row = .ok (new, fields)) :
    ∃ log, _poll_one_row env x row w =
      (.ok new, { w with log, table := w.table.save new env.now fields }) := by
  have hto := poll_one_row_to env x row w
  rw [h] at hto
  generalize _poll_one_row env x row w = res at hto ⊢
  cases hto with
  | saved _ _ log => exact ⟨log, rfl⟩

/-- Or raises. -/
theorem poll_one_row_error {e : Exn} (h : polled env x row = .error e) :
    ∃ w', _poll_one_row env x row w = (.error e, w') := by
  have hto := poll_one_row_to env x row w
  rw [h] at hto
  generalize _poll_one_row env x row w = res at hto ⊢
  cases hto with
  | raised _ log => exact ⟨_, rfl⟩

/-- The row in memory after a poll. -/
def polled_row (env : Env) (x : Execution) (row : NodeExec) : NodeExec :=
  match polled env x row with
  | .ok (new, _) => new
  | .error _ => row

/-- The stored row after a poll. -/
def repolled (env : Env) (x : Execution) (row : NodeExec) : NodeExec :=
  match polled env x row with
  | .ok (new, fields) => row.write new env.now fields
  | .error _ => row

theorem repolled_sameIdentity (env : Env) (x : Execution) (row : NodeExec) :
    (repolled env x row).SameIdentity row := by
  unfold repolled
  cases polled env x row with
  | error e => exact .refl row
  | ok p => exact row.write_sameIdentity _ _ _

/-- Only running rows are polled. -/
theorem repolled_of_not_running (h : row.status ≠ .RUNNING) : repolled env x row = row := by
  simp [repolled, polled, h, NodeExec.write_nil]

/-- The ways a poll that raises nothing can end. -/
inductive PollEnd (env : Env) (row : NodeExec) : NodeExec × List Field → Prop
  | same : PollEnd env row (row, [])
  | failed (hrunning : row.status = .RUNNING) (message : String) :
      PollEnd env row (failed_row env row message, failFields)
  | answered (hrunning : row.status = .RUNNING) (uo : UnitOutput) :
    PollEnd env row (answered env row uo)

/-- How a poll can end. -/
theorem polled_end {p : NodeExec × List Field} (h : polled env x row = .ok p) :
    PollEnd env row p := by
  unfold polled at h
  by_cases hrunning : row.status = .RUNNING
  · rw [if_neg (not_not.mpr hrunning)] at h
    cases hbackoff : backoff_sec row with
    | error e => simp [hbackoff] at h
    | ok backoff =>
      simp only [hbackoff] at h
      split_ifs at h
      · exact Except.ok.inj h ▸ .same
      · exact Except.ok.inj h ▸ .failed hrunning _
      · exact Except.ok.inj h ▸ .failed hrunning _
      · exact Except.ok.inj h ▸ .failed hrunning _
      · unfold adapter_polled at h
        split at h
        · exact Except.ok.inj h ▸ .failed hrunning _
        · split at h
          · cases h
          · split at h
            · exact Except.ok.inj h ▸ .failed hrunning _
            · exact Except.ok.inj h ▸ .answered hrunning _
  · rw [if_pos hrunning] at h
    exact Except.ok.inj h ▸ .same

theorem answered_sameIdentity (env : Env) (row : NodeExec) (uo : UnitOutput) :
    (answered env row uo).1.SameIdentity row := by
  have hid := apply_unit_output_sameIdentity env row uo false
  unfold answered
  by_cases hstatus : (_apply_unit_output env row uo false).1.status = .RUNNING
  · simp only [if_pos hstatus]
    exact NodeExec.SameIdentity.trans (by constructor <;> rfl) hid
  · simp only [if_neg hstatus]
    exact hid

/-- A poll keeps which row it is. -/
theorem polled_sameIdentity {p : NodeExec × List Field} (h : polled env x row = .ok p) :
    p.1.SameIdentity row := by
  cases polled_end h with
  | same => exact .refl row
  | failed => constructor <;> rfl
  | answered _ uo => exact answered_sameIdentity env row uo

/-- A poll within the backoff leaves the row as it is. -/
theorem polled_of_pending {q : PyFloat} (hq : backoff_sec row = .ok q)
    (hpending : backoffPending env row q = true) :
    polled env x row = .ok (row, []) := by
  unfold polled
  simp only [hq, hpending, if_true, ite_self]

/-- A poll of a running row past the backoff. -/
theorem polled_of_effective {q : PyFloat} (hrunning : row.status = .RUNNING)
    (hq : backoff_sec row = .ok q) (hpending : backoffPending env row q = false) :
    polled env x row =
      if runsLongerThan env row MAX_RUNTIME_SEC then .ok
        (failed_row env row (E4401_runtime env row), failFields)
      else if MAX_POLL_ATTEMPTS ≤ row.poll_count then .ok
        (failed_row env row (E4401_polls row), failFields)
      else if 0 < row.timeout_sec ∧ runsLongerThan env row row.timeout_sec then
        .ok (failed_row env row (E4402 env row), failFields)
      else adapter_polled env x row := by
  unfold polled
  rw [if_neg (not_not.mpr hrunning)]
  simp only [hq, hpending, Bool.false_eq_true, if_false]

/-- A failed poll fails the row. -/
theorem repolled_of_failed {message : String}
    (h : polled env x row = .ok (failed_row env row message, failFields)) :
    (repolled env x row).status = .FAILED := by
  simp only [repolled, h]
  rfl

/-- An answered one writes the answer. -/
theorem repolled_of_answered {uo : UnitOutput} (h : polled env x row = .ok (answered env row uo)) :
    repolled env x row = row.write (answered env row uo).1 env.now (answered env row uo).2 := by
  simp only [repolled, h]

/-- The stored status after an adapter's answer to a running row. -/
theorem write_answered_status (hrunning : row.status = .RUNNING) (uo : UnitOutput) :
    (row.write (answered env row uo).1 env.now (answered env row uo).2).status =
      nextStatus .RUNNING uo.status := by
  have hstatus := apply_unit_output_status env row uo false
  rw [hrunning] at hstatus
  by_cases hgoes : (_apply_unit_output env row uo false).1.status = .RUNNING
  · have hnew : (answered env row uo).1.status = .RUNNING := by
      unfold answered
      simp only [hgoes, if_true]
    rw [← hstatus, hgoes]
    obtain h | h := write_status_cases row (answered env row uo).1 env.now (answered env row uo).2
    · rw [h, hnew]
    · rw [h, hrunning]
  · have hsame : answered env row uo = _apply_unit_output env row uo false := by
      unfold answered
      simp only [hgoes, if_false]
    have happlied := @applied_status env row uo false
    rw [hrunning] at happlied
    rw [hsame]
    exact happlied

theorem apply_unit_output_adapter_state (env : Env) (row : NodeExec) (uo : UnitOutput)
    (initial : Bool) :
    (_apply_unit_output env row uo initial).1.adapter_state =
      uo.adapter_state.getD row.adapter_state := by
  simp only [_apply_unit_output, assign_fst, apply_ite NodeExec.adapter_state]
  cases uo.adapter_state <;> simp

/-- The backoff after the `n`-th poll. -/
def next_backoff (n : Nat) : Nat := min (POLL_BACKOFF_INITIAL_SEC * 2 ^ n) POLL_BACKOFF_MAX_SEC

/-- The stored adapter state of a row that is still running: its own, with the next backoff. -/
theorem write_answered_adapter_state {uo : UnitOutput}
    (hgoes : (_apply_unit_output env row uo false).1.status = .RUNNING) :
    (row.write (answered env row uo).1 env.now (answered env row uo).2).adapter_state =
      Dict.set (Dict.set (Dict.set (uo.adapter_state.getD row.adapter_state)
        "__backoff_sec__" (.int (next_backoff row.poll_count)))
        "__poll_count__" (.int (row.poll_count + 1)))
        "__last_poll_ts__" (.str (env.isoformat env.now)) := by
  have hfield : Field.adapter_state ∈ (answered env row uo).2 := by
    unfold answered
    simp only [hgoes, if_true]
    split_ifs with hin
    · exact hin
    · simp
  have hnew : (answered env row uo).1.adapter_state =
      Dict.set (Dict.set (Dict.set (_apply_unit_output env row uo false).1.adapter_state
        "__backoff_sec__" (.int (next_backoff row.poll_count)))
        "__poll_count__" (.int (row.poll_count + 1)))
        "__last_poll_ts__" (.str (env.isoformat env.now)) := by
    unfold answered
    simp only [hgoes, if_true]
    rfl
  rw [apply_unit_output_adapter_state] at hnew
  simp only [NodeExec.write, hfield, if_true, hnew]

/-- The rows after a loop of polls. -/
def repolled_among (env : Env) (x : Execution) (rs : List NodeExec) (row : NodeExec) : NodeExec :=
  if row.pk ∈ rs.map (·.pk) then repolled env x row else row

/-- A loop of polls that raise nothing rewrites each polled row once. -/
theorem forEach_poll {rs : List NodeExec} (hnodup : (rs.map (·.pk)).Nodup)
    (hin : ∀ r ∈ rs, r ∈ w.rows) (hok : ∀ r ∈ rs, ∃ p, polled env x r = .ok p) :
    ∃ w', Prog.forEach (_poll_one_row env x) rs w = (.ok (rs.map (polled_row env x)), w') ∧
      w'.execution = w.execution ∧ w'.rows = w.rows.map (repolled_among env x rs) := by
  induction rs generalizing w with
  | nil =>
    refine ⟨w, rfl, rfl, ?_⟩
    have hsame : repolled_among env x [] = id := rfl
    rw [hsame, List.map_id]
  | cons a rest ih =>
    obtain ⟨⟨new, fields⟩, hpolled⟩ := hok a List.mem_cons_self
    rw [List.map_cons, List.nodup_cons] at hnodup
    obtain ⟨log, hres⟩ := poll_one_row_ok (w := w) hpolled
    set w₁ : World := { w with log, table := w.table.save new env.now fields } with hw₁
    have hnewpk : new.pk = a.pk := (polled_sameIdentity hpolled).pk
    have hrows : w₁.rows = w.rows.map fun y => if y.pk = a.pk then repolled env x y else y := by
      rw [World.rows, hw₁, Table.save_rows, hnewpk]
      refine List.map_congr_left fun y hy => ?_
      by_cases hpk : y.pk = a.pk
      · obtain rfl := w.table.eq_of_pk hy (hin a List.mem_cons_self) hpk
        simp [repolled, hpolled]
      · simp [hpk]
    obtain ⟨w', hrun, hexec, hrows'⟩ := ih (w := w₁) hnodup.2 (fun r hr => by
      have hne : r.pk ≠ a.pk := fun h => hnodup.1 (h ▸ List.mem_map_of_mem hr)
      rw [hrows]
      exact List.mem_map.mpr ⟨r, hin r (List.mem_cons_of_mem _ hr), by simp [hne]⟩)
      fun r hr => hok r (List.mem_cons_of_mem _ hr)
    refine ⟨w', ?_, hexec, ?_⟩
    · unfold Prog.forEach Prog.andThen
      rw [hres]
      show Prog.andThen (Prog.forEach (_poll_one_row env x) rest) _ w₁ = _
      unfold Prog.andThen
      rw [hrun, List.map_cons, polled_row, hpolled]
      rfl
    · rw [hrows', hrows, List.map_map]
      refine List.map_congr_left fun y hy => ?_
      simp only [Function.comp_apply, repolled_among, List.map_cons, List.mem_cons]
      by_cases hpk : y.pk = a.pk
      · have hpk' : (repolled env x y).pk = a.pk := (repolled_sameIdentity env x y).pk.trans hpk
        simp [hpk, hpk', hnodup.1]
      · simp [hpk]

/-- A poll phase in which no poll raises. -/
theorem poll_phase_ok (hok : ∀ r ∈ w.rows, ∃ p, polled env x r = .ok p) :
    ∃ n w', poll_phase env x w =
      (.ok (n, (w.rows.filter (·.status = .RUNNING)).map (polled_row env x)), w') ∧
      w'.execution = w.execution ∧ w'.rows = w.rows.map (repolled env x) := by
  have hmem : ∀ r ∈ w.rows.filter (fun r => decide (r.status = .RUNNING)), r ∈ w.rows :=
    fun r hr => (List.mem_filter.mp hr).1
  have hnodup : ((w.rows.filter fun r => decide (r.status = .RUNNING)).map (·.pk)).Nodup :=
    w.table.pk_nodup.sublist (List.filter_sublist.map _)
  obtain ⟨w', hrun, hexec, hrows⟩ := forEach_poll hnodup hmem fun r hr => hok r (hmem r hr)
  refine ⟨(w.rows.filter (·.status = .RUNNING)).length, w', ?_, hexec,
    hrows.trans (List.map_congr_left fun y hy => ?_)⟩
  · show Prog.andThen (Prog.forEach (_poll_one_row env x) _) _ w = _
    unfold Prog.andThen
    rw [hrun]
    rfl
  · unfold repolled_among
    split_ifs with hpk
    · rfl
    · by_cases hrunning : y.status = .RUNNING
      · exact absurd (List.mem_map_of_mem (List.mem_filter.mpr ⟨hy, by simpa using hrunning⟩)) hpk
      · exact (repolled_of_not_running hrunning).symm

/-- A poll that raises ends the poll phase. -/
theorem poll_phase_error {r : NodeExec} (hr : r ∈ w.rows) {e : Exn}
    (he : polled env x r = .error e) :
    ∃ e' w', poll_phase env x w = (.error e', w') := by
  have hrunning : r.status = .RUNNING := by
    by_contra hne
    simp [polled, hne] at he
  have hloop : ∀ rs : List NodeExec, r ∈ rs →
      ∀ w, ∃ e' w', Prog.forEach (_poll_one_row env x) rs w = (.error e', w') := by
    intro rs
    induction rs with
    | nil => exact fun hr => by cases hr
    | cons a rest ih =>
      intro hr w
      unfold Prog.forEach Prog.andThen
      cases hpolled : polled env x a with
      | error e =>
        obtain ⟨w', hres⟩ := poll_one_row_error (w := w) hpolled
        rw [hres]
        exact ⟨_, _, rfl⟩
      | ok p =>
        obtain ⟨log, hres⟩ := poll_one_row_ok (w := w) hpolled
        have hrest : r ∈ rest := by
          obtain rfl | hr := List.mem_cons.mp hr
          · simp [hpolled] at he
          · exact hr
        rw [hres]
        obtain ⟨e', w', hrest'⟩ := ih hrest { w with log, table := w.table.save p.1 env.now p.2 }
        show ∃ e' w', Prog.andThen (Prog.forEach (_poll_one_row env x) rest) _ _ = _
        unfold Prog.andThen
        rw [hrest']
        exact ⟨_, _, rfl⟩
  obtain ⟨e', w', hres⟩ := hloop (w.rows.filter (·.status = .RUNNING))
    (List.mem_filter.mpr ⟨hr, by simpa using hrunning⟩) w
  refine ⟨e', w', ?_⟩
  show Prog.andThen (Prog.forEach (_poll_one_row env x) _) _ w = _
  unfold Prog.andThen
  rw [hres]

end taurus.engine.runner
