import Taurus.Engine.Properties.LastAttempt
import Taurus.Engine.Steps.Polled
import Taurus.Ops.WriteBack

namespace taurus.ops

open taurus.lib taurus.python taurus.engine taurus.engine.runner taurus.lib.Prog taurus.engine.executor

/-- All columns, as `row.save()` of the push path writes them. -/
def all_columns : List Field :=
  [.status, .adapter_state, .output, .output_refs, .exit_code, .error_message,
    .started_at, .finished_at, .duration_ms, .poll_count, .rendered_params, .user_id,
    .update_datetime]

/-- The `update_fields` of `_sync_stale_workflow_nodes`. -/
def sync_columns : List Field :=
  [.status, .finished_at, .exit_code, .error_message, .update_datetime]

/-- Who writes the result of an execution into its node row. -/
inductive Writer where
  | poll
  | push (now : Time)
  | sync (now : Time)

namespace Writer

variable {repr : Json → String} {ops : OpsExecution} {row : NodeExec} {w : World}

/-- The writer writes the row: the tick's poll gets the execution's result from the
adapter, the other two find the row by its execution. -/
def Writes (env : Env) (x : Execution) (repr : Json → String) (ops : OpsExecution)
    (row : NodeExec) :
    Writer → Prop
  | poll => polled env x row = .ok (answered env row (_unit_output_from_ops repr ops))
  | push _ => refers_to ops row = true
  | sync now => sync_id repr row = some ops.execution_id ∧ sync_due now ops = true

/-- The database that the following tick finds. -/
def found (repr : Json → String) (ops : OpsExecution) (row : NodeExec) (w : World) : Writer → World
  | poll => w
  | push now => { w with table := w.table.save (push_row now repr ops row) now all_columns }
  | sync now => { w with table := w.table.save (sync_row now repr ops row) now sync_columns }

/-- The row as the push path or the scheduler leaves it. -/
def left (env : Env) (repr : Json → String) (ops : OpsExecution) (row : NodeExec) :
    Writer → NodeExec
  | poll => poll_row env repr ops row
  | push now => push_row now repr ops row
  | sync now => sync_row now repr ops row

end Writer

/-- What the push writes to a row. -/
theorem push_row_write (now : Time) (repr : Json → String) (ops : OpsExecution) (row : NodeExec) :
    (row.write (push_row now repr ops row) now all_columns) =
      { push_row now repr ops row with update_datetime := some now } := by
  unfold push_row
  split_ifs <;> simp [NodeExec.write, all_columns]

/-- What the sync writes. -/
theorem sync_row_write {now : Time} {repr : Json → String} {ops : OpsExecution} {row : NodeExec} :
    (row.write (sync_row now repr ops row) now sync_columns) =
      { sync_row now repr ops row with update_datetime := some now } := by
  unfold sync_row
  split
  · simp [NodeExec.write, sync_columns]
  · split_ifs <;> simp [NodeExec.write, sync_columns]

/-- The runs of an execution with calls of the runner and results written from outside. -/
inductive Served (ver : DagVersion) : World → Prop
  | initial : Served ver .initial
  | call {w : World} (c : Call) (hw : Served ver w) (hc : c.Enabled w) : Served ver (c.run ver w)
  | written {w : World} {env : Env} {x : Execution} {repr : Json → String} {ops : OpsExecution}
      {row : NodeExec}
      (writer : Writer) (hw : Served ver w) (hrow : row ∈ w.rows) (hrunning : row.status = .RUNNING)
      (hterm : ops.status.terminal = true) (hwrites : writer.Writes env x repr ops row) :
      Served ver (writer.found repr ops row w)

variable {ver : DagVersion} {env : Env} {x : Execution} {repr : Json → String} {ops : OpsExecution}
  {row : NodeExec} {w : World}

/-- The node keys that a tick's polls complete. -/
def completed_keys (env : Env) (x : Execution) (rows : List NodeExec) : List String :=
  (((rows.filter (·.status = .RUNNING)).map (polled_row env x)).filter (·.status.terminal)).map (·.node_key)

/-- The tick polls without an exception, and its retry pass creates the next attempt of the row. -/
def creates_next_attempt (env : Env) (ver : DagVersion) (user_id : Option Int) (w : World)
    (row : NodeExec) : Bool :=
  match w.execution with
  | none => false
  | some x =>
    match poll_phase env x w with
    | (.error _, _) => false
    | (.ok (_, rows), w) =>
      let completed := (rows.filter (·.status.terminal)).map (·.node_key)
      match _retry_failed_rows env x ver.dag completed user_id w with
      | (.error _, _) => false
      | (.ok _, w) => w.rows.any fun r => r.attempt_key = next_attempt row

/-- The next attempt is created if the failed row is seen and may be retried. -/
theorem creates_next_attempt_iff {user_id : Option Int} (hx : w.execution = some x) :
    creates_next_attempt env ver user_id w row = true ↔
      ∃ n out w₂ k w₃, poll_phase env x w = (.ok (n, out), w₂) ∧
        _retry_failed_rows env x ver.dag
          ((out.filter (·.status.terminal)).map (·.node_key)) user_id w₂ =
          (.ok k, w₃) ∧
        ∃ r ∈ w₃.rows, r.attempt_key = next_attempt row := by
  simp only [creates_next_attempt, hx]
  obtain ⟨_ | ⟨n, out⟩, w₂⟩ := poll_phase env x w
  · simp
  rcases hretry : _retry_failed_rows env x ver.dag
    ((out.filter (·.status.terminal)).map (·.node_key)) user_id w₂ with
    ⟨_ | k, w₃⟩
  · simp only [hretry, Bool.false_eq_true, false_iff]
    rintro ⟨_, _, _, k, w₃, hpoll, hok, _⟩
    obtain ⟨hout, rfl⟩ := Prod.mk.inj hpoll
    obtain ⟨_, rfl⟩ := Prod.mk.inj (Except.ok.inj hout)
    cases hretry.symm.trans hok
  · simp only [hretry, List.any_eq_true, decide_eq_true_eq]
    constructor
    · exact fun h => ⟨n, out, w₂, k, w₃, rfl, hretry, h⟩
    · rintro ⟨_, _, _, k, w₃, hpoll, hok, h⟩
      obtain ⟨hout, rfl⟩ := Prod.mk.inj hpoll
      obtain ⟨_, rfl⟩ := Prod.mk.inj (Except.ok.inj hout)
      obtain ⟨_, rfl⟩ := Prod.mk.inj (hretry.symm.trans hok)
      exact h

/-- An execution ends in a retryable way: it is reported as failed with a retryable code. -/
def retryable_end (repr : Json → String) (ops : OpsExecution) : Bool :=
  (_unit_output_from_ops repr ops).status = .FAILED ∧
  is_retryable (_unit_output_from_ops repr ops).error_message

/-- The tick notices the failure: no poll raises, the new rows fit, and a row that was written
from outside has a retryable code and the company of one that the tick completes. -/
structure Noticed (env : Env) (x : Execution) (dag : Dag) (user_id : Option Int)
    (repr : Json → String) (ops : OpsExecution) (row : NodeExec) (w : World)
    (writer : Writer) : Prop where
  polls : ∀ r ∈ (writer.found repr ops row w).rows, ∃ p, polled env x r = .ok p
  fits : Table.Insertable (writer.found repr ops row w).rows
    (retry_rows env x dag (completed_keys env x (writer.found repr ops row w).rows) user_id
      ((writer.found repr ops row w).rows.map (repolled env x)))
  left : writer = .poll ∨
    ((writer.left env repr ops row).status = .FAILED ∧
        is_retryable (writer.left env repr ops row).error_message = true) ∧
      ∃ r ∈ (writer.found repr ops row w).rows, r.node_key = row.node_key ∧ r.status = .RUNNING ∧
        (polled_row env x r).status.terminal = true

theorem attempt_keys_repolled (env : Env) (x : Execution) (rows : List NodeExec) :
    (rows.map (repolled env x)).map (·.attempt_key) = rows.map (·.attempt_key) := by
  rw [List.map_map]
  refine List.map_congr_left fun r _ => ?_
  obtain ⟨hkey, hhost, hno⟩ : _ ∧ _ ∧ _ :=
    ⟨(repolled_sameIdentity env x r).node_key, (repolled_sameIdentity env x r).host_id,
      (repolled_sameIdentity env x r).attempt_no⟩
  simp only [Function.comp_apply, NodeExec.attempt_key, hkey, hhost, hno]

theorem insertable_repolled {rows new : List NodeExec} :
    Table.Insertable (rows.map (repolled env x)) new ↔ Table.Insertable rows new := by
  have hids : (rows.map (repolled env x)).map (·.dispatch_id) = rows.map (·.dispatch_id) := by
    rw [List.map_map]
    exact List.map_congr_left fun r _ => (repolled_sameIdentity env x r).dispatch_id
  unfold Table.Insertable
  rw [List.map_append, List.map_append, attempt_keys_repolled, hids, ← List.map_append,
    ← List.map_append]

/-- A completed key is that of a row whose poll ends it. -/
theorem mem_completed_keys {rows : List NodeExec} {key : String} :
    key ∈ completed_keys env x rows ↔
      ∃ r ∈ rows, r.node_key = key ∧ r.status = .RUNNING ∧
        (polled_row env x r).status.terminal = true := by
  have hkey : ∀ r, (polled_row env x r).node_key = r.node_key := by
    intro r
    unfold polled_row
    cases h : polled env x r with
    | error e => rfl
    | ok p => exact (polled_sameIdentity h).node_key
  simp only [completed_keys, List.mem_map, List.mem_filter, decide_eq_true_eq]
  constructor
  · rintro ⟨_, ⟨⟨r, ⟨hr, hrunning⟩, rfl⟩, hterm⟩, rfl⟩
    exact ⟨r, hr, (hkey r).symm, hrunning, hterm⟩
  · rintro ⟨r, hr, rfl, hrunning, hterm⟩
    exact ⟨_, ⟨⟨r, ⟨hr, hrunning⟩, rfl⟩, hterm⟩, hkey r⟩

/-- When a tick creates the next attempt of a row it finds. -/
theorem creates_iff {user_id : Option Int} {n : Node} (hx : w.execution = some x)
    (hrow : row ∈ w.rows) (hlast : LastAttempt w.rows row)
    (hnode : ver.dag.node? row.node_key = some n) (hmore : (row.attempt_no : Int) < n.max_retries) :
    creates_next_attempt env ver user_id w row = true ↔
      (∀ r ∈ w.rows, ∃ p, polled env x r = .ok p) ∧
      Table.Insertable w.rows
        (retry_rows env x ver.dag
          (completed_keys env x w.rows) user_id (w.rows.map (repolled env x))) ∧
      ((repolled env x row).status = .FAILED ∧
        is_retryable (repolled env x row).error_message = true) ∧
      row.node_key ∈ completed_keys env x w.rows := by
  have hid := repolled_sameIdentity env x row
  have hnodup : ((w.rows.map (repolled env x)).map (·.attempt_key)).Nodup := by
    rw [attempt_keys_repolled]
    exact w.table.attempt_nodup
  have hrow' : repolled env x row ∈ w.rows.map (repolled env x) := List.mem_map_of_mem hrow
  have hlast' : LastAttempt (w.rows.map (repolled env x)) (repolled env x row) := by
    rintro s hs hslot
    obtain ⟨r, hr, rfl⟩ := List.mem_map.mp hs
    have hidr := repolled_sameIdentity env x r
    rw [hidr.attempt_no, hid.attempt_no]
    exact hlast r hr ⟨by rw [← hidr.node_key, hslot.1, hid.node_key], by rw [← hidr.host_id,
      hslot.2, hid.host_id]⟩
  have hnext : next_attempt (repolled env x row) = next_attempt row := by
    simp only [next_attempt, hid.node_key, hid.host_id, hid.attempt_no]
  have hbuilt :=
    next_attempt_built env x ver.dag (completed_keys env x w.rows) user_id hnodup hrow' hlast'
    (by rw [hid.node_key]; exact hnode) (by rw [hid.attempt_no]; exact hmore)
  rw [hnext, hid.node_key] at hbuilt
  have hnew : ∀ y ∈ w.rows.map (repolled env x), y.attempt_key ≠ next_attempt row := by
    intro y hy hkey
    simp only [NodeExec.attempt_key, next_attempt, Prod.mk.injEq] at hkey
    have hle := hlast' y hy ⟨by rw [hkey.1, hid.node_key], by rw [hkey.2.1, hid.host_id]⟩
    rw [hid.attempt_no] at hle
    omega
  rw [creates_next_attempt_iff hx]
  constructor
  · rintro ⟨m, out, w₂, k, w₃, hpoll, hretry, r, hr, hkey⟩
    have hok : ∀ r ∈ w.rows, ∃ p, polled env x r = .ok p := by
      intro r hr
      cases hpolled : polled env x r with
      | ok p => exact ⟨p, rfl⟩
      | error e =>
        obtain ⟨e', w', hraise⟩ := poll_phase_error hr hpolled
        cases hraise.symm.trans hpoll
    obtain ⟨m', w', hphase, _, hrows⟩ := poll_phase_ok hok
    obtain ⟨hout, rfl⟩ := Prod.mk.inj (hphase.symm.trans hpoll)
    obtain ⟨_, rfl⟩ := Prod.mk.inj (Except.ok.inj hout)
    obtain ⟨hfits, created, hcreated⟩ := (retry_pass_spec ver.dag _ user_id w').2 k w₃ hretry
    have hmem : r ∈ created := by
      refine ((hcreated.mem r).mp hr).resolve_right fun hold => ?_
      have hold' : r ∈ w.rows.map (repolled env x) := hrows ▸ hold
      exact hnew r hold' hkey
    obtain ⟨r₀, hr₀, heq⟩ := hcreated.row_of_mem r hmem
    rw [hrows] at hr₀ hfits
    exact ⟨hok, insertable_repolled.mp hfits, hbuilt.mp ⟨r₀, hr₀, by rw [← hkey, heq]; rfl⟩⟩
  · rintro ⟨hok, hfits, hfailed⟩
    obtain ⟨m, w', hphase, _, hrows⟩ := poll_phase_ok hok
    have hfits' : Table.Insertable w'.rows
        (retry_rows env x ver.dag (completed_keys env x w.rows) user_id w'.rows) := by
      rw [hrows]
      exact insertable_repolled.mpr hfits
    obtain ⟨k, w₃, hretry⟩ := (retry_pass_spec ver.dag _ user_id w').1 hfits'
    obtain ⟨_, created, hcreated⟩ := (retry_pass_spec ver.dag _ user_id w').2 k w₃ hretry
    obtain ⟨r₀, hr₀, hkey⟩ := hbuilt.mpr hfailed
    rw [← hrows] at hr₀
    obtain ⟨r, hr, heq⟩ := hcreated.mem_of_row r₀ hr₀
    refine ⟨m, _, w', k, w₃, hphase, hretry, r, (hcreated.mem r).mpr (Or.inl hr), ?_⟩
    rw [← hkey, heq]
    rfl


theorem push_row_pk (now : Time) : (push_row now repr ops row).pk = row.pk := by
  unfold push_row
  split_ifs <;> rfl

theorem sync_row_pk (now : Time) : (sync_row now repr ops row).pk = row.pk := by
  unfold sync_row
  split
  · rfl
  · split_ifs <;> rfl

/-- The push ends the row. -/
theorem push_row_status (now : Time) (hrunning : row.status = .RUNNING)
    (hterm : ops.status.terminal = true) (hrefers : refers_to ops row = true) :
    (push_row now repr ops row).status.terminal = true := by
  have hopen : ¬ (ops.status = .PENDING ∨ ops.status = .RUNNING) := by
    rintro (h | h) <;> simp [h, OpsStatus.terminal] at hterm
  unfold push_row
  rw [if_neg hopen, if_neg (by simp [hrefers, hrunning, Status.terminal])]
  cases hs : ops.status <;> simp only [push_target, hs]
  case ABORTED => split_ifs <;> rfl
  all_goals rfl

theorem sync_row_status (now : Time) (hterm : ops.status.terminal = true)
    (hsync : sync_id repr row = some ops.execution_id ∧ sync_due now ops = true) :
    (sync_row now repr ops row).status.terminal = true := by
  unfold sync_row
  cases hs : ops.status <;> simp [hs, OpsStatus.terminal] at hterm <;>
    simp only [sync_target, hsync, and_self, if_true] <;> rfl

namespace Writer

variable {writer : Writer}

theorem found_execution : (writer.found repr ops row w).execution = w.execution := by
  cases writer <;> rfl

end Writer

namespace Served

/-- Without an execution there are no rows. -/
theorem noneEmpty (h : Served ver w) : NoneEmpty (recorded.view w) := by
  induction h with
  | initial => exact fun _ => rfl
  | call c hw hc ih => exact (call_moves c hc ih).noneEmpty ih
  | @written w env x repr ops row writer hw hrow hrunning hterm hwrites ih =>
    intro hnone
    rw [show (recorded.view (writer.found repr ops row w)).1 =
      w.execution from Writer.found_execution] at hnone
    have hempty : w.rows = [] := ih hnone
    rw [hempty] at hrow
    cases hrow

/-- The attempts are in order. -/
theorem inOrder (h : Served ver w) : InOrder ver.dag w.rows := by
  induction h with
  | initial => exact .initial ver.dag
  | call c hw hc ih => exact (call_moves c hc hw.noneEmpty).inOrder ih
  | @written w env x repr ops row writer hw hrow hrunning hterm hwrites ih =>
    have hsave : ∀ (new : NodeExec) (now : Time) (fields : List Field), new.pk = row.pk →
        (row.write new now fields).status.terminal = true →
        InOrder ver.dag (w.table.save new now fields).rows := by
      intro new now fields hpk hterm
      refine ih.save hrow hpk ?_ fun _ => hterm
      intro hpending
      rw [hpending] at hterm
      cases hterm
    cases writer with
    | poll => exact ih
    | push now =>
      refine hsave _ now _ (push_row_pk now) ?_
      · rw [push_row_write]
        exact push_row_status now hrunning hterm hwrites
    | sync now =>
      refine hsave _ now _ (sync_row_pk now) ?_
      · rw [sync_row_write]
        exact sync_row_status now hterm hwrites

end Served

/-- What a writer from outside leaves of a running row. -/
structure LeftOutside (env : Env) (repr : Json → String) (ops : OpsExecution)
    (row : NodeExec) (w : World) (writer : Writer) (stored : NodeExec) : Prop where
  mem : stored ∈ (writer.found repr ops row w).rows
  identity : stored.SameIdentity row
  terminal : stored.status.terminal = true
  status : stored.status = (writer.left env repr ops row).status
  error_message : stored.error_message = (writer.left env repr ops row).error_message
  last : LastAttempt w.rows row → LastAttempt (writer.found repr ops row w).rows stored

/-- A row ended by another writer than the poll is left outside. -/
theorem Writer.leftOutside {writer : Writer} (hrow : row ∈ w.rows)
    (hrunning : row.status = .RUNNING) (hterm : ops.status.terminal = true)
    (hwrites : writer.Writes env x repr ops row) (hne : writer ≠ .poll) :
    ∃ stored, LeftOutside env repr ops row w writer stored := by
  cases writer with
  | poll => exact absurd rfl hne
  | push now =>
    refine ⟨row.write (push_row now repr ops row) now all_columns, ?_⟩
    have hid := row.write_sameIdentity (push_row now repr ops row) now all_columns
    refine ⟨(w.table.mem_save hrow (push_row_pk now) _).mpr (Or.inr rfl), hid, ?_, ?_, ?_,
      fun h => h.save hid⟩ <;>
      rw [push_row_write]
    · exact push_row_status now hrunning hterm hwrites
    · rfl
    · rfl
  | sync now =>
    refine ⟨row.write (sync_row now repr ops row) now sync_columns, ?_⟩
    have hid := row.write_sameIdentity (sync_row now repr ops row) now sync_columns
    refine ⟨(w.table.mem_save hrow (sync_row_pk now) _).mpr (Or.inr rfl), hid, ?_, ?_, ?_,
      fun h => h.save hid⟩ <;>
      rw [sync_row_write]
    · exact sync_row_status now hterm hwrites
    · rfl
    · rfl

/-- The row of a failed answer is stored as the poll leaves it. -/
theorem answered_of_failed {uo : UnitOutput} (hrunning : row.status = .RUNNING)
    (hfailed : uo.status = .FAILED) :
    answered env row uo = _apply_unit_output env row uo false := by
  have hstatus := apply_unit_output_status env row uo false
  unfold answered
  simp only
  rw [if_neg]
  rw [hstatus, hrunning, hfailed]
  decide

/-- The next attempt of a row whose execution ended in a retryable way is created by the
following tick if and only if that notices the failure, whoever wrote the row. -/
theorem next_attempt_created_iff {writer : Writer} {user_id : Option Int} {n : Node}
    (hw : Served ver w) (hx : w.execution = some x) (hrow : row ∈ w.rows)
    (hrunning : row.status = .RUNNING) (hnode : ver.dag.node? row.node_key = some n)
    (hmore : (row.attempt_no : Int) < n.max_retries) (hterm : ops.status.terminal = true)
    (hend : retryable_end repr ops = true) (hwrites : writer.Writes env x repr ops row) :
    creates_next_attempt env ver user_id (writer.found repr ops row w) row = true ↔
      Noticed env x ver.dag user_id repr ops row w writer := by
  have hlast := hw.inOrder.lastAttempt hrow (by rw [hrunning]; rfl)
  have hx' : (writer.found repr ops row w).execution = some x := Writer.found_execution.trans hx
  have hcond : Noticed env x ver.dag user_id repr ops row w writer ↔ _ ∧ _ ∧ _ :=
    ⟨fun h => ⟨h.polls, h.fits, h.left⟩, fun h => ⟨h.1, h.2.1, h.2.2⟩⟩
  by_cases hpoll : writer = .poll
  · subst hpoll
    obtain ⟨hfailed, hretry⟩ : (_unit_output_from_ops repr ops).status = .FAILED ∧
        is_retryable (_unit_output_from_ops repr ops).error_message = true := by
        simpa [retryable_end] using hend
    have hpolled : polled env x row =
        .ok (_apply_unit_output env row (_unit_output_from_ops repr ops) false) :=
      (show polled env x row = _ from hwrites).trans (by rw [answered_of_failed hrunning hfailed])
    have hstored : repolled env x row = applied env row (_unit_output_from_ops repr ops) false := by
      simp only [repolled, hpolled, applied]
    have hstatus : (repolled env x row).status = .FAILED := by
      rw [hstored, applied_status, hrunning, hfailed]
      decide
    have herror : is_retryable (repolled env x row).error_message = true := by
      rw [hstored, applied_error_message]
      cases hmsg : (_unit_output_from_ops repr ops).error_message with
      | none => rw [hmsg] at hretry; cases hretry
      | some msg => rw [hmsg] at hretry; exact hretry
    have hcompleted : row.node_key ∈ completed_keys env x w.rows := by
      refine mem_completed_keys.mpr ⟨row, hrow, rfl, hrunning, ?_⟩
      have hmem : (polled_row env x row).status = .FAILED := by
        simp only [polled_row, hpolled, apply_unit_output_status, hrunning, hfailed]
        decide
      rw [hmem]
      rfl
    rw [hcond]
    simp only [Writer.found]
    rw [creates_iff hx hrow hlast hnode hmore]
    simp only [hstatus, herror, hcompleted, true_or, and_self, and_true]
  · obtain ⟨stored, hleft⟩ := Writer.leftOutside (w := w) hrow hrunning hterm hwrites hpoll
    have hid := hleft.identity
    have hsame : repolled env x stored = stored := by
      refine repolled_of_not_running fun h => ?_
      have hterm' := hleft.terminal
      rw [h] at hterm'
      cases hterm'
    have hnext : next_attempt stored = next_attempt row := by
      simp only [next_attempt, hid.node_key, hid.host_id, hid.attempt_no]
    have hretried : creates_next_attempt env ver user_id (writer.found repr ops row w) stored =
        creates_next_attempt env ver user_id (writer.found repr ops row w) row := by
      simp only [creates_next_attempt, hnext]
    rw [hcond, ← hretried, creates_iff hx' hleft.mem (hleft.last hlast)
      (by rw [hid.node_key]; exact hnode)
      (by rw [hid.attempt_no]; exact hmore), hsame, hleft.status, hleft.error_message, hid.node_key,
      mem_completed_keys]
    simp only [hpoll, false_or]

/-- A command whose execution is known, and which goes on. -/
def launched : UnitOutput :=
  { status := .RUNNING, adapter_state := some [("ops_execution_id", .str "wfex-1-deploy")] }

/-- Minute `minute` of a command that an adapter reports on from its execution. -/
def reporting (minute : Int) (ops : OpsExecution) : Env :=
  scripted minute (fun _ _ => launched) fun _ _ => _unit_output_from_ops (fun _ => "") ops

/-- The command ran into the timeout of its executor. -/
def timedOut : OpsExecution :=
  { execution_id := "wfex-1-deploy", execution_type := "command", host_id := 1, status := .ABORTED
    error_message := some "timeout", finished_at := some (Time.seconds 30) }

/-- The workflow while the command runs. -/
def deploying (hosts : List String) : World := started (retried hosts) (reporting 0 timedOut) []

/-- The example is a served state. -/
theorem deploying_served (hosts : List String) : Served (retried hosts) (deploying hosts) :=
  .call (.trigger (reporting 0 timedOut) 1 [] "manual" none none) .initial rfl

/-- The database after the push path has written the timeout into a row. -/
def pushed (hosts : List String) (row : NodeExec) : World :=
  (Writer.push (Time.seconds 40)).found (fun _ => "") timedOut row (deploying hosts)

/-- A timeout that the push path writes into the row is not retried. -/
theorem pushed_timeout_not_retried : ∃ row ∈ (deploying ["1"]).rows,
    (row.status = .RUNNING ∧ row.attempt_no = 1 ∧ refers_to timedOut row = true) ∧
    retryable_end (fun _ => "") timedOut = true ∧
    creates_next_attempt (reporting 1 timedOut) (retried ["1"]) none
      (pushed ["1"] row) row = false := by
  decide +kernel

/-- It is when the command times out on another host in the same tick. -/
theorem pushed_timeout_retried : ∃ row ∈ (deploying ["1", "2"]).rows, ∃ x,
    creates_next_attempt (reporting 1 timedOut) (retried ["1", "2"]) none
      (pushed ["1", "2"] row) row = true ∧
      Noticed (reporting 1 timedOut) x (retried ["1", "2"]).dag none (fun _ => "") timedOut row
        (deploying ["1", "2"]) (.push (Time.seconds 40)) := by
  have hexec : (deploying ["1", "2"]).execution.isSome = true := by decide +kernel
  have hrow : ∃ row ∈ (deploying ["1", "2"]).rows, (row.status = .RUNNING ∧ row.attempt_no = 1 ∧
      row.node_key = "deploy" ∧ refers_to timedOut row = true) ∧
      creates_next_attempt (reporting 1 timedOut) (retried ["1", "2"]) none
        (pushed ["1", "2"] row) row = true := by
    decide +kernel
  obtain ⟨x, hx⟩ := Option.isSome_iff_exists.mp hexec
  obtain ⟨row, hrow, ⟨hrunning, hno, hkey, hrefers⟩, hcreates⟩ := hrow
  have hwrites : (Writer.push (Time.seconds 40)).Writes (reporting 1 timedOut) x
    (fun _ => "") timedOut row := hrefers
  refine ⟨row, hrow, x, hcreates, ?_⟩
  exact (next_attempt_created_iff (deploying_served _) hx hrow hrunning
    (by rw [hkey]; rfl) (by rw [hno]; decide) rfl (by decide +kernel) hwrites).mp hcreates

end taurus.ops
