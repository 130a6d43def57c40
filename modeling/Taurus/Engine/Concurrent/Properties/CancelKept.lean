import Taurus.Engine.Concurrent.Obedience

namespace taurus.engine.concurrent

open taurus.lib taurus.lib.transition taurus.python taurus.engine.executor taurus.engine.runner

section polls

variable {env : Env} {x : Execution} {row : NodeExec}

/-- The adapter's answer ends a polled row as successful or failed. -/
def adapter_ends (env : Env) (x : Execution) (row : NodeExec) : Bool :=
  match env.get_class row.node_type with
  | .error _ => true
  | .ok adapter =>
    match adapter.construct with
    | .error _ => false
    | .ok _ =>
      match adapter.poll (_build_rendered_cfg env x row row.rendered_params) row.adapter_state with
      | .error _ => true
      | .ok uo => uo.status = .SUCCESS || uo.status = .FAILED

/-- The poll of a loaded row ends it as successful or failed: it is past the backoff, and
one of the limits is exceeded or the adapter ends it. -/
def poll_ends (env : Env) (x : Execution) (row : NodeExec) : Bool :=
  row.status = .RUNNING &&
    match backoff_sec row with
    | .error _ => false
    | .ok backoff => !backoffPending env row backoff &&
        (runsLongerThan env row MAX_RUNTIME_SEC || MAX_POLL_ATTEMPTS ≤ row.poll_count ||
          (0 < row.timeout_sec && runsLongerThan env row row.timeout_sec) || adapter_ends env x row)

/-- The saved fields write no other status than a cancellation. -/
def Spares (p : NodeExec × List Field) : Prop := .status ∈ p.2 → p.1.status = .CANCELLED

/-- A row that is marked as failed spares nothing. -/
theorem not_spares_failed (message : String) :
    ¬ Spares (failed_row env row message, failFields) := by
  intro h
  have hstatus := h (by simp [failFields])
  cases hstatus

/-- An answer writes the status when it changes. -/
theorem mem_answered_fields {uo : UnitOutput} :
    Field.status ∈ (answered env row uo).2 ↔ nextStatus row.status uo.status ≠ row.status := by
  have happlied : Field.status ∈ (_apply_unit_output env row uo false).2 ↔
      nextStatus row.status uo.status ≠ row.status := by
    simp [_apply_unit_output, mem_assign_snd]
  unfold answered
  simp only
  split_ifs
  · exact happlied
  · simpa using happlied
  · exact happlied

/-- The status after an answer. -/
theorem answered_status (env : Env) (row : NodeExec) (uo : UnitOutput) :
    (answered env row uo).1.status = nextStatus row.status uo.status := by
  have hstatus := apply_unit_output_status env row uo false
  unfold answered
  simp only
  split_ifs <;> exact hstatus

/-- An answer spares a running row unless it ends it. -/
theorem spares_answered_iff {uo : UnitOutput} (hrunning : row.status = .RUNNING) :
    Spares (answered env row uo) ↔ (uo.status = .SUCCESS || uo.status = .FAILED) = false := by
  unfold Spares
  rw [mem_answered_fields, answered_status, hrunning]
  cases uo.status <;> decide

theorem spares_adapter_iff {p : NodeExec × List Field} (hrunning : row.status = .RUNNING)
    (h : adapter_polled env x row = .ok p) : Spares p ↔ adapter_ends env x row = false := by
  unfold adapter_polled at h
  unfold adapter_ends
  cases hclass : env.get_class row.node_type with
  | error e =>
    simp only [hclass] at h
    obtain rfl := Except.ok.inj h
    simp [not_spares_failed]
  | ok adapter =>
    simp only [hclass] at h ⊢
    cases hconstruct : adapter.construct with
    | error e => simp [hconstruct] at h
    | ok _ =>
      simp only [hconstruct] at h ⊢
      cases hpoll : adapter.poll
        (_build_rendered_cfg env x row row.rendered_params) row.adapter_state with
      | error e =>
        simp only [hpoll] at h
        obtain rfl := Except.ok.inj h
        simp [not_spares_failed]
      | ok uo =>
        simp only [hpoll] at h ⊢
        obtain rfl := Except.ok.inj h
        exact spares_answered_iff hrunning

/-- A poll writes another status than a cancellation just when it ends the row. -/
theorem spares_polled_iff {p : NodeExec × List Field} (h : polled env x row = .ok p) :
    Spares p ↔ poll_ends env x row = false := by
  have hsame : Spares (row, []) := fun hmem => by cases hmem
  unfold polled at h
  unfold poll_ends
  by_cases hrunning : row.status = .RUNNING
  · rw [if_neg (not_not.mpr hrunning)] at h
    cases hbackoff : backoff_sec row with
    | error e => simp [hbackoff] at h
    | ok backoff =>
      simp only [hbackoff] at h
      split_ifs at h with hpending hruntime hpolls htimeout
      · obtain rfl := Except.ok.inj h
        simp [hsame, hpending]
      · obtain rfl := Except.ok.inj h
        simp [not_spares_failed, hrunning, hpending, hruntime]
      · obtain rfl := Except.ok.inj h
        simp [not_spares_failed, hrunning, hpending, hpolls]
      · obtain rfl := Except.ok.inj h
        simp [not_spares_failed, hrunning, hpending, htimeout]
      · rw [spares_adapter_iff hrunning h]
        have hlimit : (decide (0 < row.timeout_sec) && runsLongerThan env row row.timeout_sec) =
            false := by
          simpa using htimeout
        simp [hrunning, hpending, hruntime, hpolls, hlimit]
  · rw [if_pos hrunning] at h
    obtain rfl := Except.ok.inj h
    simp [hsame, hrunning]

end polls

def Client.is_cancel : Client → Bool
  | cancel _ _ => true
  | advance _ _ | scheduled _ => false

/-- A cancellation has committed the row as cancelled. -/
def CancelCommitted (clients : List Client) (d : Database) (pk : Nat) : Prop :=
  ∃ p ∈ d.commits, (clients[p.1]?).any Client.is_cancel = true ∧ ∃ c ∈ p.2, c.pk = pk ∧
  c.status = .CANCELLED

instance (clients : List Client) (d : Database) (pk : Nat) :
    Decidable (CancelCommitted clients d pk) := by
  unfold CancelCommitted
  infer_instance

/-- If the statement of the `i`-th call saves a poll, it leaves the rows that are stored as a
cancellation has committed them. -/
def CancelKept (clients : List Client) (s : Sessions) (i : Nat) : Prop :=
  match s.current i with
  | some (.update (.poll ..) _ _ _) =>
    ∀ s' ∈ s.step i, ∀ r ∈ s.shared.rows, r.status = .CANCELLED →
      CancelCommitted clients s.shared r.pk →
      ∃ r' ∈ s'.shared.rows, r'.pk = r.pk ∧ r'.status = .CANCELLED
  | _ => True

instance (clients : List Client) (s : Sessions) (i : Nat) : Decidable (CancelKept clients s i) := by
  unfold CancelKept
  split <;> infer_instance

/-- If the statement of the `i`-th call saves a poll of a row that is stored as a
cancellation has committed it, and need not wait, the poll has not ended the row. -/
def PollsQuietly (clients : List Client) (s : Sessions) (i : Nat) : Prop :=
  match s.current i with
  | some (.update (.poll env x loaded) _ _ _) =>
    s.shared.held i loaded.pk = false → ∀ r ∈ s.shared.rows, r.pk = loaded.pk →
      r.status = .CANCELLED →
      CancelCommitted clients s.shared r.pk → poll_ends env x loaded = false
  | _ => True

variable {clients : List Client} {s : Sessions} {i : Nat} {d : Database}

/-- A save leaves a stored cancellation just when it writes no other status. -/
theorem saved_cancelled_iff {row r : NodeExec} {now : Time} {fields : List Field} (hr : r ∈ d.rows)
    (hpk : r.pk = row.pk) (hcancelled : r.status = .CANCELLED) :
    (∃ r' ∈ (d.table.save row now fields).rows, r'.pk = r.pk ∧ r'.status = .CANCELLED) ↔
      Spares (row, fields) := by
  have hwritten : (r.write row now fields).status = .CANCELLED ↔ Spares (row, fields) := by
    unfold Spares
    by_cases hfield : Field.status ∈ fields
    · simp [NodeExec.write, hfield]
    · simp [NodeExec.write, hfield, hcancelled]
  rw [← hwritten]
  constructor
  · rintro ⟨r', hr', hpk', hstatus⟩
    obtain ⟨y, hy, rfl⟩ := List.mem_map.mp hr'
    have hypk : y.pk = r.pk := by
      split_ifs at hpk'
      · exact (y.write_sameIdentity row now fields).pk ▸ hpk'
      · exact hpk'
    obtain rfl := d.table.eq_of_pk hy hr hypk
    rwa [if_pos hpk] at hstatus
  · intro hstatus
    exact ⟨_, List.mem_map.mpr ⟨r, hr, if_pos hpk⟩,
      (r.write_sameIdentity row now fields).pk, hstatus⟩

/-- One statement: the save of a poll leaves the committed cancellations just when the poll
is quiet. -/
theorem kept_iff_quiet (hJ : Threads.Obeying discipline Sound s) :
    CancelKept clients s i ↔ PollsQuietly clients s i := by
  unfold CancelKept PollsQuietly
  cases hcurrent : s.current i with
  | none => exact Iff.rfl
  | some c =>
    cases c with
    | update source row now fields =>
      cases source with
      | other => exact Iff.rfl
      | poll env x loaded =>
        obtain ⟨hs, _, hallowed⟩ := hJ.allowed hcurrent
        have hpolled : polled env x loaded = .ok (row, fields) := hallowed.1
        have hpk : row.pk = loaded.pk := (polled_sameIdentity hpolled).pk
        have hshared : (Threads.step exec s i).map Threads.shared = _ :=
          Threads.step_shared hcurrent
        simp only [exec, Database.update, hpk] at hshared
        simp only
        cases hheld : s.shared.held i loaded.pk with
        | true =>
          simp only [hheld, if_true, Option.map_none, Option.map_eq_none_iff] at hshared
          have hwaits : Sessions.step s i = none := hshared
          simp [hwaits]
        | false =>
          simp only [hheld, Bool.false_eq_true, if_false, Option.map_some] at hshared
          obtain ⟨s', hstep, hs'⟩ := Option.map_eq_some_iff.mp hshared
          have hstep' : Sessions.step s i = some s' := hstep
          have hrows : s'.shared.rows =
              (s.shared.table.save row now fields).rows := by rw [hs']; rfl
          simp only [hstep', Option.mem_some_iff, forall_eq', hrows,
            ← spares_polled_iff hpolled, forall_const]
          constructor
          · intro hkept r hr hrpk hcancelled hcommitted
            exact (saved_cancelled_iff hr (hrpk.trans hpk.symm) hcancelled).mp
              (hkept r hr hcancelled hcommitted)
          · intro hquiet r hr hcancelled hcommitted
            by_cases hrpk : r.pk = loaded.pk
            · refine (saved_cancelled_iff hr (hrpk.trans hpk.symm) hcancelled).mpr ?_
              exact hquiet r hr hrpk hcancelled hcommitted
            · exact ⟨r, List.mem_map.mpr ⟨r, hr, if_neg (hpk ▸ hrpk)⟩, rfl, hcancelled⟩
    | _ => exact Iff.rfl

/-- In every interleaving of any number of calls: the polls leave the committed
cancellations if and only if none of those that reach one has ended its row. -/
theorem cancel_kept_iff (ver : DagVersion) (w : World) (clients : List Client)
    (schedule : List Nat) :
    Along (fun s i => (Sessions.step s i).getD s) (CancelKept clients)
      (Sessions.start ver w clients) schedule ↔
      Along (fun s i => (Sessions.step s i).getD s) (PollsQuietly clients)
        (Sessions.start ver w clients) schedule := by
  refine Along.iff_of_invariant (J := Threads.Obeying discipline Sound) (fun s i hJ _ => ?_)
    (fun s i hJ => ?_)
    (obeying_start ver w clients)
  · cases hstep : Sessions.step s i with
    | none => exact hJ
    | some s' =>
      refine Threads.obeying_step (fun hs c answer x hsound _ hallowed hexec => ?_) hJ hstep
      exact sound_exec hsound hallowed hexec
  · exact kept_iff_quiet hJ

/-- One command after the start. -/
def packing : DagVersion where
  dag :=
    { nodes := [{ node_key := "start", node_type := "start" },
      { node_key := "pack", node_type := "command" }]
      edges := [{ from_key := "start", to_key := "pack" }]
      keys_nodup := by decide
      edges_closed := by decide }
  workflow := { pk := 1, name := "packing", fail_strategy := "continue" }

/-- The command runs until its first poll. -/
def packs (minute : Int) : Env :=
  scripted minute (fun _ _ => running) fun _ _ => { status := .SUCCESS }

/-- A tick and a cancellation beside it. -/
def tickAndCancel : List Client := [.advance (packs 1) none, .cancel (packs 1) none]

/-- The tick loads the running command, the cancellation commits, and the tick saves the
answer of its poll. -/
theorem cancelled_command_succeeds :
    Reachable packing (started packing (packs 0) []) ∧
      ¬ Along (fun s i => (Sessions.step s i).getD s) (CancelKept tickAndCancel)
        (Sessions.start packing (started packing (packs 0) []) tickAndCancel)
          [0, 0, 1, 1, 1, 1, 1, 1, 0] :=
  ⟨started_reachable _ _ _ rfl, by decide +kernel⟩

end taurus.engine.concurrent
