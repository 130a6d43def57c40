import Taurus.Engine.Properties.Retries
import Taurus.Engine.Steps.Polled

namespace taurus.engine.runner

open taurus.lib taurus.lib.Prog taurus.python taurus.engine.executor

variable {ver : DagVersion} {env : Env} {x : Execution} {w₀ w w' : World} {r : NodeExec}

/-- E4401: the row runs longer or was polled more often than any row may. -/
def over_limits (env : Env) (row : NodeExec) : Bool :=
  runsLongerThan env row MAX_RUNTIME_SEC || MAX_POLL_ATTEMPTS ≤ row.poll_count

/-- E4402: the row runs longer than its own timeout. -/
def timed_out (env : Env) (row : NodeExec) : Bool :=
  0 < row.timeout_sec && runsLongerThan env row row.timeout_sec

/-- The row is past its backoff and over one of the limits, so that its adapter is not asked. -/
def overtime (env : Env) (row : NodeExec) : Bool :=
  match backoff_sec row with
  | .error _ => false
  | .ok q => !backoffPending env row q && (over_limits env row || timed_out env row)

/-- The adapter of the row can be loaded and constructed. -/
def can_cancel (env : Env) (row : NodeExec) : Bool :=
  match env.get_class row.node_type with
  | .error _ => false
  | .ok adapter => adapter.construct.toBool

/-- The runner may end the running row without a cancel: over the limits, or where the adapter
it would ask for one cannot be had. -/
def lets_go (env : Env) (x : Execution) (row : NodeExec) : Bool :=
  row.status = .RUNNING &&
    match backoff_sec row with
    | .error _ => false
    | .ok q =>
      if backoffPending env row q then x.fail_strategy = "fail_fast" && !can_cancel env row
      else over_limits env row || (timed_out env row && !can_cancel env row)

/-- The adapter answers a poll of the row with a terminal status. -/
def answers_terminal (env : Env) (x : Execution) (row : NodeExec) : Bool :=
  match env.get_class row.node_type with
  | .error _ => false
  | .ok adapter =>
    match adapter.poll (_build_rendered_cfg env x row row.rendered_params) row.adapter_state with
    | .error _ => false
    | .ok uo => uo.status.terminal

/-- The history entries a call has added. -/
def new_entries (w w' : World) : List Entry := w'.log.drop w.log.length

/-- The adapter was asked about the row and has reported a terminal status. -/
def Reported (env : Env) (x : Execution) (log : List Entry) (r : NodeExec) : Prop :=
  ∃ e ∈ log, ∃ row, e.act = .poll row ∧ row.pk = r.pk ∧ answers_terminal env x row = true

/-- The adapter was asked to cancel the row. -/
def Cancelled (log : List Entry) (r : NodeExec) : Prop :=
  ∃ e ∈ log, ∃ row, e.act = .cancel row ∧ row.pk = r.pk

/-- What a tick finds outside. -/
def Call.tick? : Call → Option Env
  | advance env _ | scheduled env => some env
  | trigger .. | cancel .. => none

/-- The ways a tick ends a running row on its own authority: by E4401 or E4402, or by a
fail-fast cancellation. -/
def OwnAuthority (env : Env) (r r' : NodeExec) : Prop :=
  overtime env r = true ∨ r'.status = .CANCELLED

/-- A running row that a tick ends on its own authority was cancelled in this tick, unless its
adapter has reported a terminal status. -/
def NeverAbandons (ver : DagVersion) (c : Call) (w : World) : Prop :=
  ∀ env, c.tick? = some env → ∀ x, w.execution = some x → ∀ r ∈ w.rows, r.status = .RUNNING →
    ∀ r' ∈ (c.run ver w).rows, r'.pk = r.pk → r'.status.terminal = true → OwnAuthority env r r' →
      ¬ Reported env x (new_entries w (c.run ver w)) r → Cancelled (new_entries w (c.run ver w)) r

/-- A tick that finds a running row it would let go. -/
def Call.lets_go (c : Call) (w : World) : Bool :=
  match c.tick?, w.execution with
  | some env, some x => w.rows.any (runner.lets_go env x)
  | _, _ => false

/-- No row is dispatched after an earlier attempt of its node on its host. -/
def NoEarlierAttempt (e : Entry) : Prop :=
  ∀ row, e.act = .dispatch row → ∀ b ∈ e.before, SameSlot b row → row.attempt_no ≤ b.attempt_no

/-- The calls of a run, each with the world it is made in. -/
def Call.steps (ver : DagVersion) : List Call → World → List (World × Call)
  | [], _ => []
  | c :: rest, w => (w, c) :: Call.steps ver rest (c.run ver w)

/-- New entries stay in a log that grows. -/
theorem mem_new_entries_of_prefix {e : Entry} (h : e ∈ new_entries w₀ w) (hlog : w.log <+: w'.log) :
    e ∈ new_entries w₀ w' := (hlog.drop _).subset h

theorem mem_new_entries_note (act : Act) (hlog : w₀.log <+: w.log) :
    { act, before := w.rows } ∈ new_entries w₀ (w.note act) := by
  unfold new_entries
  rw [World.note, List.drop_append_of_le_length hlog.length_le]
  exact List.mem_append_right _ (List.mem_singleton.mpr rfl)

/-- A cancelled row stays cancelled. -/
theorem Cancelled.mono (h : Cancelled (new_entries w₀ w) r) (hlog : w.log <+: w'.log) :
    Cancelled (new_entries w₀ w') r := by
  obtain ⟨e, he, hrow⟩ := h
  exact ⟨e, mem_new_entries_of_prefix he hlog, hrow⟩

theorem Reported.mono (h : Reported env x (new_entries w₀ w) r) (hlog : w.log <+: w'.log) :
    Reported env x (new_entries w₀ w') r := by
  obtain ⟨e, he, hrow⟩ := h
  exact ⟨e, mem_new_entries_of_prefix he hlog, hrow⟩

theorem Cancelled.of_pk {log : List Entry} {s : NodeExec} (h : Cancelled log s)
    (hpk : s.pk = r.pk) : Cancelled log r := by
  obtain ⟨e, he, row, hact, hrow⟩ := h
  exact ⟨e, he, row, hact, hrow.trans hpk⟩

theorem can_cancel_of_sameIdentity {s : NodeExec} (hid : s.SameIdentity r) :
    can_cancel env s = can_cancel env r := by
  simp only [can_cancel, hid.node_type]

/-- An adapter that can be had is asked to cancel. -/
theorem triple_cancel_adapter_logged {row : NodeExec} {E : World → Prop}
    (hcan : can_cancel env row = true) :
    Triple (fun w => w₀.log <+: w.log) (cancel_adapter env x row)
      (fun _ w => Cancelled (new_entries w₀ w) row) E := by
  unfold can_cancel at hcan
  unfold cancel_adapter
  cases hclass : env.get_class row.node_type with
  | error e => simp [hclass] at hcan
  | ok adapter =>
    simp only [hclass] at hcan ⊢
    cases hconstruct : adapter.construct with
    | error e => simp [hconstruct, Except.toBool] at hcan
    | ok _ =>
      refine triple_bind (R := fun _ w => Cancelled (new_entries w₀ w) row)
        (triple_modifyState fun w hw => ?_)
        fun _ => triple_pure fun _ h => h
      exact ⟨_, mem_new_entries_note _ hw, row, rfl, rfl⟩

/-- What a tick has done about the running row `r` of `w₀` once it is polled. -/
inductive Attended (env : Env) (x : Execution) (w₀ : World) (r : NodeExec) (w : World) : Prop
  | cancelled (h : Cancelled (new_entries w₀ w) r)
  | reported (h : Reported env x (new_entries w₀ w) r)
  /-- it is not over time and goes on, or has ended otherwise -/
  | kept (hintime : overtime env r = false) (s : NodeExec) (hs : s ∈ w.rows)
      (hid : s.SameIdentity r)
      (hstatus : s.status ≠ .PENDING ∧ s.status ≠ .CANCELLED)
      (hcan : s.status = .RUNNING → x.fail_strategy = "fail_fast" → can_cancel env r = true)

/-- A row stays attended while the others are spared. -/
theorem Attended.spared (h : Attended env x w₀ r w) (hlog : w.log <+: w'.log)
    (hspares : Spares w.rows w'.rows) :
    Attended env x w₀ r w' := by
  cases h with
  | cancelled h => exact .cancelled (h.mono hlog)
  | reported h => exact .reported (h.mono hlog)
  | kept hintime s hs hid hstatus hcan =>
    obtain ⟨q, hq, hqid, hqs⟩ := hspares s hs hstatus.1
    refine .kept hintime q hq (hqid.trans hid) ?_ ?_
    · rcases hqs with hqs | hqs | hqs <;> rw [hqs]
      · exact hstatus
      · decide
      · decide
    · intro hrunning
      rcases hqs with hqs | hqs | hqs <;> rw [hqs] at hrunning
      · exact hcan hrunning
      · cases hrunning
      · cases hrunning

/-- Writing another row changes nothing for this one. -/
theorem Attended.touched {a : NodeExec} (h : Attended env x w₀ r w) (ht : Touched ver [a] w w')
    (hne : r.pk ≠ a.pk) :
    Attended env x w₀ r w' := by
  cases h with
  | cancelled h => exact .cancelled (h.mono ht.moves.log_grows)
  | reported h => exact .reported (h.mono ht.moves.log_grows)
  | kept hintime s hs hid hstatus hcan =>
    refine .kept hintime s (ht.kept s hs ?_) hid hstatus hcan
    rw [hid.pk]
    simpa using hne

/-- An answer is one save. -/
theorem poll_answer_eq (uo : UnitOutput) :
    poll_answer env r uo w = (.ok (answered env r uo).1,
      { w with table := w.table.save (answered env r uo).1 env.now (answered env r uo).2 }) := by
  unfold answered poll_answer
  by_cases h : (_apply_unit_output env r uo false).1.status = .RUNNING
  · simp only [h, if_true]
    rfl
  · simp only [h, if_false]
    rfl

/-- A failed row is attended to, unless it was over time. -/
theorem Attended.fail_row {message : String} (hintime : overtime env r = false) (hr : r ∈ w.rows) :
    Attended env x w₀ r { w with table := w.table.save (failed_row env r message) env.now failFields } := by
  refine .kept hintime (r.write (failed_row env r message) env.now failFields) ?_
    (r.write_sameIdentity _ _ _) ?_ ?_
  · have hpk : (failed_row env r message).pk = r.pk := rfl
    exact (w.table.mem_save hr hpk _).mpr (Or.inr rfl)
  · exact ⟨by simp [NodeExec.write, failed_row, failFields], by simp [NodeExec.write,
      failed_row, failFields]⟩
  · exact fun h => absurd h (by simp [NodeExec.write, failed_row, failFields])

/-- The answer of the adapter is a report, or the row goes on or ends without a cancellation. -/
theorem Attended.answered {adapter : Adapter} {uo : UnitOutput} (hrunning : r.status = .RUNNING)
    (hintime : overtime env r = false) (hr : r ∈ w.rows) (hlog : w₀.log <+: w.log)
    (hclass : env.get_class r.node_type = .ok adapter) (hconstruct : adapter.construct = .ok ())
    (hpoll : adapter.poll (_build_rendered_cfg env x r r.rendered_params) r.adapter_state = .ok uo) :
    Attended env x w₀ r { w.note (.poll r) with
      table := (w.note (.poll r)).table.save (answered env r uo).1 env.now (answered env r uo).2 } := by
  by_cases hterm : uo.status.terminal = true
  · refine .reported ⟨_, mem_new_entries_note (.poll r) hlog, r, rfl, rfl, ?_⟩
    simp only [answers_terminal, hclass, hpoll, hterm]
  have hid := answered_sameIdentity env r uo
  have hstatus := @write_answered_status env r hrunning uo
  have hgoes : nextStatus .RUNNING uo.status = .RUNNING := by
    cases hs : uo.status <;> simp_all [Status.terminal] <;> decide
  rw [hgoes] at hstatus
  refine .kept hintime _ ((w.table.mem_save hr hid.pk _).mpr (Or.inr rfl))
    (r.write_sameIdentity _ _ _) ?_ ?_
  · rw [hstatus]
    decide
  · intro _ _
    simp [can_cancel, hclass, hconstruct, Except.toBool]

/-- A poll of the row attends to it, or stops with an exception before it has written anything. -/
theorem triple_poll_attended (hrunning : r.status = .RUNNING) (hlets : lets_go env x r = false) :
    Triple (fun w => w₀.log <+: w.log ∧ r ∈ w.rows) (_poll_one_row env x r)
      (fun _ => Attended env x w₀ r)
      (fun w => r ∈ w.rows) := by
  unfold _poll_one_row
  rw [if_neg (not_not.mpr hrunning)]
  unfold lets_go at hlets
  simp only [hrunning, decide_true, Bool.true_and] at hlets
  refine triple_bind (R := fun q w => (w₀.log <+: w.log ∧ r ∈ w.rows) ∧ backoff_sec r = .ok q)
    (triple_fromExcept (fun q hq _ hw => ⟨hw, hq⟩) fun _ h => h.2) fun q => ?_
  rintro w ⟨⟨hlog, hr⟩, hq⟩
  simp only [hq] at hlets
  by_cases hpending : backoffPending env r q = true
  · have hintime : overtime env r = false := by simp [overtime, hq, hpending]
    rw [if_pos hpending] at hlets ⊢
    refine .kept hintime r hr (.refl r) (by simp [hrunning]) fun _ hfast => ?_
    simpa [hfast] using hlets
  rw [if_neg hpending] at hlets ⊢
  simp only [Bool.or_eq_false_iff, over_limits, decide_eq_false_iff_not] at hlets
  rw [if_neg (by simp [hlets.1.1]), if_neg hlets.1.2]
  by_cases htimeout : 0 < r.timeout_sec ∧ runsLongerThan env r r.timeout_sec = true
  · rw [if_pos htimeout]
    have hcan : can_cancel env (failed_row env r (E4402 env r)) = true := by
      simpa [timed_out, htimeout, can_cancel, failed_row] using hlets.2
    refine (triple_bind (R :=
      fun _ w => Cancelled (new_entries w₀ w) (failed_row env r (E4402 env r)))
      (triple_cancel_adapter_logged hcan) fun _ => ?_ :
        Triple (fun w => w₀.log <+: w.log) _
        (fun _ => Attended env x w₀ r) (fun w => r ∈ w.rows)) w hlog
    refine triple_bind (R := fun _ => Attended env x w₀ r)
      (triple_modifyState fun w hw => .cancelled ?_) fun _ =>
      triple_pure fun _ h => h
    exact Cancelled.of_pk hw rfl
  rw [if_neg htimeout]
  have hintime : overtime env r = false := by
    have hown : timed_out env r = false := by simpa [timed_out] using htimeout
    simp [overtime, hq, over_limits, hlets.1.1, hlets.1.2, hown]
  unfold poll_adapter
  cases hclass : env.get_class r.node_type with
  | error e => exact .fail_row hintime hr
  | ok adapter =>
    simp only
    cases hconstruct : adapter.construct with
    | error e => exact hr
    | ok _ =>
      refine (triple_bind (R := fun _ s => s = w) (triple_fromExcept (fun _ _ _ hs => hs)
        fun _ hs => hs ▸ hr)
        fun _ => ?_ : Triple (fun s => s = w) _
          (fun _ => Attended env x w₀ r) (fun w => r ∈ w.rows)) w rfl
      refine triple_bind (R := fun _ s => s = w.note (.poll r))
        (triple_modifyState fun _ hs => by rw [hs]) fun _ => ?_
      rintro _ rfl
      cases hpoll : adapter.poll
        (_build_rendered_cfg env x r r.rendered_params) r.adapter_state with
      | error e => exact Attended.fail_row (w := w.note (.poll r)) hintime hr
      | ok uo =>
        simp only [poll_answer_eq]
        exact .answered hrunning hintime hr hlog hclass hconstruct hpoll

/-- The poll phase attends to every running row, or stops before it comes to the row. -/
theorem triple_poll_phase_attended (hr : r ∈ w₀.rows) (hrunning : r.status = .RUNNING)
    (hlets : lets_go env x r = false) (hx : w₀.execution = some x) :
    Triple (fun w => w = w₀) (poll_phase env x) (fun _ w => Live ver x w₀ w ∧ Attended env x w₀ r w)
      (fun w => Live ver x w₀ w ∧ (r ∈ w.rows ∨ Attended env x w₀ r w)) := by
  refine triple_bind (triple_objects_filter (Q := fun rows w =>
    w = w₀ ∧ rows = w₀.rows.filter fun r => decide (r.status = .RUNNING))
      fun w hw => ⟨hw, hw ▸ rfl⟩) fun rows => ?_
  -- the row is still to be polled, or was attended to and does not come again
  refine triple_bind (R := fun _ w => Live ver x w₀ w ∧ Attended env x w₀ r w) ?_ fun _ =>
    triple_pure fun _ h => h
  refine (triple_forEach (I := fun rest w => (Live ver x w₀ w ∧ ∀ a ∈ rest, a ∈ w.rows) ∧
    (rest.map (·.pk)).Nodup ∧
    (r ∈ rest ∨ (Attended env x w₀ r w ∧ r.pk ∉ rest.map (·.pk))))
      (fun a rest => ?_) rows).conseq ?_ ?_ fun _ h => h
  · rintro w ⟨⟨hlive, hin⟩, hnodup, hwhere⟩
    have ht : Touched ver [a] w (_poll_one_row env x a w).2 :=
      poll_one_row_touched env a w hlive.execution (hin a List.mem_cons_self)
    have hlive' := hlive.touched ht
    have hrest : ∀ b ∈ rest, b ∈ (_poll_one_row env x a w).2.rows := ht.others hnodup hin
    rw [List.map_cons, List.nodup_cons] at hnodup
    by_cases hit : a = r
    · subst hit
      have hpoll :=
        triple_poll_attended (x := x) hrunning hlets w
          ⟨hlive.moves.log_grows, hin a List.mem_cons_self⟩
      rcases hres : _poll_one_row env x a w with ⟨_ | _, w'⟩ <;>
        simp only [hres] at hpoll hlive' hrest ⊢
      · exact ⟨hlive', Or.inl hpoll⟩
      · exact ⟨⟨hlive', hrest⟩, hnodup.2, Or.inr ⟨hpoll, hnodup.1⟩⟩
    · have hwhere' : r ∈ rest ∨
          (Attended env x w₀ r (_poll_one_row env x a w).2 ∧ r.pk ∉ rest.map (·.pk)) := by
        obtain hmem | ⟨hattended, hout⟩ := hwhere
        · exact Or.inl ((List.mem_cons.mp hmem).resolve_left fun h => hit h.symm)
        · rw [List.map_cons, List.mem_cons, not_or] at hout
          exact Or.inr ⟨hattended.touched ht hout.1, hout.2⟩
      rcases hres : _poll_one_row env x a w with ⟨_ | _, w'⟩ <;>
        simp only [hres] at hwhere' hlive' hrest ⊢
      · exact ⟨hlive', hwhere'.imp (hrest r) And.left⟩
      · exact ⟨⟨hlive', hrest⟩, hnodup.2, hwhere'⟩
  · rintro w ⟨rfl, rfl⟩
    refine ⟨⟨.start hx, fun a ha => (List.mem_filter.mp ha).1⟩, loaded_nodup w _, Or.inl ?_⟩
    exact List.mem_filter.mpr ⟨hr, by simpa using hrunning⟩
  · rintro _ w ⟨⟨hlive, _⟩, _, hmem | ⟨hattended, _⟩⟩
    · cases hmem
    · exact ⟨hlive, hattended⟩

/-- The cancellation of a running row asks its adapter. -/
theorem triple_cancel_row_logged {row : NodeExec} {user_id : Option Int} {message : String}
    {E : World → Prop} (hrunning : row.status = .RUNNING) (hcan : can_cancel env row = true) :
    Triple (fun w => w₀.log <+: w.log) (cancel_row env x user_id message id row)
      (fun _ w => Cancelled (new_entries w₀ w) row) E := by
  unfold cancel_row cancel_answer
  rw [if_pos hrunning]
  refine triple_bind (R := fun _ w => Cancelled (new_entries w₀ w) row) ?_ fun _ =>
    triple_modifyState fun _ h => h
  refine triple_bind (triple_cancel_adapter_logged hcan) fun answer => ?_
  cases answer with
  | error e => exact triple_pure fun _ h => h
  | ok uo => exact triple_pure fun _ h => h

/-- Cancelling another row keeps this one attended. -/
theorem Attended.cancel_row {a : NodeExec} {user_id : Option Int} {message : String}
    (h : Attended env x w₀ r w) (hfast : x.fail_strategy = "fail_fast") (hlive : Live ver x w₀ w)
    (ha : a ∈ w.rows) (hunfinished : is_unfinished a = true) :
    Attended env x w₀ r (runner.cancel_row env x user_id message id a w).2 := by
  have ht : Touched ver [a] w (runner.cancel_row env x user_id message id a w).2 :=
    cancel_row_touched env user_id message id (fun _ => rfl) a w hlive.execution ha hunfinished
  by_cases hpk : r.pk = a.pk
  · cases h with
    | cancelled h => exact .cancelled (h.mono ht.moves.log_grows)
    | reported h => exact .reported (h.mono ht.moves.log_grows)
    | kept hintime s hs hid hstatus hcan =>
      obtain rfl := w.table.eq_of_pk hs ha (hid.pk.trans hpk)
      have hrunning : s.status = .RUNNING := by
        simpa [is_unfinished, hstatus.1] using hunfinished
      have hcan' := hcan hrunning hfast
      rw [← can_cancel_of_sameIdentity hid] at hcan'
      have hlogged : Cancelled (new_entries w₀
        (runner.cancel_row env x user_id message id s w).2) s :=
        (triple_cancel_row_logged hrunning hcan').state hlive.moves.log_grows
      exact .cancelled (hlogged.of_pk hid.pk)
  · exact h.touched ht hpk

/-- The fail-fast phase asks the adapter of every row that still runs. -/
theorem triple_fail_fast_attended (env : Env) (user_id : Option Int) :
    Triple (fun w => Live ver x w₀ w ∧ Attended env x w₀ r w) (fail_fast_phase env x user_id)
      (fun _ w => Live ver x w₀ w ∧ Attended env x w₀ r w) (Live ver x w₀) := by
  unfold fail_fast_phase
  refine triple_bind (triple_objects_filter
    (Q := fun _ w => Live ver x w₀ w ∧ Attended env x w₀ r w)
    fun w hw => hw) fun failed => ?_
  split_ifs with hfires
  rotate_left
  · exact triple_pure fun _ h => h
  refine triple_bind (triple_objects_filter
    (Q := fun rows w => (Live ver x w₀ w ∧ Attended env x w₀ r w) ∧
    rows = w.rows.filter is_unfinished) fun w hw => ⟨hw, rfl⟩) fun rows => ?_
  refine triple_bind (R := fun _ w => Live ver x w₀ w ∧ Attended env x w₀ r w) ?_ fun _ =>
    triple_pure fun _ h => h
  refine (triple_forEach (I := fun rest w => (Live ver x w₀ w ∧ Attended env x w₀ r w) ∧
    (rest.map (·.pk)).Nodup ∧
    ∀ a ∈ rest, a ∈ w.rows ∧ is_unfinished a = true) (fun a rest => ?_) rows).conseq ?_
      (fun _ _ h => h.1) fun _ h => h
  · rintro w ⟨⟨hlive, hattended⟩, hnodup, hin⟩
    obtain ⟨ha, hunfinished⟩ := hin a List.mem_cons_self
    have ht : Touched ver [a] w (cancel_row env x user_id "fail_fast: upstream failed" id a w).2 :=
      cancel_row_touched env user_id _ id (fun _ => rfl) a w hlive.execution ha hunfinished
    have hattended' : Attended env x w₀ r
        (cancel_row env x user_id "fail_fast: upstream failed" id a w).2 :=
      hattended.cancel_row hfires.1 hlive ha hunfinished
    have hlive' := hlive.touched ht
    have hrest := ht.others hnodup fun b hb => (hin b hb).1
    rcases hres : cancel_row env x user_id "fail_fast: upstream failed" id a w with ⟨_ | _, w'⟩ <;>
      simp only [hres] at hattended' hlive' hrest ⊢
    · exact hlive'
    · refine ⟨⟨hlive', hattended'⟩, (List.nodup_cons.mp hnodup).2, fun b hb => ⟨hrest b hb, ?_⟩⟩
      exact (hin b (List.mem_cons_of_mem _ hb)).2
  · rintro w ⟨hw, rfl⟩
    refine ⟨hw, loaded_nodup w _, fun a ha => ?_⟩
    simpa using List.mem_filter.mp ha

/-- A phase that spares the rows leaves the row attended to. -/
theorem triple_attended_of_spares {α : Type} {m : RunnerM α}
    (hm : ∀ w₁ base, Triple (fun w => Live ver x w₁ w ∧ Spares base w.rows) m
      (fun _ w => Live ver x w₁ w ∧ Spares base w.rows) (Live ver x w₁)) :
    Triple (fun w => Live ver x w₀ w ∧ Attended env x w₀ r w) m
      (fun _ w => Live ver x w₀ w ∧ Attended env x w₀ r w) (Moves ver w₀) := by
  rintro w ⟨hlive, hattended⟩
  have h := hm w w.rows w ⟨.start hlive.execution, .of_kept fun _ hb _ => hb⟩
  rcases hres : m w with ⟨_ | _, w'⟩ <;> simp only [hres] at h ⊢
  · exact hlive.moves.trans h.moves
  · exact ⟨⟨hlive.moves.trans h.1.moves, h.1.execution⟩, hattended.spared h.1.moves.log_grows h.2⟩

/-- The phases after the polls leave the row attended to. -/
theorem triple_advance_phases_attended (env : Env) (user_id : Option Int) (tick : AdvanceTick)
    (completed : List String) :
    Triple (fun w => Live ver x w₀ w ∧ Attended env x w₀ r w)
      (advance_phases env x ver (_build_edge_ctx x ver) user_id tick completed)
      (fun _ => Attended env x w₀ r) (Moves ver w₀) := by
  refine triple_bind (triple_attended_of_spares fun w₁ => triple_retry env completed user_id)
    fun _ => ?_
  refine triple_bind ((triple_fail_fast_attended env user_id).conseq (fun _ h => h) (fun _ _ h => h)
    fun _ h => h.moves) fun _ => ?_
  refine triple_bind (triple_attended_of_spares fun w₁ base => ?_) fun _ => ?_
  · rintro w ⟨hlive, hspares⟩
    refine (triple_aggregate_loops env).conseq (fun _ h => h) (fun _ s hs => ?_)
      (fun _ h => h) w ⟨hlive, rfl⟩
    exact ⟨hs.1, hspares.trans hs.2.spares⟩
  · rintro w ⟨hlive, hattended⟩
    refine ((triple_schedule_phases env user_id _ w.rows).conseq (fun s (hs : s = w) => ?_)
      (fun _ s hs => hattended.spared hs.1.log_grows hs.2) fun s hs => hlive.moves.trans hs) w rfl
    subst hs
    exact ⟨.start hlive.execution, .of_kept fun _ hb _ => hb⟩

/-- A rollback keeps what was asked of the adapters. -/
theorem Attended.transaction {α : Type} {m : RunnerM α} (h : Attended env x w₀ r w)
    (hmoves : Moves ver w (m w).2) (hok : ∀ a w', m w = (.ok a, w') → Attended env x w₀ r w') :
    Attended env x w₀ r (runner.transaction m w).2 := by
  unfold runner.transaction atomic
  rcases hres : m w with ⟨_ | a, w'⟩ <;> simp only [hres] at hmoves ⊢
  · exact h.spared hmoves.log_grows (.of_kept fun _ hb _ => hb)
  · exact hok a w' hres

/-- After a tick a row that was running is as it was, or attended to. -/
theorem advance_workflow_attended (ver : DagVersion) (user_id : Option Int)
    (hx : w.execution = some x) (hr : r ∈ w.rows) (hrunning : r.status = .RUNNING)
    (hlets : lets_go env x r = false) :
    r ∈ (advance_workflow env ver user_id w).2.rows ∨
      Attended env x w r (advance_workflow env ver user_id w).2 := by
  refine Triple.state (P := fun s => s = w) (E := fun s => r ∈ s.rows ∨ Attended env x w r s) ?_ rfl
  refine triple_bind (triple_getState (Q := fun s s' => s' = w ∧ s = w) fun s hs => ⟨hs, hs⟩)
    fun s => ?_
  rintro _ ⟨rfl, rfl⟩
  simp only [hx]
  refine (triple_bind ((@triple_poll_phase_attended ver env x s r hr hrunning hlets hx).conseq
    (fun _ h => h)
    (fun _ _ h => h) fun _ h => h.2) fun answer => Triple.of_state ?_ : Triple _ _ _ _) s rfl
  rintro w₁ ⟨hlive, hattended⟩
  refine Or.inr ?_
  refine hattended.transaction (advance_phases_moves env user_id _ _ hlive.execution)
    fun tick w' hres => ?_
  exact (triple_advance_phases_attended env user_id _ _).ok ⟨hlive, hattended⟩ hres

/-- A tick that lets no running row go abandons none. -/
theorem never_abandons {c : Call} (hlets : c.lets_go w = false) : NeverAbandons ver c w := by
  intro env htick x hx r hr hrunning r' hr' hpk hterm hown hnot
  have hlets : lets_go env x r = false := by
    simp only [Call.lets_go, htick, hx, List.any_eq_false, Bool.not_eq_true] at hlets
    exact hlets r hr
  have hadvance := fun user_id => advance_workflow_attended ver user_id hx hr hrunning hlets
  have hend : r ∈ (c.run ver w).rows ∨ Attended env x w r (c.run ver w) := by
    cases c with
    | trigger | cancel => cases htick
    | advance env user_id =>
      obtain rfl := Option.some.inj htick
      exact hadvance user_id
    | scheduled env =>
      obtain rfl := Option.some.inj htick
      change r ∈ (transaction _ w).2.rows ∨ Attended env x w r (transaction _ w).2
      unfold transaction atomic
      have h := hadvance none
      rcases hres : advance_workflow env ver none w with ⟨_ | tick, w'⟩ <;> simp only [hres] at h ⊢
      · exact Or.inl hr
      · exact h
  obtain hsame | hattended := hend
  · rw [(c.run ver w).table.eq_of_pk hr' hsame hpk, hrunning] at hterm
    cases hterm
  cases hattended with
  | cancelled h => exact h
  | reported h => exact absurd h hnot
  | kept hintime s hs hid hstatus _ =>
    obtain rfl := (c.run ver w).table.eq_of_pk hs hr' (hid.pk.trans hpk.symm)
    obtain hover | hcancelled := hown
    · rw [hintime] at hover
      cases hover
    · exact absurd hcancelled hstatus.2

/-- All states along the calls are reachable. -/
theorem Call.steps_reachable {calls : List Call} {w : World} (hw : Reachable ver w)
    (henabled : ∀ p ∈ Call.steps ver calls w, p.2.Enabled p.1) :
    ∀ p ∈ Call.steps ver calls w, Reachable ver p.1 := by
  induction calls generalizing w with
  | nil => exact fun p hp => by cases hp
  | cons c rest ih =>
    intro p hp
    obtain rfl | hp := List.mem_cons.mp hp
    · exact hw
    · refine ih (hw.tail ⟨c, henabled _ List.mem_cons_self, rfl⟩) (fun q hq => ?_) p hp
      exact henabled q (List.mem_cons_of_mem _ hq)

/-- Only first attempts are dispatched, so none comes after another. -/
theorem no_earlier_attempt (hw : Reachable ver w) : ∀ e ∈ w.log, NoEarlierAttempt e := by
  refine Moves.noted_entries (C := fun _ => True) (T := fun s => AttemptsOk ver.dag s.2.rows)
    (fun _ _ h _ hw => h.attemptsOk hw) ?_ (reachable_moves hw) (fun _ _ => trivial)
    (attemptsOk_initial ver.dag) (by simp [World.initial])
  rintro w x act _ hattempts _ _ hnoted row rfl b hb _
  have hfirst := hattempts.dispatched_first hnoted
  have hpos := hattempts.pos b hb
  omega

/-- In every run whose ticks let no running row go, no tick abandons a running row, and no
row is dispatched after an earlier attempt of its node on its host. -/
theorem live_units_cancelled (calls : List Call)
    (hcalls : ∀ p ∈ Call.steps ver calls .initial, p.2.Enabled p.1 ∧ p.2.lets_go p.1 = false) :
    ∀ p ∈ Call.steps ver calls .initial,
      NeverAbandons ver p.2 p.1 ∧ ∀ e ∈ (p.2.run ver p.1).log, NoEarlierAttempt e := by
  intro p hp
  have hreachable : Reachable ver p.1 :=
    Call.steps_reachable .refl (fun q hq => (hcalls q hq).1) p hp
  refine ⟨never_abandons (hcalls p hp).2,
    no_earlier_attempt (hreachable.tail ⟨p.2, (hcalls p hp).1, rfl⟩)⟩

/-- A command with a timeout of its own, if any, in minutes. -/
def watched (timeout : Nat) : DagVersion where
  dag :=
    { nodes := [{ node_key := "start", node_type := "start" },
        { node_key := "build", node_type := "command", timeout_sec := 60 * timeout }]
      edges := [{ from_key := "start", to_key := "build" }]
      keys_nodup := by simp
      edges_closed := by simp }
  workflow := { pk := 1, name := "watched" }

/-- The command runs on and on. -/
def hanging (minute : Int) : Env := scripted minute (fun _ _ => running) fun _ _ => running

/-- The runs of a watched command over some minutes. -/
def watching (minutes : List Int) : List Call :=
  .trigger (hanging 0) 1 [] "manual" none none :: minutes.map fun minute =>
    .scheduled (hanging minute)

/-- Neither a poll nor a cancel. -/
def Act.silent : Act → Bool
  | .poll _ | .cancel _ => false
  | _ => true

/-- A tick after two hours ends the row, and its adapter hears nothing of it. -/
theorem hanging_command_abandoned :
    ∃ w c, Reachable (watched 0) w ∧ c.Enabled w ∧ ¬ NeverAbandons (watched 0) c w := by
  refine ⟨started (watched 0) (hanging 0) [], .scheduled (hanging 121),
    started_reachable _ _ _ rfl, trivial, fun hnever => ?_⟩
  set w := started (watched 0) (hanging 0) [] with hw
  set c := Call.scheduled (hanging 121) with hc
  have hended : ∃ r ∈ w.rows, (r.status = .RUNNING ∧ overtime (hanging 121) r = true) ∧
      ∃ r' ∈ (c.run (watched 0) w).rows, r'.pk = r.pk ∧ r'.status.terminal = true := by
      decide +kernel
  have hsilent : (new_entries w (c.run (watched 0) w)).all (·.act.silent) = true := by
    decide +kernel
  have hexecution : w.execution.isSome = true := by decide +kernel
  rw [List.all_eq_true] at hsilent
  obtain ⟨x, hx⟩ := Option.isSome_iff_exists.mp hexecution
  obtain ⟨r, hr, ⟨hrunning, hover⟩, r', hr', hpk, hterm⟩ := hended
  obtain ⟨e, he, row, hact, _⟩ :=
    hnever _ rfl x hx r hr hrunning r' hr' hpk hterm (Or.inl hover) fun ⟨e, he, row, hact, _⟩ => by
    simpa [hact, Act.silent] using hsilent e he
  simpa [hact, Act.silent] using hsilent e he

/-- The row whose adapter an act asks to cancel. -/
def Act.cancelled? : Act → Option NodeExec
  | .cancel row => some row
  | _ => none

/-- A command that exceeds its own timeout is cancelled. -/
theorem hanging_command_cancelled :
    (∃ e ∈ (Call.runs (watched 1) (watching [1, 2]) .initial).log, ∃ row ∈ e.act.cancelled?,
      row.node_key = "build") ∧
      ∀ p ∈ Call.steps (watched 1) (watching [1, 2]) .initial,
        NeverAbandons (watched 1) p.2 p.1 ∧
          ∀ e ∈ (p.2.run (watched 1) p.1).log, NoEarlierAttempt e := by
  constructor
  · decide +kernel
  · apply live_units_cancelled
    have hlets : ((Call.steps (watched 1) (watching [1, 2]) .initial).all
      fun p => !p.2.lets_go p.1) = true := by
      decide +kernel
    intro p hp
    refine ⟨?_, by simpa using List.all_eq_true.mp hlets p hp⟩
    simp only [watching, List.map_cons, List.map_nil, Call.steps, List.mem_cons, List.not_mem_nil,
      or_false] at hp
    obtain rfl | rfl | rfl := hp
    · rfl
    · trivial
    · trivial

end taurus.engine.runner
