import Mathlib.Data.Rat.Cast.Order
import Mathlib.Order.Monotone.Basic
import Taurus.Engine.Runner.Runs
import Taurus.Engine.Steps.Polled

namespace taurus.engine.runner

open taurus.lib taurus.lib.Prog taurus.python taurus.engine.executor

/-- A call of `_poll_one_row` on the stored row, with its surroundings. -/
structure PollCall where
  env : Env
  execution : Execution

def stored (pk : Nat) (w : World) : Option NodeExec := w.rows.find? fun r => decide (r.pk = pk)

/-- The row is loaded and polled. -/
def poll_stored (pk : Nat) (w : World) (c : PollCall) : World :=
  match stored pk w with
  | none => w
  | some row => (_poll_one_row c.env c.execution row w).2

def polls_stored (pk : Nat) (calls : List PollCall) (w : World) : World :=
  calls.foldl (poll_stored pk) w

section

variable (pk : Nat) (w : World) (calls : List PollCall)

/-- The adapter of a node type can be had in the call, and answers RUNNING. -/
def Answers (node_type : String) (c : PollCall) : Prop :=
  ∃ adapter, c.env.get_class node_type = .ok adapter ∧ adapter.construct = .ok () ∧
    ∀ cfg state, ∃ uo, adapter.poll cfg state = .ok uo ∧ uo.status = .RUNNING

def KeepsAnswering : Prop := ∀ row, stored pk w = some row → ∀ c ∈ calls, Answers row.node_type c

/-- A time that a call has written is read by every call as that time. -/
def ReadsTimes : Prop :=
  ∀ c ∈ calls, ∀ c' ∈ calls, c'.env.parse_datetime (c.env.isoformat c.env.now) = some c.env.now

/-- The call asks the adapter for the `n + 1`-th time. -/
def Polls (n : Nat) (c : PollCall) : Prop :=
  ∃ row row', stored pk w = some row ∧ stored pk (poll_stored pk w c) = some row' ∧
    row.poll_count = n ∧ row'.poll_count = n + 1

/-- The call ends the running row by its number of polls. -/
def FailsByCount (c : PollCall) : Prop :=
  ∃ row row', stored pk w = some row ∧ stored pk (poll_stored pk w c) = some row' ∧
    row.status = .RUNNING ∧ row'.status = .FAILED ∧ row'.error_message = some (E4401_polls row)

/-- From the first poll on the row has 5910 seconds, and calls within the backoff of a
poll leave it as it is. -/
structure PollsPaced : Prop where
  failure : ∀ earlier first between last later,
    calls = earlier ++ first :: (between ++ last :: later) →
    Polls pk (polls_stored pk earlier w) 0 first →
    FailsByCount pk (polls_stored pk (earlier ++ first :: between) w) last →
    first.env.now + Time.seconds 5910 ≤ last.env.now
  quiet : ∀ earlier c early later n, calls = earlier ++ c :: (early ++ later) →
    Polls pk (polls_stored pk earlier w) n c →
    (∀ c' ∈ early, c'.env.now < c.env.now + Time.seconds (min (2 * 2 ^ n) 30 : Nat)) →
    stored pk (polls_stored pk (earlier ++ c :: early) w) =
      stored pk (polls_stored pk (earlier ++ [c]) w)

end

/-- The seconds that the first `n` backoffs take. -/
def waited : Nat → Nat
  | 0 => 0
  | n + 1 => waited n + next_backoff n

section

variable {pk : Nat} {w : World} {calls : List PollCall} {c : PollCall} {env : Env} {x : Execution}
  {row : NodeExec}
  {uo : UnitOutput}

/-- More polls have waited longer. -/
theorem waited_mono : Monotone waited := monotone_nat_of_le_succ fun _ => Nat.le_add_right _ _

/-- The seconds waited through all polls allowed. -/
theorem waited_attempts : waited MAX_POLL_ATTEMPTS = 5910 := by decide +kernel

/-- A poll rewrites the stored row and no other. -/
theorem poll_one_row_rows (hrow : row ∈ w.rows) :
    (_poll_one_row env x row w).2.rows = w.rows.map fun r => if r.pk =
      row.pk then repolled env x r else r := by
  have hmap : ∀ new, repolled env x row = new →
    (w.rows.map fun r => if r.pk = row.pk then repolled env x r else r) =
      w.rows.map fun r => if r.pk = row.pk then new else r := by
    rintro _ rfl
    refine List.map_congr_left fun r hr => ?_
    split_ifs with hsame
    · rw [w.table.eq_of_pk hr hrow hsame]
    · rfl
  cases hpolled : polled env x row with
  | ok p =>
    obtain ⟨log, hres⟩ := poll_one_row_ok (w := w) hpolled
    have hpk : p.1.pk = row.pk := (polled_sameIdentity hpolled).pk
    rw [hmap (row.write p.1 env.now p.2) (by rw [repolled, hpolled]), hres]
    refine (Table.save_rows _ _ _ _).trans (List.map_congr_left fun r hr => ?_)
    rw [hpk]
    split_ifs with hsame
    · rw [w.table.eq_of_pk hr hrow hsame]
    · rfl
  | error e =>
    have hrows : (_poll_one_row env x row w).2.rows = w.rows := by
      have hto := poll_one_row_to env x row w
      rw [hpolled] at hto
      generalize _poll_one_row env x row w = res at hto ⊢
      cases hto with
      | raised _ log => rfl
    rw [hmap row (by rw [repolled, hpolled]), hrows]
    refine (List.map_id _).symm.trans (List.map_congr_left fun r hr => ?_)
    split_ifs with hsame
    · exact w.table.eq_of_pk hr hrow hsame
    · rfl

/-- A poll of the stored row is a poll of what was stored. -/
theorem stored_poll_stored :
    stored pk (poll_stored pk w c) = (stored pk w).map (repolled c.env c.execution) := by
  cases hrow : stored pk w with
  | none =>
    rw [poll_stored, hrow]
    exact hrow
  | some row =>
    have hmem : row ∈ w.rows := List.mem_of_find?_eq_some hrow
    have hpk : row.pk = pk := by simpa using List.find?_some hrow
    rw [poll_stored, hrow]
    simp only [stored]
    rw [poll_one_row_rows hmem, List.find?_map]
    have hsame : ((fun r : NodeExec => decide (r.pk = pk)) ∘ fun r =>
        if r.pk = row.pk then repolled c.env c.execution r else r) = fun r =>
          decide (r.pk = pk) := by
      funext r
      simp only [Function.comp_apply]
      split_ifs with h
      · rw [(repolled_sameIdentity c.env c.execution r).pk]
      · rfl
    rw [hsame, ← stored, hrow]
    simp

theorem prefix_append_text {p : List Char} {s : String} (t : String) (h : p <+: s.toList) :
    p <+: (s ++ t).toList := by
  rw [String.toList_append]
  exact h.trans (List.prefix_append _ _)

theorem E4401_polls_start : "E4401: P".toList <+: (E4401_polls row).toList := by
  unfold E4401_polls
  iterate 5 refine prefix_append_text _ ?_
  decide +kernel

/-- The two texts of E4401 differ. -/
theorem E4401_runtime_ne : E4401_runtime env row ≠ E4401_polls row := by
  have hstart : "E4401: N".toList <+: (E4401_runtime env row).toList := by
    unfold E4401_runtime
    iterate 5 refine prefix_append_text _ ?_
    decide +kernel
  intro h
  have hsame := List.prefix_or_prefix_of_prefix (h ▸ hstart) (@E4401_polls_start row)
  revert hsame
  decide +kernel

theorem E4402_ne : E4402 env row ≠ E4401_polls row := by
  have hstart : "E4402: N".toList <+: (E4402 env row).toList := by
    unfold E4402
    iterate 4 refine prefix_append_text _ ?_
    decide +kernel
  intro h
  have hsame := List.prefix_or_prefix_of_prefix (h ▸ hstart) (@E4401_polls_start row)
  revert hsame
  decide +kernel

/-- Only the polls with no answer but RUNNING are left. -/
theorem repolled_running (hrunning : row.status = .RUNNING)
    (hanswers : Answers row.node_type ⟨env, x⟩) :
    repolled env x row = row ∨ ∃ q, backoff_sec row = .ok q ∧ backoffPending env row q = false ∧
      ((∃ message, repolled env x row = row.write (failed_row env row message) env.now failFields ∧
        (message = E4401_polls row → MAX_POLL_ATTEMPTS ≤ row.poll_count)) ∨
      ∃ uo, uo.status = .RUNNING ∧
        repolled env x row = row.write (answered env row uo).1 env.now
          (answered env row uo).2) := by
  obtain ⟨adapter, hclass, hconstruct, hpoll⟩ := hanswers
  change env.get_class row.node_type = .ok adapter at hclass
  cases hq : backoff_sec row with
  | error e =>
    left
    simp [repolled, polled, hrunning, hq]
  | ok q =>
    cases hpending : backoffPending env row q with
    | true =>
      left
      rw [repolled, polled_of_pending hq hpending]
      exact row.write_nil _ _
    | false =>
      refine Or.inr ⟨q, rfl, hpending, ?_⟩
      have hpolled := polled_of_effective (x := x) hrunning hq hpending
      split_ifs at hpolled with hruntime hcount htimeout
      · exact Or.inl ⟨_, by rw [repolled, hpolled], fun h => absurd h E4401_runtime_ne⟩
      · exact Or.inl ⟨_, by rw [repolled, hpolled], fun _ => hcount⟩
      · exact Or.inl ⟨_, by rw [repolled, hpolled], fun h => absurd h E4402_ne⟩
      · obtain ⟨uo, huo, hstatus⟩ :=
          hpoll (_build_rendered_cfg env x row row.rendered_params) row.adapter_state
        have hanswered : adapter_polled env x row = .ok (answered env row uo) := by
          unfold adapter_polled
          simp only [hclass, hconstruct, huo]
        exact Or.inr ⟨uo, hstatus, repolled_of_answered (hpolled.trans hanswered)⟩

/-- An answer counts as a poll. -/
theorem write_answered_poll_count (uo : UnitOutput) :
    (row.write (answered env row uo).1 env.now (answered env row uo).2).poll_count =
      row.poll_count + 1 := by
  have hfield : Field.poll_count ∈ (_apply_unit_output env row uo false).2 := by
    simp [_apply_unit_output, mem_assign_snd]
  have hcount : (_apply_unit_output env row uo false).1.poll_count = row.poll_count + 1 := by
    simp [_apply_unit_output, assign]
  unfold answered
  by_cases hgoes : (_apply_unit_output env row uo false).1.status = .RUNNING
  · simp only [hgoes, if_true]
    split_ifs <;> simp [NodeExec.write, hfield, hcount]
  · simp only [hgoes, if_false]
    simp [NodeExec.write, hfield, hcount]

/-- The row was last polled by some call, for the `n`-th time, and its backoff is
that of this poll. -/
structure LastPolled (calls : List PollCall) (n : Nat) (c : PollCall) (row : NodeExec) : Prop where
  running : row.status = .RUNNING
  poll_count : row.poll_count = n + 1
  mem : c ∈ calls
  backoff : getJson row.adapter_state "__backoff_sec__" = .int (next_backoff n)
  time : getJson row.adapter_state "__last_poll_ts__" = .str (c.env.isoformat c.env.now)

theorem lastPolled_of_answered (hrunning : row.status = .RUNNING) (hanswer : uo.status = .RUNNING)
    (hc : c ∈ calls) :
    LastPolled calls row.poll_count c
      (row.write (answered c.env row uo).1 c.env.now (answered c.env row uo).2) := by
  have hgoes : (_apply_unit_output c.env row uo false).1.status = .RUNNING := by
    rw [apply_unit_output_status, hrunning, hanswer]
    decide
  have hstate := @write_answered_adapter_state c.env _ _ hgoes
  refine ⟨?_, write_answered_poll_count uo, hc, ?_, ?_⟩
  · rw [write_answered_status hrunning, hanswer]
    decide
  · rw [hstate, getJson, Dict.get?_set_ne _ _ (by decide), Dict.get?_set_ne _ _ (by decide),
      Dict.get?_set_self]
    rfl
  · rw [hstate, getJson, Dict.get?_set_self]
    rfl

/-- Some time passes before the next poll. -/
theorem next_backoff_pos (n : Nat) : 0 < next_backoff n := by
  have hpow : 0 < 2 ^ n := Nat.pow_pos (by decide)
  unfold next_backoff POLL_BACKOFF_INITIAL_SEC POLL_BACKOFF_MAX_SEC
  omega

/-- The pause after the last poll is the one it set. -/
theorem LastPolled.backoff_sec {n : Nat} (h : LastPolled calls n c row) :
    backoff_sec row = .ok (.finite (next_backoff n)) := by
  have hne : next_backoff n ≠ 0 := (next_backoff_pos n).ne'
  unfold runner.backoff_sec
  simp [h.backoff, Json.truthy, hne, toFloat, Json.number?]

theorem seconds_lt_iff (d : Int) (b : Nat) :
    (d : Rat) / 1000000 < (b : Rat) ↔ d < (b : Int) * 1000000 := by
  rw [div_lt_iff₀ (by decide), ← Int.cast_natCast b, ← Int.cast_lt (R := Rat), Int.cast_mul]
  rfl

/-- Such a row is left alone until its backoff has passed. -/
theorem LastPolled.pending_iff {n : Nat} (h : LastPolled calls n c row)
    (hreads : env.parse_datetime (c.env.isoformat c.env.now) = some c.env.now) :
    backoffPending env row (.finite (next_backoff n)) = true ↔
      env.now < c.env.now + Time.seconds (next_backoff n) := by
  have htime : last_poll_ts env row = some c.env.now := by
    simp [last_poll_ts, h.time, hreads]
  have hpos : (0 : Rat) < (next_backoff n : Rat) := Nat.cast_pos.mpr (next_backoff_pos n)
  unfold backoffPending
  rw [htime]
  simp only [PyFloat.gt, hpos, decide_true, Bool.true_and, Option.any_some, decide_eq_true_eq,
    seconds_lt_iff, Time.seconds]
  exact sub_lt_iff_lt_add'

/-- A call on such a row changes nothing, fails it once its backoff has passed, or is
the next poll. -/
theorem LastPolled.step {n : Nat} {c' : PollCall} (h : LastPolled calls n c row)
    (hanswers : Answers row.node_type c') (hc' : c' ∈ calls)
    (hreads : c'.env.parse_datetime (c.env.isoformat c.env.now) = some c.env.now) :
    repolled c'.env c'.execution row = row ∨
      c.env.now + Time.seconds (next_backoff n) ≤ c'.env.now ∧
      (((repolled c'.env c'.execution row).status = .FAILED ∧
        ((repolled c'.env c'.execution row).error_message = some (E4401_polls row) →
          MAX_POLL_ATTEMPTS ≤ row.poll_count)) ∨
      LastPolled calls (n + 1) c' (repolled c'.env c'.execution row)) := by
  obtain hsame | ⟨q, hq, hpending, hend⟩ := repolled_running h.running hanswers
  · exact Or.inl hsame
  rw [h.backoff_sec] at hq
  obtain rfl := Except.ok.inj hq
  refine Or.inr ⟨?_, ?_⟩
  · rw [← not_lt, ← h.pending_iff hreads, hpending]
    exact Bool.false_ne_true
  obtain ⟨message, hfailed, hmessage⟩ | ⟨uo, hanswer, hanswered⟩ := hend
  · left
    rw [hfailed]
    refine ⟨rfl, fun htext => hmessage ?_⟩
    exact Option.some.inj htext
  · right
    rw [hanswered, ← h.poll_count]
    exact lastPolled_of_answered h.running hanswer hc'

/-- The row after some calls. -/
def polled_through (calls : List PollCall) (row : NodeExec) : NodeExec :=
  calls.foldl (fun row c => repolled c.env c.execution row) row

/-- The stored row after all calls is the row polled through them. -/
theorem stored_polls_stored :
    stored pk (polls_stored pk calls w) = (stored pk w).map (polled_through calls) := by
  induction calls generalizing w with
  | nil =>
    have hid : polled_through [] = id := rfl
    rw [hid, Option.map_id]
    rfl
  | cons c rest ih =>
    change stored pk (polls_stored pk rest (poll_stored pk w c)) = _
    rw [ih, stored_poll_stored, Option.map_map]
    rfl

theorem polled_through_node_type (calls : List PollCall) (row : NodeExec) :
    (polled_through calls row).node_type = row.node_type := by
  induction calls generalizing row with
  | nil => rfl
  | cons c rest ih => exact (ih _).trans (repolled_sameIdentity c.env c.execution row).node_type

/-- Once the row has ended, or while it still has time, the calls keep it so. -/
def Paced (calls : List PollCall) (start : Time) (row : NodeExec) : Prop :=
  row.status = .RUNNING → ∃ n c, LastPolled calls n c row ∧
  start + Time.seconds (waited n) ≤ c.env.now

/-- A call keeps the row paced. -/
theorem Paced.step {start : Time} (h : Paced calls start row) (hanswers : Answers row.node_type c)
    (hc : c ∈ calls) (hreads : ReadsTimes calls) :
    Paced calls start (repolled c.env c.execution row) := by
  by_cases hrunning : row.status = .RUNNING
  · obtain ⟨n, c', hlast, htime⟩ := h hrunning
    obtain hsame | ⟨hpassed, ⟨hfailed, -⟩ | hnext⟩ :=
      hlast.step hanswers hc (hreads c' hlast.mem c hc)
    · rw [hsame]
      exact h
    · intro hstill
      rw [hfailed] at hstill
      cases hstill
    · have hsum : Time.seconds (waited (n + 1) : Nat) =
          Time.seconds (waited n) + Time.seconds (next_backoff n) := by
        rw [waited, Time.seconds, Nat.cast_add, add_mul]
        rfl
      refine fun _ => ⟨n + 1, c, hnext, ?_⟩
      rw [hsum, ← add_assoc]
      exact le_trans (add_le_add_left htime _) hpassed
  · rw [repolled_of_not_running hrunning]
    exact h

theorem Paced.through {start : Time} {later : List PollCall} (h : Paced calls start row)
    (hanswers : ∀ c ∈ calls, Answers row.node_type c) (hlater : ∀ c ∈ later, c ∈ calls)
    (hreads : ReadsTimes calls) :
    Paced calls start (polled_through later row) := by
  induction later generalizing row with
  | nil => exact h
  | cons c rest ih =>
    have hc := hlater c List.mem_cons_self
    refine ih (h.step (hanswers c hc) hc hreads) (fun c' hc' => ?_) fun c' hc' =>
      hlater c' (List.mem_cons_of_mem _ hc')
    rw [(repolled_sameIdentity c.env c.execution row).node_type]
    exact hanswers c' hc'

/-- A call that counts a poll was answered. -/
theorem lastPolled_of_counted (hanswers : Answers row.node_type c) (hc : c ∈ calls)
    (hcounted : (repolled c.env c.execution row).poll_count = row.poll_count + 1) :
    LastPolled calls row.poll_count c (repolled c.env c.execution row) := by
  have hunchanged : (repolled c.env c.execution row).poll_count ≠ row.poll_count := by omega
  by_cases hrunning : row.status = .RUNNING
  · obtain hsame | ⟨q, -, -, ⟨message, hfailed, -⟩ | ⟨uo, hanswer, hanswered⟩⟩ :=
      repolled_running hrunning hanswers
    · rw [hsame] at hunchanged
      exact absurd rfl hunchanged
    · rw [hfailed] at hunchanged
      exact absurd rfl hunchanged
    · rw [hanswered]
      exact lastPolled_of_answered hrunning hanswer hc
  · rw [repolled_of_not_running hrunning] at hunchanged
    exact absurd rfl hunchanged

/-- Calls within the backoff of the last poll. -/
theorem LastPolled.through {n : Nat} {early : List PollCall} (h : LastPolled calls n c row)
    (hanswers : ∀ c ∈ calls, Answers row.node_type c) (hearly : ∀ c' ∈ early, c' ∈ calls)
    (hreads : ReadsTimes calls)
    (hwithin : ∀ c' ∈ early, c'.env.now < c.env.now + Time.seconds (next_backoff n)) :
    polled_through early row = row := by
  induction early with
  | nil => rfl
  | cons c' rest ih =>
    have hc' := hearly c' List.mem_cons_self
    have hsame : repolled c'.env c'.execution row = row := by
      obtain hsame | ⟨hpassed, -⟩ := h.step (hanswers c' hc') hc' (hreads c h.mem c' hc')
      · exact hsame
      · exact absurd (hwithin c' List.mem_cons_self) (not_lt.mpr hpassed)
    change polled_through rest (repolled c'.env c'.execution row) = row
    rw [hsame]
    exact ih (fun d hd => hearly d (List.mem_cons_of_mem _ hd)) fun d hd =>
      hwithin d (List.mem_cons_of_mem _ hd)

/-- A row fails by its polls no earlier than its first 200 backoffs allow. -/
theorem Paced.failure {start : Time} (h : Paced calls start row)
    (hanswers : Answers row.node_type c) (hc : c ∈ calls) (hreads : ReadsTimes calls)
    (hrunning : row.status = .RUNNING) (hfailed : (repolled c.env c.execution row).status = .FAILED)
    (hmessage : (repolled c.env c.execution row).error_message = some (E4401_polls row)) :
    start + Time.seconds 5910 ≤ c.env.now := by
  obtain ⟨n, c', hlast, htime⟩ := h hrunning
  obtain hsame | ⟨hpassed, ⟨-, hcount⟩ | hnext⟩ := hlast.step hanswers hc (hreads c' hlast.mem c hc)
  · rw [hsame, hrunning] at hfailed
    cases hfailed
  · have hattempts := hcount hmessage
    rw [hlast.poll_count] at hattempts
    have hwaited : (5910 : Int) ≤ (waited n + next_backoff n : Nat) := by
      have hmono := waited_mono hattempts
      rw [waited_attempts] at hmono
      exact_mod_cast hmono
    have hsum : Time.seconds 5910 ≤ Time.seconds (waited n) + Time.seconds (next_backoff n) := by
      unfold Time.seconds
      rw [← add_mul, ← Nat.cast_add]
      exact Int.mul_le_mul_of_nonneg_right hwaited (by decide)
    refine le_trans (add_le_add_right hsum start) ?_
    rw [← add_assoc]
    exact le_trans (add_le_add_left htime _) hpassed
  · rw [hnext.running] at hfailed
    cases hfailed

/-- Calls may be taken in two parts. -/
theorem polls_stored_append (earlier later : List PollCall) :
    polls_stored pk (earlier ++ later) w = polls_stored pk later (polls_stored pk earlier w) :=
  List.foldl_append

/-- Refreshing as often as one likes does not use up the polls of a row whose adapter
keeps answering RUNNING: the calls count only after each backoff, and the 200
backoffs take 5910 seconds. -/
theorem polls_paced (hanswers : KeepsAnswering pk w calls) (hreads : ReadsTimes calls) :
    PollsPaced pk w calls := by
  have hrow : ∀ {earlier row}, stored pk (polls_stored pk earlier w) = some row →
      ∀ c ∈ calls, Answers row.node_type c := by
    intro earlier row hrow c hc
    rw [stored_polls_stored, Option.map_eq_some_iff] at hrow
    obtain ⟨loaded, hloaded, rfl⟩ := hrow
    rw [polled_through_node_type]
    exact hanswers loaded hloaded c hc
  constructor
  · rintro earlier first between last later rfl ⟨row, row', hstored, hstored', hcount, hcount'⟩
      ⟨lastrow, failed, hlast, hfailed, hrunning, hstatus, hmessage⟩
    have hfirst : first ∈ earlier ++ first :: (between ++ last :: later) := by simp
    have hmem : last ∈ earlier ++ first :: (between ++ last :: later) := by simp
    rw [stored_poll_stored, hstored, Option.map_some, Option.some.injEq] at hstored'
    rw [stored_poll_stored, hlast, Option.map_some, Option.some.injEq] at hfailed
    subst hstored'
    subst hfailed
    have hpaced : Paced (earlier ++ first :: (between ++ last :: later)) first.env.now
        (repolled first.env first.execution row) := by
      have hlastpolled :=
        lastPolled_of_counted (hrow hstored first hfirst) hfirst (by rw [hcount', hcount])
      refine fun _ => ⟨row.poll_count, first, hlastpolled, ?_⟩
      rw [hcount]
      simp [waited, Time.seconds]
    have hlastrow : lastrow = polled_through between (repolled first.env first.execution row) := by
      rw [polls_stored_append, stored_polls_stored, hstored] at hlast
      exact (Option.some.inj hlast).symm
    refine Paced.failure ?_ (hrow hlast last hmem) hmem hreads hrunning hstatus hmessage
    rw [hlastrow]
    refine hpaced.through (fun c hc => ?_) (fun c hc => by simp [hc]) hreads
    rw [(repolled_sameIdentity _ _ _).node_type]
    exact hrow hstored c hc
  · rintro earlier c early later n rfl ⟨row, row', hstored, hstored', hcount, hcount'⟩ hwithin
    have hc : c ∈ earlier ++ c :: (early ++ later) := by simp
    rw [stored_poll_stored, hstored, Option.map_some, Option.some.injEq] at hstored'
    subst hstored'
    have hlastpolled := lastPolled_of_counted (hrow hstored c hc) hc (by rw [hcount', hcount])
    have hafter : ∀ rest, stored pk (polls_stored pk (earlier ++ c :: rest) w) =
        some (polled_through rest (repolled c.env c.execution row)) := by
      intro rest
      rw [polls_stored_append, stored_polls_stored, hstored]
      rfl
    have hsame : polled_through early (repolled c.env c.execution row) =
        repolled c.env c.execution row := by
      refine hlastpolled.through (fun c' hc' => ?_) (fun c' hc' => by simp [hc']) hreads ?_
      · rw [(repolled_sameIdentity _ _ _).node_type]
        exact hrow hstored c' hc'
      · rw [hcount]
        exact hwithin
    rw [hafter, hafter, hsame]
    rfl

end

/-- A command that has just been dispatched. -/
def command_row : NodeExec where
  pk := 1
  node_key := "build"
  node_type := "command"
  node_name := "build"
  host_id := NO_HOST_SENTINEL
  dispatch_id := "wfex-1-build"
  attempt_no := 1
  status := .RUNNING
  fail_strategy := "fail_fast"

def dispatched_command : World where
  execution := none
  table :=
    { rows := [command_row]
      next_pk := 2
      pk_nodup := by decide
      pk_lt := by decide
      attempt_nodup := by decide
      dispatch_nodup := by decide }
  log := []

/-- Polls of a command that runs on, in some minute. -/
def hanging_poll (minute : Int) : PollCall where
  env := scripted minute (fun _ _ => running) fun _ _ => running
  execution := { pk := 1, status := .RUNNING, fail_strategy := "fail_fast" }

/-- Two polls, and a refresh with the second. -/
theorem hanging_polls_paced :
    PollsPaced 1 dispatched_command [hanging_poll 0, hanging_poll 1, hanging_poll 1] := by
  apply polls_paced
  · intro row hrow c hc
    have hpoll : ∃ minute, c = hanging_poll minute := by
      simp only [List.mem_cons, List.not_mem_nil, or_false] at hc
      rcases hc with rfl | rfl | rfl <;> exact ⟨_, rfl⟩
    obtain ⟨minute, rfl⟩ := hpoll
    exact ⟨_, rfl, rfl, fun _ _ => ⟨running, rfl, rfl⟩⟩
  · unfold ReadsTimes
    decide +kernel

end taurus.engine.runner
