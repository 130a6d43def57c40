import Taurus.Lib.Transition
import Taurus.Engine.Runner.Runs
import Taurus.Engine.Steps.Polled
import Taurus.Units.Wait

namespace taurus.units

open taurus.lib taurus.lib.Prog taurus.lib.transition taurus.python taurus.engine taurus.engine.executor
  taurus.engine.runner

variable {params : Dict String Json} {vr : ValidationResult}

@[simp] theorem add_error_ok (r : ValidationResult) (ptr message : String) :
    (add_error r ptr message).ok = false := rfl

/-- The number a valid delay has: NaN passes all comparisons. -/
inductive ValidDelay (delay : Json) : PyFloat → Prop
  | finite (q : Rat) (h : WaitAdapter.to_float delay = .ok (.finite q)) (hpos : 0 < q)
      (hmax : q ≤ _MAX_DELAY_SECONDS) : ValidDelay delay (.finite q)
  | nan (h : WaitAdapter.to_float delay = .ok .nan) : ValidDelay delay .nan

/-- What `validate_config` guarantees. -/
inductive Valid (params : Dict String Json) : Prop
  | daily (hmode : wait_mode params = some "daily_time") (hms : Int × Int × Int)
      (htime : daily_hms (daily_time params) = some hms) (s : String)
      (hstrategy : expired_strategy params = .str s)
      (hmem : s ∈ _EXPIRED_STRATEGY_VALUES) : Valid params
  | delay (hmode : wait_mode params = some "delay")
      (hpresent : delay_seconds params ≠ .null) (f : PyFloat)
      (hdelay : ValidDelay (delay_seconds params) f) : Valid params

/-- What the check of a daily wait ensures. -/
theorem validate_daily_ok (h : validate_daily params = .ok vr) (hok : vr.ok = true) :
    (∃ hms, daily_hms (daily_time params) = some hms) ∧
      ∃ s, expired_strategy params = .str s ∧ s ∈ _EXPIRED_STRATEGY_VALUES := by
  unfold validate_daily at h
  cases hstrategy : expired_strategy params with
  | str s =>
    simp only [hstrategy] at h
    obtain rfl := Except.ok.inj h
    by_cases hmem : s ∈ _EXPIRED_STRATEGY_VALUES
    · refine ⟨?_, s, rfl, hmem⟩
      rw [if_pos (by simpa using hmem)] at hok
      cases hdaily : daily_hms (daily_time params) with
      | some hms => exact ⟨hms, rfl⟩
      | none =>
        split at hok
        · cases hok
        · simp [hdaily] at hok
    · rw [if_neg (by simpa using hmem)] at hok
      cases hok
  | arr | obj => simp [hstrategy] at h
  | null | bool | int | float =>
    simp only [hstrategy] at h
    obtain rfl := Except.ok.inj h
    cases hok

/-- What the check of a delay ensures. -/
theorem validate_delay_ok {delay : Json} (hok : (validate_delay delay).ok = true) :
    delay ≠ .null ∧ ∃ f, ValidDelay delay f := by
  have hnull : delay ≠ .null := by
    rintro rfl
    cases hok
  refine ⟨hnull, ?_⟩
  have hcheck : ∀ (r : ValidationResult) (d : PyFloat), numeric_delay delay = (r, some d) →
      r.ok = true ∧ d.le 0 = false ∧ d.gt _MAX_DELAY_SECONDS = false := by
    intro r d hnumber
    unfold validate_delay at hok
    split at hok
    · exact absurd rfl hnull
    · simp only [hnumber] at hok
      split_ifs at hok with hle hgt
      · cases hok
      · cases hok
      · exact ⟨hok, by simpa using hle, by simpa using hgt⟩
  have hnone : ∀ r : ValidationResult, r.ok = false → numeric_delay delay ≠ (r, none) := by
    intro r hr hnumber
    unfold validate_delay at hok
    split at hok
    · exact absurd rfl hnull
    · simp only [hnumber, hr] at hok
      cases hok
  have hfinite : ∀ q : Rat, numeric_delay delay = ({}, some (.finite q)) →
      WaitAdapter.to_float delay = .ok (.finite q) → ∃ f, ValidDelay delay f := by
    intro q hnumber hfloat
    obtain ⟨_, hle, hgt⟩ := hcheck _ _ hnumber
    exact ⟨_, .finite q hfloat (by simpa [PyFloat.le] using hle) (by simpa [PyFloat.gt] using hgt)⟩
  cases delay with
  | null => exact absurd rfl hnull
  | bool b => cases (hcheck _ _ rfl).1
  | int n => exact hfinite n rfl rfl
  | float q => exact hfinite q rfl rfl
  | arr | obj => exact absurd rfl (hnone _ rfl)
  | str s =>
    cases hs : float? s.toList with
    | none => exact absurd (by simp [numeric_delay, hs]; rfl) (hnone _ rfl)
    | some f =>
      have hfloat : WaitAdapter.to_float (.str s) = .ok f := by simp [WaitAdapter.to_float, hs]
      have hnumber : numeric_delay (.str s) = ({}, some f) := by simp [numeric_delay, hs]
      cases f with
      | finite q => exact hfinite q hnumber hfloat
      | nan => exact ⟨_, .nan hfloat⟩
      | inf negative =>
        obtain ⟨_, hle, hgt⟩ := hcheck _ _ hnumber
        cases negative
        · cases hgt
        · cases hle

/-- What passes the check is valid. -/
theorem valid_of_validate_config (h : WaitAdapter.validate_config params = .ok vr)
    (hok : vr.ok = true) :
    Valid params := by
  unfold WaitAdapter.validate_config at h
  split_ifs at h with hdaily hdelay
  · obtain ⟨⟨hms, htime⟩, s, hs, hmem⟩ := validate_daily_ok h hok
    exact .daily hdaily hms htime s hs hmem
  · obtain rfl := Except.ok.inj h
    obtain ⟨hpresent, f, hf⟩ := validate_delay_ok hok
    exact .delay hdelay hpresent f hf
  · obtain rfl := Except.ok.inj h
    cases hok

/-- The time a wait that starts now is to end. -/
def wake_at (params : Dict String Json) (now : Time) : Option Time :=
  if wait_mode params = some "daily_time" then
    (daily_hms (daily_time params)).map (scheduled_today now)
  else
    match WaitAdapter.to_float (delay_seconds params) with
    | .ok (.finite q) => some (now + round_half_even (q * 1000000))
    | _ => none

/-- The delay is the text of a NaN. -/
def delay_is_nan (params : Dict String Json) : Bool :=
  match WaitAdapter.to_float (delay_seconds params) with
  | .ok .nan => wait_mode params = some "delay"
  | _ => false

/-- A workflow that is to fail when it comes too late for a time of the day. -/
def fails_expired (params : Dict String Json) : Bool :=
  wait_mode params = some "daily_time" ∧ (expired_strategy params).str? = some "fail"

/-- The text under which a wait stores its end. -/
def wake_text (env : Env) (params : Dict String Json) (wake : Time) : String :=
  if wait_mode params = some "daily_time" then
    WaitAdapter.isoformat_utc env wake
  else env.isoformat wake

/-- What the adapter answers when a valid wait is dispatched. -/
structure Started (env : Env) (params : Dict String Json) (wake : Time)
    (uo : UnitOutput) : Prop where
  passed : wake ≤ env.now → uo.status = .SUCCESS ∨
    (uo.status = .FAILED ∧ fails_expired params = true)
  ahead : env.now < wake → uo.status = .RUNNING ∧ ∃ state, uo.adapter_state = some state ∧
    getJson state "wake_at" = .str (wake_text env params wake) ∧
    getJson state "__backoff_sec__" = .null

/-- A valid daily wait starts. -/
theorem dispatch_daily_started {env : Env} {hms : Int × Int × Int} {s : String}
    (hmode : wait_mode params = some "daily_time")
    (htime : daily_hms (daily_time params) = some hms)
    (hstrategy : expired_strategy params = .str s) (hmem : s ∈ _EXPIRED_STRATEGY_VALUES) :
    Started env params (scheduled_today env.now hms) (WaitAdapter.dispatch_daily env params) := by
  unfold WaitAdapter.dispatch_daily
  simp only [htime, hstrategy, Json.str?, Option.some.injEq]
  constructor
  · intro hpassed
    rw [if_pos hpassed]
    split_ifs with hnow hskip
    · exact Or.inl rfl
    · exact Or.inl rfl
    · refine Or.inr ⟨rfl, ?_⟩
      simp [_EXPIRED_STRATEGY_VALUES, hnow, hskip] at hmem
      simp [fails_expired, hmode, hstrategy, Json.str?, hmem]
  · intro hahead
    have hnot : ¬ scheduled_today env.now hms ≤ env.now := not_le.mpr hahead
    rw [if_neg hnot]
    refine ⟨rfl, _, rfl, ?_, by simp [getJson, Dict.get?_cons]⟩
    simp [getJson, Dict.get?_cons, wake_text, hmode, _compute_next_daily_wake_at, hnot]

/-- A valid delay starts. -/
theorem dispatch_delay_started (env : Env) {q : Rat} (hmode : wait_mode params = some "delay")
    (hfloat : WaitAdapter.to_float (delay_seconds params) = .ok (.finite q)) :
    ∃ uo, WaitAdapter.dispatch_delay env (delay_seconds params) = .ok uo ∧
      Started env params (env.now + round_half_even (q * 1000000)) uo := by
  unfold WaitAdapter.dispatch_delay
  simp only [hfloat, WaitAdapter.timedelta, bind, Except.bind, pure, Except.pure]
  by_cases hpassed : env.now + round_half_even (q * 1000000) ≤ env.now
  · rw [if_pos hpassed]
    exact ⟨_, rfl, fun _ => Or.inl rfl, fun hahead => absurd hpassed (not_le.mpr hahead)⟩
  · rw [if_neg hpassed]
    refine ⟨_, rfl, fun h => absurd h hpassed,
      fun _ => ⟨rfl, _, rfl, ?_, by simp [getJson, Dict.get?_cons]⟩⟩
    simp [getJson, Dict.get?_cons, wake_text, hmode]

/-- A valid wait is dispatched for its end, unless its delay is a NaN. -/
theorem Valid.dispatch {cfg : RenderedNodeConfig} (h : Valid cfg.params) (env : Env) :
    (delay_is_nan cfg.params = false ∧ ∃ wake uo, wake_at cfg.params env.now = some wake ∧
      WaitAdapter.dispatch env cfg = .ok uo ∧ Started env cfg.params wake uo) ∨
    (delay_is_nan cfg.params = true ∧ ∃ uo, WaitAdapter.dispatch env cfg = .ok uo ∧
      uo.status = .FAILED) := by
  cases h with
  | daily hmode hms htime s hstrategy hmem =>
    refine Or.inl ⟨by unfold delay_is_nan; split <;> simp [hmode], scheduled_today env.now hms, _, ?_, ?_,
      dispatch_daily_started hmode htime hstrategy hmem⟩
    · simp [wake_at, hmode, htime]
    · simp [WaitAdapter.dispatch, hmode]
  | delay hmode hpresent f hdelay =>
    have hdispatch : WaitAdapter.dispatch env cfg =
        WaitAdapter.dispatch_delay env (delay_seconds cfg.params) := by
      unfold WaitAdapter.dispatch
      rw [if_neg (by simp [hmode])]
      split
      · rename_i heq
        exact absurd heq hpresent
      · rfl
    cases hdelay with
    | finite q hfloat hpos hmax =>
      obtain ⟨uo, huo, hstarted⟩ := dispatch_delay_started env hmode hfloat
      refine Or.inl ⟨by simp [delay_is_nan, hfloat], _, uo, ?_, hdispatch.trans huo, hstarted⟩
      simp [wake_at, hmode, hfloat]
    | nan hfloat =>
      have hfailed : ∃ uo, WaitAdapter.dispatch_delay env (delay_seconds cfg.params) = .ok uo ∧
          uo.status = .FAILED := by
        unfold WaitAdapter.dispatch_delay
        simp only [hfloat, WaitAdapter.timedelta, bind, Except.bind]
        exact ⟨_, rfl, rfl⟩
      rw [hdispatch]
      exact Or.inr ⟨by simp [delay_is_nan, hmode, hfloat], hfailed⟩

/-- The text of a time is read back as that time, whenever. -/
structure ReadBack (env : Time → Env) (text : String) (t : Time) : Prop where
  nonempty : text ≠ ""
  reads : ∀ now, (env now).parse_datetime text = some t

/-- The environments of the ticks of an execution, each at its time. -/
structure Clock (env : Time → Env) : Prop where
  now : ∀ t, (env t).now = t
  adapter : ∀ t, (env t).get_class "wait" = .ok (WaitAdapter (env t))

/-- A row that waits. -/
structure Waiting (env : Time → Env) (wake : Time) (r : NodeExec) : Prop where
  running : r.status = .RUNNING
  node_type : r.node_type = "wait"
  timeout_sec : r.timeout_sec = 0
  text : ∃ text, getJson r.adapter_state "wake_at" = .str text ∧ ReadBack env text wake
  backoff : ∃ n : Int, getJson r.adapter_state "__backoff_sec__" = .null ∨
    getJson r.adapter_state "__backoff_sec__" = .int n

/-- A poll at this time gets past the backoff. -/
def effective (env : Env) (r : NodeExec) : Bool :=
  match backoff_sec r with
  | .ok q => !backoffPending env r q
  | .error _ => false

/-- What the wait is to make of a tick: it goes on until its end, and is over with the
first effective poll from then on. -/
def Waits (env : Time → Env) (x : Execution) (wake : Time) (r : NodeExec) (t : Time) : Prop :=
  r.status = .RUNNING →
    (repolled (env t) x r).status = if wake ≤ t ∧
    effective (env t) r = true then .SUCCESS else .RUNNING

/-- The tick's poll keeps to the limits of the runner. -/
def InLimits (env : Time → Env) (r : NodeExec) (t : Time) : Prop :=
  r.status = .RUNNING → effective (env t) r = true →
    runsLongerThan (env t) r MAX_RUNTIME_SEC = false ∧ r.poll_count < MAX_POLL_ATTEMPTS

/-- A waiting row has a pause. -/
theorem Waiting.backoff_ok {env : Time → Env} {wake : Time} {r : NodeExec}
    (h : Waiting env wake r) :
    ∃ q, backoff_sec r = .ok q := by
  obtain ⟨n, hn | hn⟩ := h.backoff
  · exact ⟨_, by simp [backoff_sec, hn, Json.truthy, toFloat, Json.number?]; rfl⟩
  · refine ⟨.finite n, ?_⟩
    by_cases hzero : n = 0
    · simp [backoff_sec, hn, hzero, Json.truthy, toFloat, Json.number?]
    · simp [backoff_sec, hn, hzero, Json.truthy, toFloat, Json.number?]

/-- The answer of the adapter to a waiting row. -/
theorem Waiting.poll {env : Time → Env} {wake : Time} {r : NodeExec} (h : Waiting env wake r)
    (hclock : Clock env) (t : Time) :
    ∃ uo, WaitAdapter.poll (env t) r.adapter_state = .ok uo ∧
      (wake ≤ t → uo.status = .SUCCESS) ∧
      (t < wake → uo.status = .RUNNING ∧ uo.adapter_state = some r.adapter_state) := by
  obtain ⟨text, htext, hread⟩ := h.text
  have hne : r.adapter_state ≠ [] := by
    intro hnil
    simp [hnil, getJson] at htext
  have htruthy : (Json.str text).truthy = true := by simp [Json.truthy, hread.nonempty]
  unfold WaitAdapter.poll
  simp only [hne, if_false, htext, htruthy, Bool.not_true, Bool.false_eq_true,
    hread.reads, hclock.now]
  by_cases hwake : wake ≤ t
  · rw [if_pos hwake]
    exact ⟨_, rfl, fun _ => rfl, fun hlt => absurd hwake (not_le.mpr hlt)⟩
  · rw [if_neg hwake]
    exact ⟨_, rfl, fun hle => absurd hle hwake, fun _ => ⟨rfl, rfl⟩⟩

/-- A poll in the limits asks the adapter, one beyond them fails the row. -/
theorem Waiting.asks {env : Time → Env} {x : Execution} {wake : Time} {r : NodeExec}
    (h : Waiting env wake r) (hclock : Clock env) (t : Time)
    (heffective : effective (env t) r = true) :
    ((runsLongerThan (env t) r MAX_RUNTIME_SEC = false ∧ r.poll_count < MAX_POLL_ATTEMPTS) ∧
      ∃ uo, WaitAdapter.poll (env t) r.adapter_state = .ok uo ∧
        repolled (env t) x r = r.write (answered (env t) r uo).1 (env t).now
          (answered (env t) r uo).2) ∨
    (¬ (runsLongerThan (env t) r MAX_RUNTIME_SEC = false ∧ r.poll_count < MAX_POLL_ATTEMPTS) ∧
      (repolled (env t) x r).status = .FAILED) := by
  obtain ⟨q, hq⟩ := h.backoff_ok
  have hpending : backoffPending (env t) r q = false := by simpa [effective, hq] using heffective
  have hpolled := polled_of_effective (x := x) h.running hq hpending
  by_cases hlong : runsLongerThan (env t) r MAX_RUNTIME_SEC = true
  · rw [if_pos hlong] at hpolled
    exact Or.inr ⟨fun hin => absurd hin.1 (by simp [hlong]), repolled_of_failed hpolled⟩
  rw [if_neg hlong] at hpolled
  by_cases hmany : MAX_POLL_ATTEMPTS ≤ r.poll_count
  · rw [if_pos hmany] at hpolled
    exact Or.inr ⟨fun hin => absurd hin.2 (not_lt.mpr hmany), repolled_of_failed hpolled⟩
  · obtain ⟨uo, huo, _⟩ := h.poll hclock t
    have htimeout : ¬ (0 < r.timeout_sec ∧ runsLongerThan (env t) r r.timeout_sec = true) := by
      rw [h.timeout_sec]
      exact fun hpos => absurd hpos.1 (lt_irrefl _)
    have hadapter : adapter_polled (env t) x r = .ok (answered (env t) r uo) := by
      unfold adapter_polled
      simp only [h.node_type, hclock.adapter, WaitAdapter, huo]
    rw [if_neg hmany, if_neg htimeout, hadapter] at hpolled
    exact Or.inl ⟨⟨by simpa using hlong, not_le.mp hmany⟩, uo, huo, repolled_of_answered hpolled⟩

/-- The row that waits on after a poll. -/
theorem Waiting.goes_on {env : Time → Env} {wake : Time} {r : NodeExec} {e : Env} {uo : UnitOutput}
    (h : Waiting env wake r) (hstatus : uo.status = .RUNNING)
    (hstate : uo.adapter_state = some r.adapter_state) :
    Waiting env wake (r.write (answered e r uo).1 e.now (answered e r uo).2) := by
  have hgoes : (_apply_unit_output e r uo false).1.status = .RUNNING := by
    rw [apply_unit_output_status, h.running, hstatus]
    decide
  have hnew := write_answered_adapter_state hgoes
  rw [hstate, Option.getD_some] at hnew
  obtain ⟨text, htext, hread⟩ := h.text
  constructor
  · rw [write_answered_status h.running, hstatus]
    decide
  · exact h.node_type
  · exact h.timeout_sec
  · refine ⟨text, ?_, hread⟩
    rw [hnew]
    simpa [getJson, Dict.get?_set] using htext
  · refine ⟨next_backoff r.poll_count, Or.inr ?_⟩
    rw [hnew]
    simp [getJson]

/-- A tick makes of a waiting row what it is to if and only if its poll keeps to the limits,
and then the row waits on or is through. -/
theorem Waiting.tick {env : Time → Env} {x : Execution} {wake : Time} {r : NodeExec}
    (h : Waiting env wake r) (hclock : Clock env) (t : Time) :
    (Waits env x wake r t ↔ InLimits env r t) ∧
      (Waits env x wake r t → (repolled (env t) x r).status ≠ .RUNNING ∨
        Waiting env wake (repolled (env t) x r)) := by
  unfold Waits InLimits
  simp only [h.running, forall_const]
  by_cases heffective : effective (env t) r = true
  · obtain ⟨hin, uo, huo, hrow⟩ | ⟨hout, hfailed⟩ := h.asks (x := x) hclock t heffective
    · obtain ⟨uo', huo', hdone, hgoes⟩ := h.poll hclock t
      obtain rfl : uo = uo' := Except.ok.inj (huo.symm.trans huo')
      rw [hrow]
      simp only [write_answered_status h.running, heffective, and_true, forall_const, hin, iff_true]
      by_cases hwake : wake ≤ t
      · rw [if_pos hwake, hdone hwake]
        exact ⟨by decide, fun _ => Or.inl (by decide)⟩
      · obtain ⟨hstatus, hstate⟩ := hgoes (not_le.mp hwake)
        rw [if_neg hwake, hstatus]
        exact ⟨by decide, fun _ => Or.inr (h.goes_on hstatus hstate)⟩
    · rw [hfailed]
      have hne : ¬ Status.FAILED = if wake ≤ t ∧
          effective (env t) r = true then .SUCCESS else .RUNNING := by
        split_ifs <;> decide
      exact ⟨iff_of_false hne fun hin => hout (hin heffective), fun heq => absurd heq hne⟩
  · obtain ⟨q, hq⟩ := h.backoff_ok
    have hpending : backoffPending (env t) r q = true := by simpa [effective, hq] using heffective
    have hsame : repolled (env t) x r = r := by
      simp only [repolled, polled_of_pending (x := x) hq hpending, NodeExec.write_nil]
    rw [hsame, h.running, if_neg fun hin => heffective hin.2]
    exact ⟨iff_of_true rfl fun hin => absurd hin heffective, fun _ => Or.inr h⟩

/-- What a wait dispatched at `start` is to do: it is through at once when its end has passed,
and else waits in every tick. -/
def Completes (env : Time → Env) (x : Execution) (params : Dict String Json) (start : Time)
    (r : NodeExec) (times : List Time) : Prop :=
  match wake_at params start with
  | none => False
  | some wake =>
    if start < wake then
      r.status = .RUNNING ∧ Along (fun r t => repolled (env t) x r) (Waits env x wake) r times
    else r.status = .SUCCESS ∨ (r.status = .FAILED ∧ fails_expired params = true)

/-- The delay is a number, and the polls of a wait that has not ended keep to the limits. -/
def KeepsLimits (env : Time → Env) (x : Execution) (params : Dict String Json) (start : Time)
    (r : NodeExec) (times : List Time) : Prop :=
  delay_is_nan params = false ∧ ∀ wake, wake_at params start = some wake → start < wake →
    Along (fun r t => repolled (env t) x r) (InLimits env) r times

/-- A row that waits does so in all ticks if and only if their polls keep to the limits. -/
theorem Waiting.along {env : Time → Env} {x : Execution} {wake : Time} {r : NodeExec}
    (h : Waiting env wake r) (hclock : Clock env) (times : List Time) :
    Along (fun r t => repolled (env t) x r) (Waits env x wake) r times ↔
      Along (fun r t => repolled (env t) x r) (InLimits env) r times := by
  let J : NodeExec → Prop := fun r => r.status ≠ .RUNNING ∨ Waiting env wake r
  have hstep : ∀ r t, J r → Waits env x wake r t → J (repolled (env t) x r) := by
    rintro r t (hended | hwaiting) hwaits
    · rw [repolled_of_not_running hended]
      exact Or.inl hended
    · exact (hwaiting.tick hclock t).2 hwaits
  have hiff : ∀ r t, J r → (Waits env x wake r t ↔ InLimits env r t) := by
    rintro r t (hended | hwaiting)
    · exact iff_of_true (fun hrunning => absurd hrunning hended)
        (fun hrunning => absurd hrunning hended)
    · exact (hwaiting.tick hclock t).1
  exact Along.iff_of_invariant hstep hiff (Or.inr h)

/-- The row of a wait whose end lies ahead. -/
theorem Started.waiting {env : Time → Env} {params : Dict String Json} {start wake : Time}
    {uo : UnitOutput} (h : Started (env start) params wake uo) (row : NodeExec)
    (rendered : Dict String Json) (user_id : Option Int) (hclock : Clock env)
    (hahead : start < wake) (htype : row.node_type = "wait") (htimeout : row.timeout_sec = 0)
    (hread : ReadBack env (wake_text (env start) params wake) wake) :
    Waiting env wake (dispatched_row (env start) row rendered user_id uo) := by
  obtain ⟨hstatus, state, hstate, htext, hbackoff⟩ := h.ahead (by rwa [hclock.now])
  have hnew := @dispatched_row_adapter_state (env start) row uo rendered user_id state hstate
  constructor
  · rw [dispatched_row_status, hstatus]
    decide
  · exact htype
  · exact htimeout
  · rw [hnew]
    exact ⟨_, htext, hread⟩
  · rw [hnew]
    exact ⟨0, Or.inl hbackoff⟩

/-- A valid wait completes as it is to if and only if its delay is a number and its polls
keep to the limits of the runner. -/
theorem valid_wait_completes_iff (env : Time → Env) (hclock : Clock env) (x : Execution)
    (row : NodeExec) (htype : row.node_type = "wait") (htimeout : row.timeout_sec = 0)
    (user_id : Option Int) (cfg : RenderedNodeConfig) (vr : ValidationResult)
    (hvalidate : WaitAdapter.validate_config cfg.params = .ok vr) (hok : vr.ok = true)
    (start : Time) (hread : ∀ wake, wake_at cfg.params start = some wake →
      ReadBack env (wake_text (env start) cfg.params wake) wake)
    (uo : UnitOutput) (hdispatch : WaitAdapter.dispatch (env start) cfg = .ok uo)
    (times : List Time) :
    Completes env x cfg.params start (dispatched_row (env start) row cfg.params user_id uo) times ↔
      KeepsLimits env x cfg.params start
        (dispatched_row (env start) row cfg.params user_id uo) times := by
  have hnow := hclock.now start
  unfold Completes KeepsLimits
  rcases (valid_of_validate_config hvalidate hok).dispatch (env start) with
    ⟨hnumber, wake, uo', hwake, huo', hstarted⟩ | ⟨hnan, uo', huo', hfailed⟩
  · obtain rfl : uo = uo' := Except.ok.inj (hdispatch.symm.trans huo')
    rw [hnow] at hwake
    simp only [hwake, hnumber, true_and, Option.some.injEq, forall_eq']
    by_cases hahead : start < wake
    · have hwaiting :=
        hstarted.waiting row cfg.params user_id hclock hahead htype htimeout (hread wake hwake)
      rw [if_pos hahead, hwaiting.along hclock times]
      exact ⟨fun h _ => h.2, fun h => ⟨hwaiting.running, h hahead⟩⟩
    · rw [if_neg hahead]
      apply iff_of_true _ (fun h => absurd h hahead)
      rw [dispatched_row_status]
      obtain hdone | ⟨hexpired, hfails⟩ := hstarted.passed (by rw [hnow]; exact not_lt.mp hahead)
      · rw [hdone]
        exact Or.inl (by decide)
      · rw [hexpired]
        exact Or.inr ⟨by decide, hfails⟩
  · apply iff_of_false _ (fun h => by simp [hnan] at h)
    have hnone : wake_at cfg.params start = none := by
      unfold delay_is_nan at hnan
      split at hnan
      · rename_i hfloat
        have hmode : wait_mode cfg.params = some "delay" := by simpa using hnan
        simp [wake_at, hmode, hfloat]
      · cases hnan
    simp [hnone]

/-- Time `now` of a first day on which only waits run; its times are whole seconds of that day. -/
def clockwork (now : Time) : Env :=
  let clock : Env :=
    { get_class := fun node_type => .error (.other "AdapterNotFound" node_type)
      render_structure := fun _ params => .ok params
      isoformat := fun t =>
        let s := t / 1000000
        s!"1970-01-01T{twoDigits (s / 3600)}:{twoDigits (s / 60 % 60)}:{twoDigits (s % 60)}"
      parse_datetime := fun text => do
        let h ← digitsNat? ((text.toList.drop 11).take 2)
        let m ← digitsNat? ((text.toList.drop 14).take 2)
        let s ← digitsNat? ((text.toList.drop 17).take 2)
        pure (Time.seconds (3600 * h + 60 * m + s))
      now }
  { clock with get_class := fun _ => .ok (WaitAdapter clock) }

theorem clockwork_clock : Clock clockwork := ⟨fun _ => rfl, fun _ => rfl⟩

def waiting_execution : Execution := { pk := 1, status := .RUNNING, fail_strategy := "fail_fast" }

def wait_row : NodeExec :=
  { node_key := "pause", node_type := "wait", node_name := "pause", host_id := NO_HOST_SENTINEL,
    dispatch_id := "wfex-1-pause", attempt_no := 1, status := .PENDING, fail_strategy := "fail_fast" }

/-- The configuration of a wait of `delay` seconds. -/
def delayed (delay : Nat) : RenderedNodeConfig :=
  _build_rendered_cfg (clockwork 0) waiting_execution wait_row [("delay_seconds", .int delay)]

/-- The answer to its dispatch at time 0. -/
def delay_started (delay : Nat) : UnitOutput :=
  (WaitAdapter.dispatch (clockwork 0) (delayed delay)).toOption.getD default

theorem delay_started_eq {delay : Nat}
    (h : (WaitAdapter.dispatch (clockwork 0) (delayed delay)).toOption.isSome = true) :
    WaitAdapter.dispatch (clockwork 0) (delayed delay) = .ok (delay_started delay) := by
  unfold delay_started
  cases hanswer : WaitAdapter.dispatch (clockwork 0) (delayed delay) with
  | ok uo => rfl
  | error e =>
    rw [hanswer] at h
    cases h

/-- The row of a wait of `delay` seconds, dispatched at time 0. -/
def delayed_row (delay : Nat) : NodeExec :=
  dispatched_row (clockwork 0) wait_row (delayed delay).params none (delay_started delay)

theorem short_wait_completes :
    Completes clockwork waiting_execution (delayed 600).params 0 (delayed_row 600)
    [Time.seconds 30, Time.seconds 300, Time.seconds 630] := by
  apply (valid_wait_completes_iff clockwork clockwork_clock waiting_execution wait_row rfl rfl none
    (delayed 600)
    {} rfl rfl 0 _ (delay_started 600) _ _).mpr
  · refine ⟨by decide +kernel, fun _ _ _ => ⟨?_, ?_, ?_, trivial⟩⟩ <;> unfold InLimits <;> decide +kernel
  · have hwake : wake_at (delayed 600).params 0 = some (Time.seconds 600) := by decide +kernel
    rw [hwake]
    rintro wake heq
    obtain rfl := Option.some.inj heq
    have hreads : (clockwork 0).parse_datetime
      (wake_text (clockwork 0) (delayed 600).params (Time.seconds 600)) =
        some (Time.seconds 600) := by decide +kernel
    exact ⟨by decide +kernel, fun _ => hreads⟩
  · exact delay_started_eq (by decide +kernel)

/-- Three hours are a valid delay, but the runner gives up after two. -/
theorem long_wait_fails : WaitAdapter.validate_config (delayed 10800).params = .ok {} ∧
    ¬ Completes clockwork waiting_execution (delayed 10800).params 0 (delayed_row 10800)
      [Time.seconds 30, Time.seconds 7230] := by
  refine ⟨rfl, fun h => ?_⟩
  have hwake : wake_at (delayed 10800).params 0 = some (Time.seconds 10800) := by decide +kernel
  unfold Completes at h
  rw [hwake] at h
  have hwaits := h.2.2.1
  revert hwaits
  unfold Waits
  decide +kernel

end taurus.units
