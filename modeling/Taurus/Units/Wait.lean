import Taurus.Engine.Schemas
import Taurus.Python.Float

namespace taurus.units

open taurus.lib taurus.python taurus.engine

def _MAX_DELAY_SECONDS : Int := 365 * 24 * 3600

def _EXPIRED_STRATEGY_VALUES : List String := ["execute_now", "skip", "fail"]

/-- `ValidationResult.add_error` -/
def add_error (r : ValidationResult) (field_ptr message : String) : ValidationResult where
  ok := false
  errors := Dict.set r.errors field_ptr (((Dict.get? r.errors field_ptr).getD []) ++ [message])

/-- Parse `HH:mm` or `HH:mm:ss`. -/
def _parse_daily_time (value : String) : Option (Int × Int × Int) :=
  if value = "" then none
  else
    let parts := splitOn ':' (strip value.toList)
    let parts := if parts.length = 2 then parts ++ [['0']] else parts
    match parts with
    | [h, m, s] => do
      let h ← int? h
      let m ← int? m
      let s ← int? s
      if 0 ≤ h ∧ h ≤ 23 ∧ 0 ≤ m ∧ m ≤ 59 ∧ 0 ≤ s ∧ s ≤ 59 then some (h, m, s) else none
    | _ => none

/-- A time of the day of `now`. -/
def scheduled_today (now : Time) (hms : Int × Int × Int) : Time :=
  now - now % Time.seconds 86400 + Time.seconds (hms.1 * 3600 + hms.2.1 * 60 + hms.2.2)

/-- The next occurrence of a time of the day. -/
def _compute_next_daily_wake_at (hms : Int × Int × Int) (now : Time) : Time :=
  let wake := scheduled_today now hms
  if wake ≤ now then wake + Time.seconds 86400 else wake

/-- A blank text counts as missing. -/
def unblank : Json → Json
  | .str s => if strip s.toList = [] then .null else .str s
  | v => v

/-- `params.get("wait_mode", "delay")`, when it is a text. -/
def wait_mode (params : Dict String Json) : Option String :=
  ((Dict.get? params "wait_mode").getD (.str "delay")).str?

def delay_seconds (params : Dict String Json) : Json := unblank (getJson params "delay_seconds")

def daily_time (params : Dict String Json) : Json := unblank (getJson params "daily_time")

/-- `params.get("expired_strategy", "execute_now")` -/
def expired_strategy (params : Dict String Json) : Json :=
  (Dict.get? params "expired_strategy").getD (.str "execute_now")

/-- `_parse_daily_time(str(daily_time))`; only a text can have the format. -/
def daily_hms : Json → Option (Int × Int × Int)
  | .str s => _parse_daily_time s
  | _ => none

/-- The number `validate_config` compares, with the errors on the way to it. -/
def numeric_delay (delay : Json) : ValidationResult × Option PyFloat :=
  let numeric := add_error {} "/params/delay_seconds" "E0201: delay_seconds must be numeric"
  match delay with
  | .bool b => (numeric, some (.finite (if b then 1 else 0)))
  | .int n => ({}, some (.finite n))
  | .float q => ({}, some (.finite q))
  | .str s =>
    match float? s.toList with
    | some f => ({}, some f)
    | none => (numeric, none)
  | .arr _ | .obj _ | .null => (numeric, none)

/-- The check of a fixed delay. -/
def validate_delay (delay : Json) : ValidationResult :=
  match delay with
  | .null => add_error {} "/params/delay_seconds" "E0201: delay_seconds is required"
  | delay =>
    let (r, number) := numeric_delay delay
    match number with
    | none => r
    | some d =>
      if d.le 0 then add_error r "/params/delay_seconds" "E0201: delay_seconds must be > 0"
      else if d.gt _MAX_DELAY_SECONDS then
        add_error r "/params/delay_seconds"
          s!"E0201: delay_seconds must not exceed {_MAX_DELAY_SECONDS} seconds (1 year)"
      else r

/-- The check of a daily time. The strategies of the message are a set, in any order. -/
def validate_daily (params : Dict String Json) : Except Exn ValidationResult :=
  let r : ValidationResult :=
    match daily_time params with
    | .null => add_error {} "/params/daily_time" "E0201: daily_time required, format HH:mm:ss"
    | v =>
      if (daily_hms v).isNone then
        add_error {} "/params/daily_time" "E0201: daily_time format invalid, HH:mm:ss (e.g. 02:00:00)"
      else {}
  let refused := add_error r "/params/expired_strategy"
    s!"E0201: expired_strategy must be in {_EXPIRED_STRATEGY_VALUES}"
  match expired_strategy params with
  | .str s => .ok (if _EXPIRED_STRATEGY_VALUES.contains s then r else refused)
  | .arr _ => .error (.other "TypeError" "unhashable type: 'list'")
  | .obj _ => .error (.other "TypeError" "unhashable type: 'dict'")
  | .null | .bool _ | .int _ | .float _ => .ok refused

namespace WaitAdapter

def validate_config (params : Dict String Json) : Except Exn ValidationResult :=
  if wait_mode params = some "daily_time" then validate_daily params
  else if wait_mode params = some "delay" then .ok (validate_delay (delay_seconds params))
  else .ok (add_error {} "/params/wait_mode" "E0201: Invalid wait_mode, must be delay/daily_time")

/-- `float(delay)` -/
def to_float : Json → Except Exn PyFloat
  | .bool b => .ok (.finite (if b then 1 else 0))
  | .int n => .ok (.finite n)
  | .float q => .ok (.finite q)
  | .str s =>
    match float? s.toList with
    | some f => .ok f
    | none => .error (.ValueError s!"could not convert string to float: '{s}'")
  | .arr _ =>
    .error (.other "TypeError" "float() argument must be a string or a real number, not 'list'")
  | .obj _ =>
    .error (.other "TypeError" "float() argument must be a string or a real number, not 'dict'")
  | .null =>
    .error (.other "TypeError" "float() argument must be a string or a real number, not 'NoneType'")

/-- `timedelta(seconds=f)`, in microseconds. -/
def timedelta : PyFloat → Except Exn Int
  | .finite q => .ok (round_half_even (q * 1000000))
  | .inf _ => .error (.other "OverflowError" "cannot convert float infinity to integer")
  | .nan => .error (.ValueError "cannot convert float NaN to integer")

def failed (message : String) : UnitOutput :=
  { status := .FAILED, error_message := some message, exit_code := some 1 }

/-- The `isoformat()` of a time in UTC. -/
def isoformat_utc (env : Env) (t : Time) : String := env.isoformat t ++ "+00:00"

/-- Start to wait for a time of the day. -/
def dispatch_daily (env : Env) (params : Dict String Json) : UnitOutput :=
  match daily_hms (daily_time params) with
  | none => failed "E0901: daily_time format invalid"
  | some hms =>
    let today := scheduled_today env.now hms
    if today ≤ env.now then
      let expired (strategy : String) : Dict String Json :=
        [("scheduled_time", .str (isoformat_utc env today)), ("expired", .bool true),
          ("expired_strategy", .str strategy)]
      if (expired_strategy params).str? = some "execute_now" then
        { status := .SUCCESS, output := expired "execute_now", exit_code := some 0 }
      else if (expired_strategy params).str? = some "skip" then
        { status := .SUCCESS, output := expired "skip" ++ [("skipped",
          .bool true)], exit_code := some 0 }
      else failed s!"E0901: Target time {isoformat_utc env today} passed, expired_strategy=fail"
    else
      let wake_at := .str (isoformat_utc env (_compute_next_daily_wake_at hms env.now))
      { status := .RUNNING
        adapter_state := some
          [("wake_at", wake_at), ("wait_mode", .str "daily_time"),
          ("daily_time", daily_time params)]
        output := [("wake_at", wake_at), ("daily_time", daily_time params)] }

/-- Start to wait for a fixed delay. -/
def dispatch_delay (env : Env) (delay : Json) : Except Exn UnitOutput :=
  let waited : Except Exn (PyFloat × Int) := do
    let f ← to_float delay
    let d ← timedelta f
    pure (f, d)
  match waited with
  | .error (.ValueError m) | .error (.other "TypeError" m) =>
    .ok (failed s!"E0901: delay_seconds calculation failed: {m}")
  | .error e => .error e
  | .ok (f, d) =>
    let wake_at := env.now + d
    if wake_at ≤ env.now then
      .ok { status := .SUCCESS
            output := [("waited", .bool false),
            ("reason", .str "Target time passed, no need to wait")]
            exit_code := some 0 }
    else
      let seconds : Json := match f with
        | .finite q => .float q
        | .inf _ | .nan => .null
      .ok { status := .RUNNING
            adapter_state := some [("wake_at", .str (env.isoformat wake_at)),
            ("wait_mode", .str "delay")]
            output := [("wake_at", .str (env.isoformat wake_at)), ("delay_seconds", seconds)] }

def dispatch (env : Env) (cfg : RenderedNodeConfig) : Except Exn UnitOutput :=
  if wait_mode cfg.params = some "daily_time" then .ok (dispatch_daily env cfg.params)
  else
    match delay_seconds cfg.params with
    | .null => .ok (failed "E0901: No wait parameters specified")
    | delay => dispatch_delay env delay

/-- A span of time in seconds. -/
def total_seconds (d : Int) : Json := .float ((d : Rat) / 1000000)

def poll (env : Env) (adapter_state : Dict String Json) : Except Exn UnitOutput :=
  if adapter_state = [] then .ok (failed "E0902: adapter_state missing")
  else if !(getJson adapter_state "wake_at").truthy then
    .ok (failed "E0902: adapter_state missing wake_at")
  else
    match getJson adapter_state "wake_at" with
    | .str text =>
      match env.parse_datetime text with
      | none => .ok (failed "E0902: wake_at parse failed")
      | some wake =>
        if wake ≤ env.now then
          .ok { status := .SUCCESS
                output := [("wake_at", .str text), ("woke_at", .str (env.isoformat env.now)),
                  ("overtime_seconds", total_seconds (max 0 (env.now - wake)))]
                exit_code := some 0 }
        else
          .ok { status := .RUNNING
                adapter_state := some adapter_state
                output := [("wake_at", .str text), ("remaining_seconds",
                  total_seconds (wake - env.now))] }
    | _ => .error (.other "TypeError" "expected string or bytes-like object")

def cancel : UnitOutput :=
  { status := .CANCELLED, output := [("cancelled", .bool true), ("reason", .str "Wait cancelled")] }

end WaitAdapter

/-- The adapter of wait nodes, as a call of the runner finds it. -/
def WaitAdapter (env : Env) : Adapter where
  node_type := "wait"
  requires_host := false
  construct := .ok ()
  validate_and_render := fun params context =>
    (env.render_structure context params).map fun params => { params := some params }
  validate_config := WaitAdapter.validate_config
  dispatch := WaitAdapter.dispatch env
  poll := fun _ => WaitAdapter.poll env
  cancel := fun _ _ => .ok WaitAdapter.cancel

end taurus.units
