import Taurus.Engine.Runner.World

namespace taurus.engine.runner

open taurus.lib taurus.lib.Prog taurus.python taurus.engine.executor

/-- One assignment of `_apply_unit_output`: a changed row with the column it changed. -/
def assign (wanted : Bool) (f : Field) (change : NodeExec → NodeExec)
    (x : NodeExec × List Field) : NodeExec × List Field :=
  if wanted then (change x.1, x.2 ++ [f]) else x

/-- The status a row takes from an adapter's answer: an invalid move keeps it. -/
def nextStatus (current target : Status) : Status :=
  match transition_status current target with
  | .ok s => s
  | .error _ => current

def duration_ms (started finished : Option Time) : Option Int :=
  match started, finished with
  | some s, some f => some (max 0 ((f - s) / 1000))
  | _, _ => none

/-- Flush an adapter's answer into a row: the row and its `update_fields`.
`initial` is the answer of dispatch. -/
def _apply_unit_output (env : Env) (row : NodeExec) (uo : UnitOutput) (initial : Bool) :
    NodeExec × List Field :=
  let new_status := nextStatus row.status uo.status
  let x :=
    assign (new_status ≠ row.status) .status (fun r => { r with status := new_status }) (row, [])
  let x := assign uo.adapter_state.isSome .adapter_state
    (fun r => { r with adapter_state := uo.adapter_state.getD [] }) x
  let x := assign (!uo.output.isEmpty) .output (fun r => { r with output := uo.output }) x
  let x := assign (uo.output_refs.any (!·.isEmpty)) .output_refs
    (fun r => { r with output_refs := uo.output_refs.getD [] }) x
  let x := assign uo.exit_code.isSome .exit_code (fun r => { r with exit_code := uo.exit_code }) x
  let x := assign uo.error_message.isSome .error_message
    (fun r => { r with error_message := uo.error_message }) x
  let ends := new_status.terminal && row.finished_at.isNone
  let x := assign ends .finished_at (fun r => { r with finished_at := some env.now }) x
  let x := assign (ends && row.started_at.isSome) .duration_ms
    (fun r => { r with duration_ms := duration_ms row.started_at (some env.now) }) x
  let x := assign (!initial) .poll_count (fun r => { r with poll_count := row.poll_count + 1 }) x
  (x.1, x.2 ++ [.update_datetime])

def MAX_POLL_ATTEMPTS : Nat := 200
def MAX_RUNTIME_SEC : Nat := 7200
def POLL_BACKOFF_INITIAL_SEC : Nat := 2
def POLL_BACKOFF_MAX_SEC : Nat := 30

/-- `float(v)`; other values than numbers and numeric strings raise. -/
def toFloat (v : Json) : Except Exn PyFloat :=
  match v.number? with
  | some q => .ok (.finite q)
  | none =>
    match v with
    | .str s =>
      match float? s.toList with
      | some f => .ok f
      | none => .error (.ValueError "could not convert string to float")
    | _ => .error (.other "TypeError" "float() argument must be a string or a real number")

/-- The time of the last poll: the recorded one, else the row's last update. -/
def last_poll_ts (env : Env) (row : NodeExec) : Option Time :=
  match getJson row.adapter_state "__last_poll_ts__" with
  | .str s => (env.parse_datetime s).or row.update_datetime
  | _ => row.update_datetime

/-- The backoff interval of the row has not passed yet. -/
def backoffPending (env : Env) (row : NodeExec) (backoff_sec : PyFloat) : Bool :=
  backoff_sec.gt 0 && (last_poll_ts env row).any fun ts =>
    backoff_sec.gt (((env.now - ts : Int) : Rat) / 1000000)

/-- Seconds since the row was started exceed `limit`. -/
def runsLongerThan (env : Env) (row : NodeExec) (limit : Nat) : Bool :=
  row.started_at.any fun s => Time.seconds limit < env.now - s

/-- A duration as seconds with one decimal. -/
def tenths (d : Int) : String :=
  let n := (d + 50000) / 100000
  s!"{n / 10}.{n % 10}"

def elapsed (env : Env) (row : NodeExec) : String := tenths (env.now - row.started_at.getD env.now)

def E4401_runtime (env : Env) (row : NodeExec) : String :=
  s!"E4401: Node execution timeout (max_runtime={MAX_RUNTIME_SEC}s, elapsed={elapsed env row}s, " ++
    s!"poll_count={row.poll_count}), suspected adapter stuck or executor end status not written back"

def E4401_polls (row : NodeExec) : String :=
  s!"E4401: Poll count exceeded limit (max={MAX_POLL_ATTEMPTS}, actual={row.poll_count})," ++
    " suspected adapter stuck or status not updated"

def E4402 (env : Env) (row : NodeExec) : String :=
  s!"E4402: Node execution timeout (timeout={row.timeout_sec}s, elapsed={elapsed env row}s)"

def failFields : List Field := [.status, .finished_at, .error_message, .update_datetime]

/-- The runner fails a row on its own account and saves that. -/
def fail_row (env : Env) (row : NodeExec) (message : String) : RunnerM NodeExec := do
  let row := { row with
    status := .FAILED, finished_at := some env.now, error_message := some message }
  save env row failFields
  pure row

/-- `adapter.cancel` of a row's adapter class; any exception is an error. -/
def cancel_adapter (env : Env) (execution : Execution) (row : NodeExec) :
    RunnerM (Except Exn UnitOutput) :=
  match env.get_class row.node_type with
  | .error e => pure (.error e)
  | .ok adapter =>
    match adapter.construct with
    | .error e => pure (.error e)
    | .ok _ => do
      record (.cancel row)
      pure (adapter.cancel (_build_rendered_cfg env execution row row.rendered_params)
        row.adapter_state)

/-- Save the answer of `adapter.poll`; a row still running gets its next backoff. -/
def poll_answer (env : Env) (row : NodeExec) (uo : UnitOutput) : RunnerM NodeExec := do
  let backoff := min (POLL_BACKOFF_INITIAL_SEC * 2 ^ row.poll_count) POLL_BACKOFF_MAX_SEC
  let (new, fields) := _apply_unit_output env row uo false
  if new.status = .RUNNING then do
    let state := Dict.set new.adapter_state "__backoff_sec__" (.int backoff)
    let state := Dict.set state "__poll_count__" (.int (row.poll_count + 1))
    let state := Dict.set state "__last_poll_ts__" (.str (env.isoformat env.now))
    let new := { new with adapter_state := state }
    save env new (if .adapter_state ∈ fields then fields else fields ++ [.adapter_state])
    pure new
  else do
    save env new fields
    pure new

/-- The part of `_poll_one_row` after the timeouts: ask the adapter. -/
def poll_adapter (env : Env) (execution : Execution) (row : NodeExec) : RunnerM NodeExec :=
  match env.get_class row.node_type with
  | .error e => fail_row env row ("E3110: adapter load failed " ++ e.text)
  | .ok adapter => do
    fromExcept adapter.construct
    record (.poll row)
    match adapter.poll (_build_rendered_cfg env execution row row.rendered_params) row.adapter_state with
    | .error e => fail_row env row ("E3111: poll threw exception " ++ e.name ++ ": " ++ e.text)
    | .ok uo => poll_answer env row uo

/-- Poll one loaded row; the row as it stands in memory afterwards. -/
def _poll_one_row (env : Env) (execution : Execution) (row : NodeExec) : RunnerM NodeExec :=
  if row.status ≠ .RUNNING then pure row
  else do
    let raw := getJson row.adapter_state "__backoff_sec__"
    let backoff_sec ← fromExcept (toFloat (if raw.truthy then raw else .int 0))
    if backoffPending env row backoff_sec then pure row
    else if runsLongerThan env row MAX_RUNTIME_SEC then
      fail_row env row (E4401_runtime env row)
    else if MAX_POLL_ATTEMPTS ≤ row.poll_count then
      fail_row env row (E4401_polls row)
    else if 0 < row.timeout_sec ∧ runsLongerThan env row row.timeout_sec then do
      let failed := { row with
        status := .FAILED, finished_at := some env.now, error_message := some (E4402 env row) }
      let _ ← cancel_adapter env execution failed
      save env failed failFields
      pure failed
    else poll_adapter env execution row

end taurus.engine.runner
