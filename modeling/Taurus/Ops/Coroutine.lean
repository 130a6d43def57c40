import Taurus.Ops.Models

namespace taurus.ops

open taurus.python taurus.engine

/-- The entry of an execution in `_execution_output_queues`: None is a placeholder. -/
inductive QueueEntry where
  | absent
  | placeholder
  | queue
  deriving DecidableEq, Repr

/-- What the coroutines around one execution share: the stored row, the queue entry in the
memory of their event loop, and how often `client.execute_command` was started. -/
structure Shared where
  stored : Option OpsExecution
  entry : QueueEntry := .absent
  started : Nat := 0

/-- How an attempt ended, as `update_execution_success` is told. -/
structure Attempt where
  output_buffer : List Json
  exit_code : Int
  error : Option String

/-- What an awaited operation of a coroutine brings. -/
inductive Answer where
  | returned
  | host (host : Host)
  | connection_error (message : String)
  | stream (chunks : List Json) (finished : Option Int) (error : Option String)
  | executor (is_running : Bool)
  | raised

/-- `_execute_ops_async` at one of its awaits. -/
inductive Coroutine where
  | created
  | entered
  | loaded (execution : OpsExecution) (host : Host)
  | ready (execution : OpsExecution) (host : Host)
  | connecting (execution : OpsExecution)
  | executing (execution : OpsExecution)
  | reporting (execution : OpsExecution) (attempt : Attempt)
  | leaving
  | done

/-- `(timeout_seconds or 300) + 60` -/
def max_allowed (ops : OpsExecution) : Int :=
  (if ops.timeout_seconds = 0 then 300 else ops.timeout_seconds) + 60

/-- The row says running, since longer than its timeout allows. -/
def is_orphan (now : Time) (ops : OpsExecution) : Bool :=
  ops.status = .RUNNING ∧ ops.started_at.any fun s => Time.seconds (max_allowed ops) < now - s

/-- The row says running, and not for too long. -/
def already_running (now : Time) (ops : OpsExecution) : Bool :=
  ops.status = .RUNNING ∧ ops.started_at.any fun s => now - s ≤ Time.seconds (max_allowed ops)

/-- The guards of `_execute_ops_async` on the row it has read. -/
def guarded (now : Time) (ops : OpsExecution) (host : Host) : Coroutine :=
  if ops.status = .SUCCESS then .leaving
  else if already_running now ops then .leaving
  else if ops.status = .PENDING ∨ is_orphan now ops then .loaded ops host
  else .ready ops host

def mark_running (now : Time) (ops : OpsExecution) : OpsExecution :=
  { ops with status := .RUNNING, started_at := some now }

def update_execution_success (now : Time) (ops : OpsExecution) (attempt : Attempt) : OpsExecution :=
  { ops with
    status := if attempt.error.getD "" ≠ "" ∨ attempt.exit_code ≠ 0 then .FAILED else .SUCCESS
    exit_code := some attempt.exit_code
    error_message :=
      if attempt.error.getD "" ≠ "" then attempt.error
      else if attempt.exit_code < 0 then some "Command terminated by signal"
      else none
    output_buffer := attempt.output_buffer
    finished_at := some now }

/-- The attempt on a host that is offline. -/
def offline (host : Host) : Attempt :=
  { output_buffer := [], exit_code := 1, error := some s!"Host is currently offline: {host.host_ip}" }

/-- A command, or a script with a known interpreter. -/
def supported (ops : OpsExecution) : Bool :=
  ops.execution_type = "command" ∨ ops.script_type = some "sh" ∨ ops.script_type = some "python"

/-- The attempt that ends with an exception outside of the command stream. -/
def failed_attempt (message : String) : Attempt :=
  { output_buffer := [.obj [("error", .str message)]], exit_code := 1, error := some message }

/-- The chunk that stands in for a missing `finished` marker. -/
def final_chunk : Json := .obj [("finished", .bool true), ("exit_code", .int 1)]

/-- The attempt at a script without an interpreter. -/
def unsupported_attempt (ops : OpsExecution) : Attempt :=
  { output_buffer := [final_chunk], exit_code := 1
    error := some ("Unsupported script type: " ++ ops.script_type.getD "None") }

/-- The attempt after the chunks of a command: `finished` is the exit code of the last
chunk when it has the marker, `error` the exception that broke the stream off. -/
def stream_attempt (chunks : List Json) (finished : Option Int) (error : Option String) : Attempt :=
  match error, finished with
  | some e, some code =>
    { output_buffer := chunks ++ [.obj [("error",
      .str e)]], exit_code := if code = 0 then 1 else code
      error := some e }
  | some e, none => { failed_attempt e with output_buffer := chunks ++ [.obj [("error", .str e)]] }
  | none, some code => { output_buffer := chunks, exit_code := code, error := none }
  | none, none =>
    { output_buffer := chunks ++ [final_chunk], exit_code := 1
      error := some "Execution finished but no 'finished' marker received from executor" }

/-- `_execute_ops_async` from one await to the next. An exception inside its outer `try`
leads to the `finally` block, which removes the queue entry. -/
def execute_step (now : Time) (x : Shared) : Coroutine → Answer → Option (Shared × Coroutine)
  | .created, .returned =>
    if x.entry = .queue then some (x, .done) else some ({ x with entry := .queue }, .entered)
  | .entered, .host host =>
    match x.stored with
    | none => some (x, .leaving)
    | some ops => some (x, guarded now ops host)
  | .loaded ops host, .returned =>
    some ({ x with stored := some (mark_running now ops) }, .ready (mark_running now ops) host)
  | .ready ops host, .returned =>
    if host.online_status ≠ 1 then
      some (x, .reporting ops (offline host))
    else some (x, .connecting ops)
  | .connecting ops, .connection_error message => some (x, .reporting ops (failed_attempt message))
  | .connecting ops, .returned =>
    if supported ops then some ({ x with started := x.started + 1 }, .executing ops)
    else some (x, .reporting ops (unsupported_attempt ops))
  | .executing ops, .stream chunks finished error =>
    some (x, .reporting ops (stream_attempt chunks finished error))
  | .reporting ops attempt, .returned =>
    some ({ x with stored := some (update_execution_success now ops attempt) }, .leaving)
  | .leaving, .returned => some ({ x with entry := .absent }, .done)
  | .entered, .raised | .loaded .., .raised | .ready .., .raised | .connecting _, .raised
  | .executing _, .raised | .reporting .., .raised => some (x, .leaving)
  | _, _ => none

/-- `_handle_orphan_execution` at one of its awaits. -/
inductive Handler where
  | created
  | loaded (execution : OpsExecution)
  | leaving
  | done

def interrupted_message (is_running : Bool) : String :=
  if is_running then
    "Execution interrupted: connection to executor lost, commands may still be running on executor. " ++
      "Output has been lost, not auto-retrying to avoid duplicate execution. " ++
      "Please manually confirm the status on the host before proceeding."
  else
    "Execution interrupted: connection to executor lost, cannot confirm final command status. " ++
      "Output has been lost, not auto-retrying to avoid duplicate execution. Please retry manually if needed."

def mark_interrupted (now : Time) (ops : OpsExecution) (is_running : Bool) : OpsExecution :=
  { ops with
    status := .ABORTED
    error_message := some (interrupted_message is_running)
    finished_at := some now }

/-- `_handle_orphan_execution` from one await to the next. -/
def orphan_step (now : Time) (x : Shared) : Handler → Answer → Option (Shared × Handler)
  | .created, .returned =>
    match x.stored with
    | none => some (x, .leaving)
    | some ops => some (x, if ops.status ≠ .RUNNING then .leaving else .loaded ops)
  | .loaded ops, .executor is_running =>
    some ({ x with stored := some (mark_interrupted now ops is_running) }, .leaving)
  | .leaving, .returned => some ({ x with entry := .absent }, .done)
  | .created, .raised | .loaded _, .raised => some (x, .leaving)
  | _, _ => none

/-- `_OpsExecutionMixin.cancel` at one of its database calls. -/
inductive Canceller where
  | created
  | loaded
  | done

/-- The fallback write of a cancel. `cancel_execution` is not defined in `websocket_async`,
so its import always fails. -/
def abort (now : Time) (ops : OpsExecution) : OpsExecution :=
  { ops with
    status := .ABORTED
    finished_at := some now
    error_message := some "E4002: Workflow-level cancel (executor side not yet actually killed)" }

/-- A cancel from one database call to the next: it saves single columns. -/
def cancel_step (now : Time) (x : Shared) : Canceller → Answer → Option (Shared × Canceller)
  | .created, .returned =>
    match x.stored with
    | none => some (x, .done)
    | some ops => some (x, if ops.status.terminal then .done else .loaded)
  | .loaded, .returned => some ({ x with stored := x.stored.map (abort now) }, .done)
  | .created, .raised | .loaded, .raised => some (x, .done)
  | _, _ => none

end taurus.ops
