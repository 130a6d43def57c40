import Taurus.Engine.Runner.Dispatch
import Taurus.Ops.Models

namespace taurus.ops

open taurus.lib taurus.python taurus.engine taurus.engine.runner

/-- `str(v)`: a string is its own text, any other value has that of its `repr`. -/
def str (repr : Json → String) : Json → String
  | .str s => s
  | v => repr v

/-- What `_extract_stdout_stderr` has collected so far. -/
structure Extracted where
  stdout_parts : List String := []
  stderr_parts : List String := []
  envs : Dict String Json := []
  raw_lines : List Json := []

/-- A flat field of a chunk, `{"stdout": ..}` or `{"stderr": ..}`: a nonempty string. -/
def flat_part (item : Dict String Json) (name : String) : List String :=
  match getJson item name with
  | .str s => if s = "" then [] else [s]
  | _ => []

/-- One chunk of the buffer: layered by `type` and `content`, or flat. -/
def extract_item (repr : Json → String) (x : Extracted) (item : Json) : Extracted :=
  match item with
  | .obj item =>
    let x := { x with raw_lines := x.raw_lines ++ [.obj item] }
    match getJson item "type", getJson item "content" with
    | .str "stdout", .str c => { x with stdout_parts := x.stdout_parts ++ [c] }
    | .str "stdout", _ => x
    | .str "stderr", .str c => { x with stderr_parts := x.stderr_parts ++ [c] }
    | .str "stderr", _ => x
    | .str "env", .obj c => { x with envs := Dict.update x.envs c }
    | _, _ => { x with
        stdout_parts := x.stdout_parts ++ flat_part item "stdout"
        stderr_parts := x.stderr_parts ++ flat_part item "stderr" }
  | item => { x with raw_lines := x.raw_lines ++ [.obj [("line", .str (str repr item))]] }

def extract (repr : Json → String) (output_buffer : List Json) : Extracted :=
  output_buffer.foldl (extract_item repr) {}

/-- The stdout, the stderr and the structured output of a buffer. -/
def _extract_stdout_stderr (repr : Json → String) (output_buffer : List Json) :
    String × String × Dict String Json :=
  let x := extract repr output_buffer
  let structured : Dict String Json := if x.envs.isEmpty then [] else [("envs", .obj x.envs)]
  let structured :=
    if x.raw_lines.isEmpty then structured else structured ++ [("lines", .arr x.raw_lines)]
  (String.join x.stdout_parts, String.join x.stderr_parts, structured)

/-- `ops.exit_code` as a value of the output. -/
def exit_code_value (ops : OpsExecution) : Json :=
  match ops.exit_code with
  | some n => .int n
  | none => .null

/-- The run time that goes into the output, when both ends are known. -/
def duration_entry (ops : OpsExecution) : Dict String Json :=
  match ops.started_at, ops.finished_at with
  | some s, some f => [("duration_ms", .int ((f - s).tdiv 1000))]
  | _, _ => []

/-- `n or d` for an exit code: zero counts as missing. -/
def exitCodeOr (code : Option Int) (d : Int) : Int :=
  match code with
  | some n => if n = 0 then d else n
  | none => d

/-- `"workflow-level cancel" in reason.lower() or "cancel" in reason.lower()`; no other
letter than those of `cancel` is lowered to one of them. -/
def mentions_cancel (reason : String) : Bool :=
  let lower := reason.toList.map Char.toLower
  isInfix "workflow-level cancel".toList lower || isInfix "cancel".toList lower

/-- `ops.error_message or ""` -/
def message (ops : OpsExecution) : String := ops.error_message.getD ""

/-- The error text is one of the executor's own, `msg.startswith("E300")`. -/
def has_own_code (msg : String) : Bool := startswith msg.toList "E300".toList

/-- The output dict of `_unit_output_from_ops`. -/
def ops_output (repr : Json → String) (ops : OpsExecution) : Dict String Json :=
  let (stdout, stderr, structured) := _extract_stdout_stderr repr ops.output_buffer
  [("ops_execution_id", .str ops.execution_id), ("stdout", .str stdout), ("stderr", .str stderr),
    ("exit_code", exit_code_value ops)] ++
  (if structured.isEmpty then [] else [("structured", .obj structured)]) ++ duration_entry ops

/-- The answer of the adapter for the state its execution is in. -/
def _unit_output_from_ops (repr : Json → String) (ops : OpsExecution) : UnitOutput :=
  let output := ops_output repr ops
  match ops.status with
  | .PENDING | .RUNNING =>
    { status := .RUNNING
      output := output ++ [("ops_status", .int ops.status.toInt)]
      adapter_state := some [("ops_execution_id", .str ops.execution_id)] }
  | .SUCCESS => { status := .SUCCESS, output, exit_code := some (ops.exit_code.getD 0) }
  | .FAILED =>
    let msg := message ops
    let msg :=
      if has_own_code msg then msg
      else if ops.exit_code.isNone then s!"E3002: {msg}" else s!"E3001: {msg}"
    { status := .FAILED, output, exit_code := some (ops.exit_code.getD 1), error_message := some msg }
  | .ABORTED =>
    let reason := message ops
    if mentions_cancel reason then
      { status := .CANCELLED, output, exit_code := some (ops.exit_code.getD 0) }
    else
      { status := .FAILED, output, exit_code := some (exitCodeOr ops.exit_code 1)
        error_message := some s!"E4001: Task timeout or interrupted by executor, detail={reason}" }
  | .APPROVING | .REJECTED =>
    { status := .FAILED, output, exit_code := some (exitCodeOr ops.exit_code 1)
      error_message := some s!"E0399: Unknown OpsExecution.status={ops.status.toInt}" }

/-- The stored row after a poll answered for `ops` and the answer was applied. -/
def poll_row (env : Env) (repr : Json → String) (ops : OpsExecution) (row : NodeExec) : NodeExec :=
  applied env row (_unit_output_from_ops repr ops) false

/-- One text of a chunk in the loop of the push path. -/
def push_text (repr : Json → String) (name : String) (text : String) (chunk : Json) : String :=
  match chunk with
  | .obj chunk =>
    let v := getJson chunk name
    if v.truthy then text ++ str repr v else text
  | _ => text

/-- The output dict of the push path. -/
def push_output (repr : Json → String) (ops : OpsExecution) : Dict String Json :=
  [("ops_execution_id", .str ops.execution_id),
    ("stdout", .str (ops.output_buffer.foldl (push_text repr "stdout") "")),
    ("stderr", .str (ops.output_buffer.foldl (push_text repr "stderr") "")),
    ("exit_code", exit_code_value ops)] ++ duration_entry ops

/-- The status, the exit code and the error text of the push path. -/
def push_target (ops : OpsExecution) : Status × Option Int × Option String :=
  let msg := message ops
  match ops.status with
  | .SUCCESS => (.SUCCESS, ops.exit_code, none)
  | .FAILED =>
    let error_msg :=
      if has_own_code msg then none
      else if ops.exit_code.isNone then some s!"E3001: {msg}"
      else some s!"E3002: {msg}"
    (.FAILED, some (ops.exit_code.getD 1), error_msg)
  | .ABORTED =>
    if mentions_cancel msg then (.CANCELLED, ops.exit_code, none)
    else (.FAILED, some (exitCodeOr ops.exit_code 1),
      some s!"E4001: Task timeout or interrupted, detail={msg}")
  | .PENDING | .RUNNING | .APPROVING | .REJECTED =>
    (.FAILED, ops.exit_code, some s!"E3001: Unknown ops_status={ops.status.toInt}")

/-- The row belongs to the execution, by its adapter state or its output. -/
def refers_to (ops : OpsExecution) (row : NodeExec) : Bool :=
  (getJson row.adapter_state "ops_execution_id").str? = some ops.execution_id ||
    (getJson row.output "ops_execution_id").str? = some ops.execution_id

/-- `_advance_workflow_for_ops_execution_impl` on one row: an unfinished row of a finished
execution is saved as a whole. -/
def push_row (now : Time) (repr : Json → String) (ops : OpsExecution) (row : NodeExec) : NodeExec :=
  if ops.status = .PENDING ∨ ops.status = .RUNNING then row
  else if !refers_to ops row || row.status.terminal then row
  else
    let (target_status, ec, error_msg) := push_target ops
    let finished_at := row.finished_at.or (some now)
    { row with
      status := target_status
      output := push_output repr ops
      exit_code := ec
      finished_at
      duration_ms := (duration_ms row.started_at finished_at).or row.duration_ms
      error_message := error_msg.or row.error_message
      poll_count := row.poll_count + 1
      update_datetime := some now }

/-- The status the scheduler syncs, for a terminal execution. -/
def sync_target : OpsStatus → Option Status
  | .SUCCESS => some .SUCCESS
  | .FAILED => some .FAILED
  | .ABORTED => some .CANCELLED
  | .PENDING | .RUNNING | .APPROVING | .REJECTED => none

/-- The execution id the scheduler reads from a row, if it looks at the row. -/
def sync_id (repr : Json → String) (row : NodeExec) : Option String :=
  let ops_id := getJson row.adapter_state "ops_execution_id"
  if row.status = .RUNNING ∧ ["command", "script"].contains row.node_type ∧ ops_id.truthy then
    some (str repr ops_id)
  else none

/-- The execution has ended long enough ago for the scheduler. -/
def sync_due (now : Time) (ops : OpsExecution) : Bool :=
  ops.finished_at.all fun f => Time.seconds 5 ≤ now - f

/-- `_sync_stale_workflow_nodes` on one row. -/
def sync_row (now : Time) (repr : Json → String) (ops : OpsExecution) (row : NodeExec) : NodeExec :=
  match sync_target ops.status with
  | none => row
  | some target_status =>
    if sync_id repr row = some ops.execution_id ∧ sync_due now ops then
      { row with
        status := target_status
        finished_at := some now
        exit_code := ops.exit_code
        error_message := if target_status ≠ .SUCCESS then some (message ops) else none
        update_datetime := some now }
    else row

end taurus.ops
