import Taurus.Python.Hashlib
import Taurus.Python.Json

namespace taurus.engine

open taurus.lib taurus.python

/-- The status of a node row. No adapter may define its own. -/
inductive Status where
  | PENDING
  | RUNNING
  | SUCCESS
  | FAILED
  | SKIPPED
  | CANCELLED
  deriving DecidableEq, Repr, Inhabited

namespace Status

/-- The stored number of a status. -/
def toInt : Status → Int
  | PENDING => 0
  | RUNNING => 1
  | SUCCESS => 2
  | FAILED => 3
  | SKIPPED => 4
  | CANCELLED => 5

/-- `status in TERMINAL_STATUSES` -/
def terminal : Status → Bool
  | PENDING | RUNNING => false
  | SUCCESS | FAILED | SKIPPED | CANCELLED => true

@[simp] theorem terminal_pending : PENDING.terminal = false := rfl
@[simp] theorem terminal_running : RUNNING.terminal = false := rfl
@[simp] theorem terminal_success : SUCCESS.terminal = true := rfl
@[simp] theorem terminal_failed : FAILED.terminal = true := rfl
@[simp] theorem terminal_skipped : SKIPPED.terminal = true := rfl
@[simp] theorem terminal_cancelled : CANCELLED.terminal = true := rfl

end Status

def NO_HOST_SENTINEL : String := "__NO_HOST__"

/-- The exceptions that the engine tells apart, with the class name and text of
all others. -/
inductive Exn where
  | ValueError (message : String)
  | IntegrityError (constraint : String)
  | WorkflowRunnerError (message : String)
  | other (name message : String)
  deriving DecidableEq, Repr, Inhabited

namespace Exn

/-- `type(exc).__name__` -/
def name : Exn → String
  | ValueError _ => "ValueError"
  | IntegrityError _ => "IntegrityError"
  | WorkflowRunnerError _ => "WorkflowRunnerError"
  | other name _ => name

/-- `str(exc)` -/
def text : Exn → String
  | ValueError m | IntegrityError m | WorkflowRunnerError m | other _ m => m

end Exn

/-- A point in time, in microseconds. -/
abbrev Time := Int

def Time.seconds (n : Int) : Int := n * 1000000

structure UnitOutput where
  status : Status
  output : Dict String Json := []
  exit_code : Option Int := none
  error_message : Option String := none
  output_refs : Option (List Json) := none
  adapter_state : Option (Dict String Json) := none
  deriving Inhabited

structure ValidationResult where
  ok : Bool := true
  errors : Dict String (List String) := []
  deriving Inhabited

/-- The immutable configuration an adapter is called with. -/
structure RenderedNodeConfig where
  execution_id : Nat
  node_key : String
  node_name : String
  host_id : String
  dispatch_id : String
  attempt_no : Nat
  user_id : Int
  global_timeout_sec : Nat
  secrets_mask : List String
  params : Dict String Json
  triggered_at : Time

/-- The roots of `${...}` interpolation. -/
structure WorkflowContext where
  workflow_env : Dict String Json
  secrets : Dict String Json
  trigger_params : Dict String Json
  node_outputs : Dict String Json

/-- What `validate_and_render` returned: `params` is none for a value that is
not a dict, `is_none` tells None from the others. -/
structure RenderResult where
  params : Option (Dict String Json)
  is_none : Bool := false
  type_name : String := "dict"
  masked_paths : List Json := []

/-- An adapter class as one call of the runner finds it: what each of its
methods answers during that call. -/
structure Adapter where
  node_type : String
  requires_host : Bool
  construct : Except Exn Unit
  validate_and_render : Dict String Json → WorkflowContext → Except Exn RenderResult
  validate_config : Dict String Json → Except Exn ValidationResult
  dispatch : RenderedNodeConfig → Except Exn UnitOutput
  poll : RenderedNodeConfig → Dict String Json → Except Exn UnitOutput
  cancel : RenderedNodeConfig → Dict String Json → Except Exn UnitOutput

/-- What lies outside the runner during one of its calls: the adapters, the
clock and the pure functions of other packages it uses. -/
structure Env where
  get_class : String → Except Exn Adapter
  render_structure : WorkflowContext → Dict String Json → Except Exn (Dict String Json)
  isoformat : Time → String
  parse_datetime : String → Option Time
  now : Time

end taurus.engine
