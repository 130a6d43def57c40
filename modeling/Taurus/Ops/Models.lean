import Taurus.Engine.Schemas

namespace taurus.ops

open taurus.lib taurus.python taurus.engine

/-- The status of an `OpsExecution`. -/
inductive OpsStatus where
  | PENDING
  | RUNNING
  | SUCCESS
  | FAILED
  | ABORTED
  | APPROVING
  | REJECTED
  deriving DecidableEq, Repr, Inhabited

namespace OpsStatus

/-- The stored number of a status. -/
def toInt : OpsStatus → Int
  | PENDING => 0
  | RUNNING => 1
  | SUCCESS => 2
  | FAILED => 3
  | ABORTED => 4
  | APPROVING => 5
  | REJECTED => 6

/-- `status in (2, 3, 4)` -/
def terminal : OpsStatus → Bool
  | SUCCESS | FAILED | ABORTED => true
  | PENDING | RUNNING | APPROVING | REJECTED => false

end OpsStatus

/-- The target host of an execution, as far as running it needs it. -/
structure Host where
  pk : Nat
  host_ip : String
  online_status : Int
  deriving DecidableEq, Repr, Inhabited

/-- One command or script run on one host. -/
structure OpsExecution where
  execution_id : String
  batch_id : Option String := none
  execution_type : String
  script_type : Option String := none
  host_id : Nat
  timeout_seconds : Int := 300
  status : OpsStatus
  exit_code : Option Int := none
  error_message : Option String := none
  output_buffer : List Json := []
  started_at : Option Time := none
  finished_at : Option Time := none
  create_datetime : Option Time := none
  deriving Inhabited

end taurus.ops
