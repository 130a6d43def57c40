import Mathlib.Logic.Relation
import Taurus.Engine.Runner.Advance

namespace taurus.engine.runner

open taurus.lib taurus.lib.Prog taurus.python taurus.engine.executor

/-- One call on an execution of a released version, with what it finds outside. -/
inductive Call where
  | trigger (env : Env) (execution_id : Nat) (trigger_params : Dict String Json)
      (trigger_type : String) (user_id : Option Int) (fail_strategy : Option String)
  | advance (env : Env) (user_id : Option Int)
  | scheduled (env : Env)
  | cancel (env : Env) (reason : Option String)

namespace Call

/-- The world a call leaves behind, whether it returned or raised. -/
def run (ver : DagVersion) : Call → World → World
  | trigger env id params type user fs, w => (trigger_workflow env ver id params type user fs w).2
  | advance env user, w => (advance_workflow env ver user w).2
  | scheduled env, w => (scheduled_advance env ver w).2
  | cancel env reason, w => (cancel_workflow env reason w).2

/-- An execution is triggered once. -/
def Enabled (w : World) : Call → Prop
  | trigger .. => w.execution = none
  | _ => True

end Call

/-- One call takes `w` to `w'`. -/
def Calls (ver : DagVersion) (w w' : World) : Prop := ∃ c : Call, c.Enabled w ∧ w' = c.run ver w

/-- Any number of calls take `w` to `w'`. -/
def Run (ver : DagVersion) : World → World → Prop := Relation.ReflTransGen (Calls ver)

/-- The worlds of an execution of `ver` and its future. -/
def Reachable (ver : DagVersion) (w : World) : Prop := Run ver .initial w

/-- The world after a list of calls. -/
def Call.runs (ver : DagVersion) (calls : List Call) (w : World) : World :=
  calls.foldl (fun w c => c.run ver w) w

/-- A call that does not trigger. -/
def Call.later : Call → Bool
  | trigger .. => false
  | _ => true

/-- Any calls make a run. -/
theorem run_of_calls (ver : DagVersion) (calls : List Call) (hlater : calls.all Call.later = true)
    (w : World) : Run ver w (Call.runs ver calls w) := by
  induction calls generalizing w with
  | nil => exact .refl
  | cons c rest ih =>
    simp only [List.all_cons, Bool.and_eq_true] at hlater
    refine .head ⟨c, ?_, rfl⟩ (ih hlater.2 _)
    cases c with
    | trigger => exact absurd hlater.1 (by simp [Call.later])
    | advance | scheduled | cancel => trivial

/-- A triggered execution after a list of further calls. -/
def started (ver : DagVersion) (env : Env) (calls : List Call) : World :=
  Call.runs ver calls (Call.run ver (.trigger env 1 [] "manual" none none) .initial)

/-- What a list of calls leads to is reachable. -/
theorem started_reachable (ver : DagVersion) (env : Env) (calls : List Call)
    (hlater : calls.all Call.later = true) : Reachable ver (started ver env calls) :=
  .head ⟨.trigger env 1 [] "manual" none none, rfl, rfl⟩ (run_of_calls ver calls hlater _)

/-- More calls go on from there. -/
theorem started_append (ver : DagVersion) (env : Env) (calls more : List Call)
    (hlater : more.all Call.later = true) :
    Run ver (started ver env calls) (started ver env (calls ++ more)) := by
  unfold started Call.runs
  rw [List.foldl_append]
  exact run_of_calls ver more hlater _

/-- An adapter that answers by the node key and the host it is called for. -/
def scriptedAdapter (node_type : String)
    (dispatch poll : String → String → UnitOutput) : Adapter where
  node_type
  requires_host := false
  construct := .ok ()
  validate_and_render := fun params _ => .ok { params := some params }
  validate_config := fun _ => .ok {}
  dispatch := fun cfg => .ok (dispatch cfg.node_key cfg.host_id)
  poll := fun cfg _ => .ok (poll cfg.node_key cfg.host_id)
  cancel := fun _ _ => .ok { status := .CANCELLED }

/-- Two decimal digits. -/
def twoDigits (n : Int) : String := s!"{n / 10 % 10}{n % 10}"

/-- Minute `minute` of an hour in which all adapters answer by a script; times are
those of the first hour of 1970. -/
def scripted (minute : Int) (dispatch poll : String → String → UnitOutput) : Env where
  get_class := fun node_type => .ok (scriptedAdapter node_type dispatch poll)
  render_structure := fun _ params => .ok params
  isoformat :=
    fun t => s!"1970-01-01T00:{twoDigits (t / 60000000)}:{twoDigits (t / 1000000 % 60)}+00:00"
  parse_datetime := fun s =>
    (digitsNat? ((s.toList.drop 14).take 2)).map fun m => Time.seconds (60 * m)
  now := Time.seconds (60 * minute)

/-- The answer of an adapter whose work goes on. -/
def running : UnitOutput := { status := .RUNNING }

/-- The answer of the loop adapter for a list of items and a body type. -/
def forEachAnswer (items : List Json) (body_node_type : String) : UnitOutput :=
  let state : Dict String Json :=
    [("loop_type", .str "for_each"), ("loop_count", .int items.length), ("loop_items", .arr items),
      ("max_concurrency", .int 1), ("break_on_error", .bool true),
      ("body_node_type", .str body_node_type), ("body_params", .obj []),
      ("aggregation", .str "collect_all"), ("fail_strategy", .str "fail_fast"),
      ("items_source", .str "manual")]
  { status := .SUCCESS, output := state, adapter_state := some state, exit_code := some 0 }

end taurus.engine.runner
