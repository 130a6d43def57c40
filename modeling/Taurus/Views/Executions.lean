import Taurus.Engine.Tables
import Taurus.Engine.Runner.Runs
import Taurus.Ops.WriteBack
import Taurus.Units.HttpCallback

namespace taurus.engine

/-- What a queryset's `update` does to one row: the columns of the constraints stay. -/
structure RowChange where
  change : NodeExec → NodeExec
  same : ∀ r, (change r).SameIdentity r

namespace Table

/-- `filter(p).update(..)` -/
def update (t : Table) (p : NodeExec → Bool) (c : RowChange) : Table where
  rows := t.rows.map fun r => if p r then c.change r else r
  next_pk := t.next_pk
  pk_nodup := by
    rw [List.map_map, List.map_congr_left (g := fun r => r.pk)]
    · exact t.pk_nodup
    · intro r _
      by_cases h : p r <;> simp [h, (c.same r).pk]
  pk_lt := by
    intro r hr
    obtain ⟨r₀, hr₀, rfl⟩ := List.mem_map.mp hr
    have hlt := t.pk_lt r₀ hr₀
    split
    · rwa [(c.same r₀).pk]
    · exact hlt
  attempt_nodup := by
    rw [List.map_map, List.map_congr_left (g := fun r => r.attempt_key)]
    · exact t.attempt_nodup
    · intro r _
      have hsame := c.same r
      by_cases h : p r <;>
        simp [h, NodeExec.attempt_key, hsame.node_key, hsame.host_id, hsame.attempt_no]
  dispatch_nodup := by
    rw [List.map_map, List.map_congr_left (g := fun r => r.dispatch_id)]
    · exact t.dispatch_nodup
    · intro r _
      by_cases h : p r <;> simp [h, (c.same r).dispatch_id]

/-- The rows after an update. -/
theorem mem_update (t : Table) (p : NodeExec → Bool) (c : RowChange) (x : NodeExec) :
    x ∈ (t.update p c).rows ↔
      (x ∈ t.rows ∧ p x = false) ∨ ∃ r ∈ t.rows, p r = true ∧ c.change r = x := by
  simp only [update, List.mem_map]
  constructor
  · rintro ⟨r, hr, rfl⟩
    cases hp : p r with
    | false => exact Or.inl (by simp [hr, hp])
    | true => exact Or.inr ⟨r, hr, hp, by simp⟩
  · rintro (⟨hx, hp⟩ | ⟨r, hr, hp, rfl⟩)
    · exact ⟨x, hx, by simp [hp]⟩
    · exact ⟨r, hr, by simp [hp]⟩

end Table

end taurus.engine

namespace taurus.views

open taurus.lib taurus.python taurus.engine taurus.engine.runner taurus.ops taurus.units

/-- What a view answers: a response of its own, one with an HTTP status, or an exception. -/
inductive Response where
  | SuccessResponse (msg : String)
  | ErrorResponse (msg : String)
  | status (code : Nat) (error : String)
  | raised (e : Exn)

/-- A view on one execution. -/
abbrev View : Type := World → Response × World

/-- `self.get_object()` -/
def with_object (view : Execution → View) : View := fun w =>
  match w.execution with
  | none => (.status 404 "Not found", w)
  | some execution => view execution w

/-- The views that update the rows of one node of a running execution. -/
def update_node (selected : NodeExec → Bool) (c : RowChange) (none_found : String)
    (done : Nat → String) : View :=
  with_object fun execution w =>
    if execution.status ≠ .RUNNING then (.ErrorResponse "Workflow is not running", w)
    else
      let rows := w.rows.filter selected
      if rows = [] then (.ErrorResponse none_found, w)
      else (.SuccessResponse (done rows.length), { w with table := w.table.update selected c })

/-- The reset of a row to pending. -/
def reset_row (r : NodeExec) : NodeExec :=
  { r with
    status := .PENDING
    error_message := some ""
    exit_code := none
    finished_at := none
    started_at := none
    output := []
    output_refs := []
    adapter_state := []
    poll_count := 0 }

def reset : RowChange := ⟨reset_row, fun _ => by constructor <;> rfl⟩

/-- The rows of a node with the status numbers 3 and 5. -/
def retryable (node_key : String) (r : NodeExec) : Bool :=
  r.node_key = node_key && (r.status.toInt = 3 || r.status.toInt = 5)

def retry_node (node_key : String) : View :=
  update_node (retryable node_key) reset s!"Node {node_key} not found or not retryable"
    fun updated => s!"Node {node_key} reset to pending ({updated} records)"

def skippable (node_key : String) (r : NodeExec) : Bool :=
  r.node_key = node_key && r.status = .PENDING

/-- The status number 5 that `skip_node` writes is that of a cancelled row. -/
def skip (now : Time) : RowChange :=
  ⟨fun r => { r with status := .CANCELLED, finished_at := some now },
    fun _ => by constructor <;> rfl⟩

def skip_node (now : Time) (node_key : String) : View :=
  update_node (skippable node_key) (skip now) s!"Node {node_key} not found or not pending"
    fun updated => s!"Node {node_key} skipped ({updated} records)"

def approvable (node_key : String) (r : NodeExec) : Bool :=
  r.node_key = node_key && r.status = .PENDING && r.node_type = "approval"

def approve (now : Time) (comment : Json) : RowChange :=
  ⟨fun r => { r with
    status := .SUCCESS, finished_at := some now, output := [("approved", .bool true),
      ("comment", comment)] },
    fun _ => by constructor <;> rfl⟩

def approve_node (now : Time) (node_key : String) (comment : Json) : View :=
  update_node (approvable node_key)
    (approve now comment) s!"Approval node {node_key} not found or not pending"
    fun updated => s!"Approval node {node_key} approved ({updated} records)"

/-- `cancel`: the execution is saved as cancelled. The update of its node rows names a column
`end_time` they do not have, and the exception is dropped. -/
def cancel (now : Time) : View := with_object fun execution w =>
  if execution.status ≠ .RUNNING then (.ErrorResponse "Only running workflows can be cancelled", w)
  else
    let execution := { execution with status := .CANCELLED, end_time := some now }
    (.SuccessResponse "WorkflowCancelled", { w with execution := some execution })

def advance (env : Env) (ver : DagVersion) (user_id : Int) : View := with_object fun execution w =>
  if execution.status ≠ .RUNNING then (.ErrorResponse "Workflow is not running, cannot advance", w)
  else
    match advance_workflow env ver (some user_id) w with
    | (.ok _, w) => (.SuccessResponse "Advance completed", w)
    | (.error (.WorkflowRunnerError message), w) => (.ErrorResponse message, w)
    | (.error e, w) => (.raised e, w)

/-- The tick on the way to the answers of `list` and `detail_info`: exceptions are dropped. -/
def light_advance (env : Env) (ver : DagVersion) (user_id : Option Int) (w : World) : World :=
  match w.execution with
  | none => w
  | some execution =>
    if execution.status = .RUNNING ∧ w.rows.any (·.status = .RUNNING) then
      (advance_workflow env ver user_id w).2
    else w

/-- The published version of the workflow, as `rerun` compares it with that of the execution. -/
structure Published where
  dag_published_version_id : Option Nat
  dag_version_id : Option Nat
  version : Nat → Option Nat

/-- The text for an execution of another version. -/
def version_mismatch (p : Published) : String :=
  match p.dag_version_id.bind p.version, p.dag_published_version_id.bind p.version with
  | some exec_ver_num, some latest_ver_num =>
    s!"Execution based on DAG v{exec_ver_num}, workflow has published v{latest_ver_num}, " ++
      "rerun of old version not allowed.Please start new execution from workflow detail page."
  | _, _ =>
    "DAG version mismatch, rerun of old version not allowed." ++
      "Please start new execution from workflow detail page."

/-- The rows a rerun of the failed nodes resets, by their status numbers. -/
def rerunnable (r : NodeExec) : Bool :=
  r.status.toInt = 3 || r.status.toInt = 4 || r.status.toInt = 5

/-- `reset` with the date of the rerun. -/
def reset_at (now : Time) : RowChange :=
  ⟨fun r => { reset_row r with update_datetime := some now }, fun _ => by constructor <;> rfl⟩

def restarted (x : Execution) : Execution :=
  { x with status := .RUNNING, end_time := none, error_message := some "" }

/-- The execution and its rows as the rerun of the failed nodes resets them. -/
def reset_failed (now : Time) (w : World) : World :=
  { w with execution := w.execution.map restarted, table := w.table.update rerunnable (reset_at now) }

/-- `rerun`: a full rerun creates another execution and leaves this one as it is. -/
def rerun (env : Env) (ver : DagVersion) (p : Published) (user_id : Int) (mode : Json) : View :=
  with_object fun execution w =>
    if execution.status = .RUNNING then (.ErrorResponse "Running workflow does not need rerun", w)
    else if p.dag_published_version_id.isNone then
      (.ErrorResponse "Workflow not published, cannot rerun", w)
    else if p.dag_version_id.isSome ∧ p.dag_version_id ≠ p.dag_published_version_id then
      (.ErrorResponse (version_mismatch p), w)
    else if mode.str? = some "full" then (.SuccessResponse "Full rerun initiated", w)
    else if mode.str? = some "failed_only" then
      let node_updated := (w.rows.filter rerunnable).length
      (.SuccessResponse s!"Reset  {node_updated}  failed nodes and resumed execution",
        (advance_workflow env ver (some user_id) (reset_failed env.now w)).2)
    else (.ErrorResponse "Invalid mode, only full or failed_only supported", w)

/-- `adapter.inject_external_event` of the adapter of a row: only callback nodes take events. -/
def inject_external_event (env : Env) (row : NodeExec) (event : CallbackEvent) :
    Except Exn UnitOutput :=
  match env.get_class row.node_type with
  | .error e => .error e
  | .ok _ =>
    if row.node_type = "http_callback" then
      .ok (HttpCallbackAdapter.inject_external_event row.adapter_state event)
    else if row.node_type = "approval" then
      .error (.other "NotImplementedError"
        s!"node_type='{row.node_type}' is a human asynchronous node, must override inject_external_event()")
    else
      .error (.ValueError ("inject_external_event can only be called on human asynchronous nodes " ++
        s!"(is_asynchronous_human=True), current node node_type='{row.node_type}'"))

/-- The row holds the token. -/
def holds_token (token : String) (row : NodeExec) : Bool :=
  (getJson row.adapter_state "token").str? = some token

def workflow_callback_view (env : Env) (token : String) (event : CallbackEvent) : View := fun w =>
  match w.rows.find? (holds_token token) with
  | none => (.status 404 "Token did not find corresponding WorkflowNodeExecution record", w)
  | some row =>
    match inject_external_event env row event with
    | .error e => (.status 500 e.text, w)
    | .ok uo =>
      let (new, fields) := _apply_unit_output env row uo false
      (.SuccessResponse "ok", { w with table := w.table.save new env.now fields })

/-- `_advance_workflow_for_ops_execution_impl` on all rows. -/
def push (now : Time) (repr : Json → String) (ops : OpsExecution) : RowChange where
  change := push_row now repr ops
  same r := by
    unfold push_row
    split_ifs <;> constructor <;> rfl

/-- `_sync_stale_workflow_nodes` on all rows. -/
def sync (now : Time) (repr : Json → String) (ops : OpsExecution) : RowChange where
  change := sync_row now repr ops
  same r := by
    unfold sync_row
    split
    · exact .refl r
    · split_ifs <;> constructor <;> rfl

/-- What happens to an execution from outside: its trigger, the ticks by the interface, by the
executor's results, by the scheduler and by the node of a parent workflow, the views of a
person, callbacks, and the results of commands written into its rows. -/
inductive Event where
  | trigger (env : Env) (execution_id : Nat) (trigger_params : Dict String Json)
      (trigger_type : String)
      (user_id : Option Int) (fail_strategy : Option String)
  | advance (env : Env) (user_id : Int)
  | light_advance (env : Env) (user_id : Option Int)
  | pushed_advance (env : Env)
  | scheduled (env : Env)
  | sub_advance (env : Env)
  | sub_cancel (env : Env)
  | cancel (now : Time)
  | retry_node (node_key : String)
  | skip_node (now : Time) (node_key : String)
  | approve_node (now : Time) (node_key : String) (comment : Json)
  | rerun (env : Env) (p : Published) (user_id : Int) (mode : Json)
  | callback (env : Env) (token : String) (event : CallbackEvent)
  | push (now : Time) (repr : Json → String) (ops : OpsExecution)
  | sync (now : Time) (repr : Json → String) (ops : OpsExecution)

namespace Event

/-- A tick of code that asks first whether the execution is running. -/
def if_running (m : RunnerM AdvanceTick) (w : World) : World :=
  if w.execution.any (·.status = .RUNNING) then (m w).2 else w

/-- The world an event leaves behind. -/
def run (ver : DagVersion) : Event → World → World
  | .trigger env id params type user fs, w => (trigger_workflow env ver id params type user fs w).2
  | .advance env user_id, w => (views.advance env ver user_id w).2
  | .light_advance env user_id, w => views.light_advance env ver user_id w
  | .pushed_advance env, w => if_running (advance_workflow env ver none) w
  | .scheduled env, w => if_running (scheduled_advance env ver) w
  | .sub_advance env, w =>
    if w.execution.any fun x => !x.status.finished then (advance_workflow env ver none w).2 else w
  | .sub_cancel env, w =>
    if w.execution.any fun x => x.status.finished then w else (cancel_workflow env none w).2
  | .cancel now, w => (views.cancel now w).2
  | .retry_node node_key, w => (views.retry_node node_key w).2
  | .skip_node now node_key, w => (views.skip_node now node_key w).2
  | .approve_node now node_key comment, w => (views.approve_node now node_key comment w).2
  | .rerun env p user_id mode, w => (views.rerun env ver p user_id mode w).2
  | .callback env token event, w => (workflow_callback_view env token event w).2
  | .push now repr ops, w =>
    { w with table := w.table.update (fun _ => true) (views.push now repr ops) }
  | .sync now repr ops, w =>
    { w with table := w.table.update (fun _ => true) (views.sync now repr ops) }

/-- An execution is triggered once. -/
def Enabled (w : World) : Event → Prop
  | .trigger .. => w.execution = none
  | _ => True

end Event

/-- The cancelled execution as the view saves it. -/
def saved_cancelled (now : Time) (x : Execution) : Execution :=
  { x with status := .CANCELLED, end_time := some now }

/-- The event sets finished rows back. -/
def Event.resets : Event → Bool
  | .retry_node _ | .rerun .. => true
  | _ => false

/-- The updates of rows among the events, with or without those that reset rows. -/
inductive Updates (resets : Bool) : (NodeExec → Bool) → RowChange → Prop
  | reset (hresets : resets = true) (node_key : String) : Updates resets (retryable node_key) reset
  | skip (now : Time) (node_key : String) : Updates resets (skippable node_key) (skip now)
  | approve (now : Time) (node_key : String) (comment : Json) :
      Updates resets (approvable node_key) (approve now comment)
  | push (now : Time) (repr : Json → String) (ops : OpsExecution) : Updates resets (fun _ => true)
    (push now repr ops)
  | sync (now : Time) (repr : Json → String) (ops : OpsExecution) : Updates resets (fun _ => true)
    (sync now repr ops)

/-- What an event does to a world. -/
inductive Effect (ver : DagVersion) (resets : Bool) (w : World) : World → Prop
  | none : Effect ver resets w w
  | call (c : Call) (hc : c.Enabled w) : Effect ver resets w (c.run ver w)
  | cancelled (now : Time) :
    Effect ver resets w { w with execution := w.execution.map (saved_cancelled now) }
  | update (p : NodeExec → Bool) (c : RowChange) (h : Updates resets p c) :
      Effect ver resets w { w with table := w.table.update p c }
  | rerun (hresets : resets = true) (env : Env) (user_id : Option Int) :
      Effect ver resets w (Call.run ver (.advance env user_id) (reset_failed env.now w))
  | called_back (env : Env) (token : String) (event : CallbackEvent) (row : NodeExec)
      (hrow : row ∈ w.rows)
      (htoken : holds_token token row = true) (new : NodeExec × List Field)
      (hnew : new = _apply_unit_output env row
        (HttpCallbackAdapter.inject_external_event row.adapter_state event) false) :
      Effect ver resets w { w with table := w.table.save new.1 env.now new.2 }

variable {ver : DagVersion} {resets : Bool} {w : World}

/-- A guarded request has the effect of the request. -/
theorem Effect.if_running {m : RunnerM AdvanceTick} (h : Effect ver resets w (m w).2) :
    Effect ver resets w (Event.if_running m w) := by
  unfold Event.if_running
  split_ifs
  · exact h
  · exact .none

/-- A request on a node updates its rows. -/
theorem update_node_effect {p : NodeExec → Bool} {c : RowChange} (h : Updates resets p c)
    (none_found : String) (done : Nat → String) :
    Effect ver resets w (update_node p c none_found done w).2 := by
  unfold update_node with_object
  cases w.execution with
  | none => exact .none
  | some x =>
    simp only
    split_ifs
    · exact .none
    · exact .none
    · exact .update p c h

/-- What advancing does. -/
theorem advance_effect (env : Env) (user_id : Int) :
    Effect ver resets w (advance env ver user_id w).2 := by
  have hcall : Effect ver resets w (advance_workflow env ver (some user_id) w).2 :=
    .call (.advance env (some user_id)) trivial
  unfold advance with_object
  cases w.execution with
  | none => exact .none
  | some x =>
    simp only
    split_ifs
    · exact .none
    · rcases hrun : advance_workflow env ver (some user_id) w with ⟨e | tick, w'⟩ <;>
        rw [hrun] at hcall
      · cases e <;> exact hcall
      · exact hcall

/-- What a light advance does. -/
theorem light_advance_effect (env : Env) (user_id : Option Int) :
    Effect ver resets w (light_advance env ver user_id w) := by
  unfold light_advance
  cases w.execution with
  | none => exact .none
  | some x =>
    simp only
    split_ifs
    · exact .call (.advance env user_id) trivial
    · exact .none

/-- What cancelling does. -/
theorem cancel_effect (now : Time) : Effect ver resets w (cancel now w).2 := by
  have hcancelled : Effect ver resets w
    { w with execution := w.execution.map (saved_cancelled now) } := .cancelled now
  unfold cancel with_object
  cases hx : w.execution with
  | none => exact .none
  | some x =>
    rw [hx] at hcancelled
    simp only
    split_ifs
    · exact .none
    · exact hcancelled

/-- What a rerun does. -/
theorem rerun_effect (hresets : resets = true) (env : Env) (p : Published) (user_id : Int)
    (mode : Json) :
    Effect ver resets w (rerun env ver p user_id mode w).2 := by
  unfold rerun with_object
  cases w.execution with
  | none => exact .none
  | some x =>
    simp only
    split_ifs
    · exact .none
    · exact .none
    · exact .none
    · exact .none
    · exact .rerun hresets env (some user_id)
    · exact .none

/-- What a callback does. -/
theorem callback_effect (env : Env) (token : String) (event : CallbackEvent) :
    Effect ver resets w (workflow_callback_view env token event w).2 := by
  unfold workflow_callback_view
  cases hfind : w.rows.find? (holds_token token) with
  | none => exact .none
  | some row =>
    have htoken : holds_token token row = true := by simpa using List.find?_some hfind
    unfold inject_external_event
    simp only
    cases env.get_class row.node_type with
    | error e => exact .none
    | ok adapter =>
      simp only
      split_ifs
      · exact .called_back env token event row (List.mem_of_find?_eq_some hfind) htoken _ rfl
      · exact .none
      · exact .none

/-- Every event has one of these effects. -/
theorem Event.effect (e : Event) (he : e.Enabled w) (hresets : e.resets = true → resets = true) :
    Effect ver resets w (e.run ver w) := by
  cases e with
  | trigger env id params type user fs => exact .call (.trigger env id params type user fs) he
  | advance env user_id => exact advance_effect env user_id
  | light_advance env user_id => exact light_advance_effect env user_id
  | pushed_advance env => exact .if_running (.call (.advance env none) trivial)
  | scheduled env => exact .if_running (.call (.scheduled env) trivial)
  | sub_advance env =>
    simp only [Event.run]
    split_ifs
    · exact .call (.advance env none) trivial
    · exact .none
  | sub_cancel env =>
    simp only [Event.run]
    split_ifs
    · exact .none
    · exact .call (.cancel env none) trivial
  | cancel now => exact cancel_effect now
  | retry_node node_key => exact update_node_effect (.reset (hresets rfl) node_key) _ _
  | skip_node now node_key => exact update_node_effect (.skip now node_key) _ _
  | approve_node now node_key comment =>
    exact update_node_effect (.approve now node_key comment) _ _
  | rerun env p user_id mode => exact rerun_effect (hresets rfl) env p user_id mode
  | callback env token event => exact callback_effect env token event
  | push now repr ops => exact .update _ _ (.push now repr ops)
  | sync now repr ops => exact .update _ _ (.sync now repr ops)

/-- The worlds of an execution of `ver` under events of a kind. -/
inductive ReachedBy (ver : DagVersion) (allowed : Event → Prop) : World → World → Prop
  | refl (w : World) : ReachedBy ver allowed w w
  | step {w w' : World} (e : Event) (h : ReachedBy ver allowed w w') (he : e.Enabled w')
      (hallowed : allowed e) :
      ReachedBy ver allowed w (e.run ver w')

/-- The worlds of an execution of `ver` under any events. -/
abbrev Reached (ver : DagVersion) : World → World → Prop := ReachedBy ver fun _ => True

/-- One allowed event reaches its state. -/
theorem ReachedBy.single {allowed : Event → Prop} {e : Event} (he : e.Enabled w)
    (hallowed : allowed e) :
    ReachedBy ver allowed w (e.run ver w) := .step e (.refl w) he hallowed

end taurus.views
