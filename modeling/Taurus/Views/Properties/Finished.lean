import Taurus.Views.Untouchable

namespace taurus.views

open taurus.lib taurus.python taurus.engine taurus.engine.runner taurus.engine.executor taurus.ops taurus.units

/-- The event starts the execution anew. -/
def Event.reruns : Event → Bool
  | .rerun .. => true
  | _ => false

/-- No callback and no result of a command finds the row. -/
structure Detached (r : NodeExec) : Prop where
  token : Dict.get? r.adapter_state "token" = none
  ops : Dict.get? r.adapter_state "ops_execution_id" = none
  output : Dict.get? r.output "ops_execution_id" = none

namespace Detached

variable {r : NodeExec} (h : Detached r)

include h

theorem not_holds (token : String) : holds_token token r = false := by
  simp [holds_token, getJson, h.token, Json.str?]

/-- The push changes no row that has ended. -/
theorem push_change (now : Time) (repr : Json → String) (ops : OpsExecution) :
    (push now repr ops).change r = r := by
  have hrefers : refers_to ops r = false := by simp [refers_to, getJson, h.ops, h.output, Json.str?]
  change push_row now repr ops r = r
  unfold push_row
  split_ifs with _ hrow
  · rfl
  · rfl
  · simp [hrefers] at hrow

theorem sync_change (now : Time) (repr : Json → String) (ops : OpsExecution) :
    (sync now repr ops).change r = r := by
  have hid : sync_id repr r = none := by simp [sync_id, getJson, h.ops, Json.truthy]
  change sync_row now repr ops r = r
  unfold sync_row
  cases sync_target ops.status with
  | none => rfl
  | some s => simp [hid]

end Detached

variable {ver : DagVersion} {w w' : World} {x : Execution}

/-- A finished execution with its log, and the rows that no result finds. -/
structure Left (x : Execution) (w w' : World) : Prop where
  execution : w'.execution = some x
  log : w'.log = w.log
  rows : ∀ r ∈ w.rows, Detached r → r ∈ w'.rows

namespace Left

theorem same (hx : w.execution = some x) : Left x w w := ⟨hx, rfl, fun _ hr _ => hr⟩

theorem trans {w'' : World} (h : Left x w w') (h' : Left x w' w'') : Left x w w'' :=
  ⟨h'.execution, h'.log.trans h.log, fun r hr hd => h'.rows r (h.rows r hr hd) hd⟩

/-- A change of all rows that leaves the detached ones. -/
theorem update (hx : w.execution = some x) {c : RowChange} (hc : ∀ r, Detached r → c.change r = r) :
    Left x w { w with table := w.table.update (fun _ => true) c } := by
  refine ⟨hx, rfl, fun r hr hd => (w.table.mem_update _ c r).mpr (Or.inr ⟨r, hr, rfl, hc r hd⟩)⟩

theorem callback (hx : w.execution = some x) (env : Env) (token : String) (event : CallbackEvent) :
    Left x w (workflow_callback_view env token event w).2 := by
  unfold workflow_callback_view
  cases hfind : w.rows.find? (holds_token token) with
  | none => exact .same hx
  | some row =>
    simp only
    cases inject_external_event env row event with
    | error e => exact .same hx
    | ok uo =>
      have htoken : holds_token token row = true := by simpa using List.find?_some hfind
      refine ⟨hx, rfl, fun r hr hd => ?_⟩
      have hpk : (_apply_unit_output env row uo false).1.pk = row.pk :=
        (apply_unit_output_sameIdentity env row uo false).pk
      refine (w.table.mem_save (List.mem_of_find?_eq_some hfind) hpk _).mpr
        (Or.inl ⟨hr, fun heq => ?_⟩)
      -- the row of the token is another one
      obtain rfl := w.table.eq_of_pk hr (List.mem_of_find?_eq_some hfind) heq
      rw [hd.not_holds token] at htoken
      cases htoken

/-- No event but a rerun takes a finished execution up. -/
theorem run (hx : w.execution = some x) (hfinished : x.status.finished = true) {e : Event}
    (he : e.Enabled w) (hreruns : e.reruns = false) : Left x w (e.run ver w) := by
  have hrunning : x.status ≠ .RUNNING := fun hs => by simp [hs, ExecStatus.finished] at hfinished
  have hany : w.execution.any (·.status = .RUNNING) = false := by simp [hx, hrunning]
  have hsame : Left x w w := .same hx
  cases e with
  | trigger env id params type user fs =>
    have hnone : w.execution = none := he
    simp [hnone] at hx
  | rerun => cases hreruns
  | advance env user_id => simpa [Event.run, views.advance, with_object, hx, hrunning] using hsame
  | light_advance env user_id => simpa [Event.run, views.light_advance, hx, hrunning] using hsame
  | pushed_advance env => simpa [Event.run, Event.if_running, hany] using hsame
  | scheduled env => simpa [Event.run, Event.if_running, hany] using hsame
  | sub_advance env => simpa [Event.run, hx, hfinished] using hsame
  | sub_cancel env => simpa [Event.run, hx, hfinished] using hsame
  | cancel now => simpa [Event.run, views.cancel, with_object, hx, hrunning] using hsame
  | retry_node node_key =>
    simpa [Event.run, views.retry_node, update_node, with_object, hx, hrunning] using hsame
  | skip_node now node_key =>
    simpa [Event.run, views.skip_node, update_node, with_object, hx, hrunning] using hsame
  | approve_node now node_key comment =>
    simpa [Event.run, views.approve_node, update_node, with_object, hx, hrunning] using hsame
  | callback env token event => exact callback hx env token event
  | push now repr ops => exact update hx fun r hd => hd.push_change now repr ops
  | sync now repr ops => exact update hx fun r hd => hd.sync_change now repr ops

/-- A finished execution is left as it is, unless it is rerun. -/
theorem reached (hx : w.execution = some x) (hfinished : x.status.finished = true)
    (hrun : ReachedBy ver (fun e => e.reruns = false) w w') : Left x w w' := by
  induction hrun with
  | refl => exact .same hx
  | step e _ he hreruns ih => exact ih.trans (run ih.execution hfinished he hreruns)

end Left

/-- The cancel view cancels nothing: neither it nor what follows, short of a rerun, asks an
adapter, and a row that was running stays so unless a callback or a result finds it. -/
theorem cancel_view_leaves_rows (hx : w.execution = some x)
    (hrunning : x.status = .RUNNING) (now : Time)
    (hrun : ReachedBy ver (fun e => e.reruns = false) ((Event.cancel now).run ver w) w') :
    w'.execution = some (saved_cancelled now x) ∧ w'.log = w.log ∧ ∀ r ∈ w.rows, Detached r →
      r ∈ w'.rows := by
  have hcancel : (Event.cancel now).run ver w =
      { w with execution := some (saved_cancelled now x) } := by
    simp [Event.run, cancel, with_object, hx, hrunning, saved_cancelled]
  rw [hcancel] at hrun
  have hleft := Left.reached rfl rfl hrun
  exact ⟨hleft.execution, hleft.log, hleft.rows⟩

/-- A copy beside a nested workflow. -/
def copyAndCheck : DagVersion where
  dag :=
    { nodes := [{ node_key := "start", node_type := "start" },
        { node_key := "copy", node_type := "command" },
        { node_key := "check", node_type := "sub_workflow" }]
      edges := [{ from_key := "start", to_key := "copy" },
        { from_key := "start", to_key := "check" }]
      keys_nodup := by decide
      edges_closed := by decide }
  workflow := { pk := 1, name := "copy and check" }

/-- Both nodes go on. -/
def allRunning (minute : Int) : Env := scripted minute (fun _ _ => running) fun _ _ => running

def bothRunning : World :=
  (Event.trigger (allRunning 0) 1 [] "manual" (some 1) none).run copyAndCheck .initial

/-- The world a tick after the cancel view. -/
def bothLeft : World :=
  (Event.scheduled (allRunning 1)).run copyAndCheck ((Event.cancel 60).run copyAndCheck bothRunning)

/-- The nested workflow is still running then. -/
theorem nested_workflow_left :
    ∃ r ∈ bothLeft.rows, r.node_type = "sub_workflow" ∧ r.status = .RUNNING := by
  obtain ⟨x, hx, hrunning⟩ : ∃ x ∈ bothRunning.execution, x.status = .RUNNING := by decide +kernel
  obtain ⟨r, hr, htype, hs, htoken, hops, houtput⟩ :
      ∃ r ∈ bothRunning.rows, r.node_type = "sub_workflow" ∧
      r.status = .RUNNING ∧ (Dict.get? r.adapter_state "token").isNone ∧
      (Dict.get? r.adapter_state "ops_execution_id").isNone ∧
          (Dict.get? r.output "ops_execution_id").isNone := by
    decide +kernel
  have hdetached : Detached r :=
    ⟨by simpa using htoken, by simpa using hops, by simpa using houtput⟩
  have hrun : ReachedBy copyAndCheck
      (fun e => e.reruns = false) ((Event.cancel 60).run copyAndCheck bothRunning) bothLeft :=
    .single (e := .scheduled (allRunning 1)) trivial rfl
  exact ⟨r, (cancel_view_leaves_rows hx hrunning 60 hrun).2.2 r hr hdetached, htype, hs⟩

/-- A row that ended with `s`, and is no loop parent. -/
structure Ended (s : Status) (r : NodeExec) : Prop where
  status : r.status = s
  not_parent : is_loop_parent r = false

end taurus.views
