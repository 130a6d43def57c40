import Taurus.Engine.Properties.Retries
import Taurus.Engine.Steps.Resting
import Taurus.Views.Executions

namespace taurus.views

open taurus.lib taurus.python taurus.engine taurus.engine.runner taurus.engine.executor taurus.ops taurus.units

variable {ver : DagVersion} {resets : Bool} {P : NodeExec → Prop} {Q : ExecStatus → Prop} {pk : Nat}
  {before : List Entry} {w w' : World}

/-- An idle row that the views and the writers of results keep idle as well. -/
structure Untouchable (resets : Bool) (P : NodeExec → Prop) (Q : ExecStatus → Prop) :
    Prop extends Idle P Q where
  updated : ∀ p c r, Updates resets p c → P r → p r = true → P (c.change r)
  rerun : resets = true → ∀ now r, P r → rerunnable r = true → P ((reset_at now).change r)
  called_back : ∀ (env : Env) token event r, P r → holds_token token r = true →
    P (applied env r (HttpCallbackAdapter.inject_external_event r.adapter_state event) false)
  restarted : resets = true → Q .RUNNING

/-- An update of rows that keeps the property. -/
theorem Rests.update (h : Rests P Q pk before w) {p : NodeExec → Bool} {c : RowChange}
    (hc : ∀ r, P r → p r = true → P (c.change r)) :
    Rests P Q pk before { w with table := w.table.update p c } := by
  obtain ⟨r, hr, hrpk, hP⟩ := h.stored
  refine ⟨?_, h.unasked, h.allowed⟩
  cases hp : p r with
  | false => exact ⟨r, (w.table.mem_update p c r).mpr (Or.inl ⟨hr, hp⟩), hrpk, hP⟩
  | true =>
    exact ⟨c.change r, (w.table.mem_update p c _).mpr (Or.inr ⟨r, hr, hp, rfl⟩),
      (c.same r).pk.trans hrpk, hc r hP hp⟩

namespace Untouchable

variable (h : Untouchable resets P Q)

include h

/-- No event works on a row that rests. -/
theorem effect (he : Effect ver resets w w') (hw : Rests P Q pk before w) :
    Rests P Q pk before w' := by
  cases he with
  | none => exact hw
  | call c hc => exact h.call c hc hw
  | cancelled now => exact hw.execution fun _ => h.cancelled_execution
  | update p c hupdates => exact Rests.update hw fun r hP hp => h.updated p c r hupdates hP hp
  | rerun hresets env user_id =>
    have hrows : Rests P Q pk before
        { w with table := w.table.update rerunnable (reset_at env.now) } :=
      Rests.update hw fun r hP hp => h.rerun hresets env.now r hP hp
    have hreset : Rests P Q pk before (reset_failed env.now w) := 
      hrows.execution (f := views.restarted) fun _ => h.restarted hresets
    exact h.call (.advance env user_id) trivial hreset
  | called_back env token event row hrow htoken new hnew =>
    have hid := apply_unit_output_sameIdentity env row
      (HttpCallbackAdapter.inject_external_event row.adapter_state event) false
    subst hnew
    by_cases hpk : row.pk = pk
    · have happlied := h.called_back env token event row (hw.of_pk hrow hpk) htoken
      exact ⟨⟨_, (w.table.mem_save hrow hid.pk _).mpr (Or.inr rfl), hpk, happlied⟩,
        hw.unasked, hw.allowed⟩
    · exact hw.save (by rwa [hid.pk]) env.now _

/-- Nor does any run of events. -/
theorem reached {allowed : Event → Prop}
    (hallowed : ∀ e, allowed e → e.resets = true → resets = true)
    (hrun : ReachedBy ver allowed w w') (hw : Rests P Q pk before w) : Rests P Q pk before w' := by
  induction hrun with
  | refl => exact hw
  | step e _ he h' ih => exact h.effect (e.effect he (hallowed e h')) ih

end Untouchable

theorem not_child_of_blank {r : NodeExec} (h : r.adapter_state = []) : is_loop_child r = false := by
  simp [is_loop_child, h, getJson, Json.truthy]

theorem pending_of_nextStatus {s t : Status} (h : nextStatus s t = .PENDING) : s = .PENDING := by
  cases s <;> cases t <;> first | rfl | exact absurd h (by decide)

theorem push_target_terminal (ops : OpsExecution) : (push_target ops).1.terminal = true := by
  unfold push_target
  cases ops.status <;> simp only
  all_goals first | rfl | (split_ifs <;> rfl)

/-- The push path leaves a row as it is, or terminal. -/
theorem push_row_cases (now : Time) (repr : Json → String) (ops : OpsExecution) (r : NodeExec) :
    push_row now repr ops r = r ∨
      (refers_to ops r = true ∧ r.status.terminal = false ∧
        (push_row now repr ops r).status.terminal = true) := by
  unfold push_row
  split_ifs with hopen hrow
  · exact Or.inl rfl
  · exact Or.inl rfl
  · have hcases : refers_to ops r = true ∧ r.status.terminal = false := by simpa using hrow
    exact Or.inr ⟨hcases.1, hcases.2, push_target_terminal ops⟩

theorem sync_target_terminal {status : OpsStatus} {s : Status} (h : sync_target status = some s) :
    s.terminal = true := by
  cases status <;> simp only [sync_target, Option.some.injEq, reduceCtorEq] at h <;> subst h <;> rfl

/-- The scheduler leaves a row as it is, or ends a running one. -/
theorem sync_row_cases (now : Time) (repr : Json → String) (ops : OpsExecution) (r : NodeExec) :
    sync_row now repr ops r = r ∨
      (r.status = .RUNNING ∧ (sync_row now repr ops r).status.terminal = true) := by
  unfold sync_row
  cases hs : sync_target ops.status with
  | none => exact Or.inl rfl
  | some s =>
    simp only
    by_cases hdue : sync_id repr r = some ops.execution_id ∧ sync_due now ops = true
    · rw [if_pos hdue]
      refine Or.inr ⟨?_, sync_target_terminal hs⟩
      by_contra hrunning
      simp [sync_id, hrunning] at hdue
    · exact Or.inl (if_neg hdue)

/-- A pending row is a loop child, or nothing has been written into it yet. -/
def Blank (r : NodeExec) : Prop :=
  r.status = .PENDING → is_loop_child r = true ∨ (r.adapter_state = [] ∧ r.output = [])

theorem blank_of_ne {r : NodeExec} (h : r.status ≠ .PENDING) : Blank r := fun hp => absurd hp h

/-- The rows that were acted on are blank. -/
theorem Noted.blank {x : Execution} {rows : List NodeExec} {log : List Entry} {act : Act}
    (h : Noted ver x log rows act) {r : NodeExec} (hr : r ∈ act.rows) : Blank r := by
  cases act with
  | dispatch | poll | cancel | aggregate => cases hr
  | create created =>
    obtain ⟨n, _, _, hfirst, _⟩ := h r hr
    exact fun _ => Or.inr ⟨hfirst.adapter_state, hfirst.output⟩
  | retry completed created =>
    obtain ⟨env, user_id, rfl⟩ := h
    obtain ⟨old, _, hrow⟩ := List.mem_filterMap.mp hr
    obtain ⟨n, _, rfl⟩ := Option.map_eq_some_iff.mp hrow
    exact fun _ => Or.inr ⟨rfl, rfl⟩
  | expand parent created => exact fun _ => Or.inl (h.2.2 r hr).loop_child
  | skip y ctx created =>
    obtain ⟨_, _, env, user_id, rfl⟩ := h
    obtain ⟨n, _, hrow⟩ := skip_inserts_spec hr
    exact blank_of_ne (by simp [(firstRow_of_skipped hrow).2.2.1])

/-- A save leaves no row pending, and what is inserted pending is blank. -/
theorem Step.blank (h : Step ver w w') (hw : ∀ r ∈ w.rows, Blank r) : ∀ r ∈ w'.rows, Blank r := by
  cases h with
  | begin | note | finish => exact hw
  | insert act hx h hins =>
    intro r hr
    have hc := Table.bulk_create_created hins
    obtain hr | hr := (hc.mem r).mp hr
    · obtain ⟨s, hs, heq⟩ := hc.row_of_mem r hr
      have hblank := Noted.blank h hs
      rw [heq]
      exact hblank
    · exact hw r hr
  | save old row now fields hold hpk h =>
    intro r hr
    obtain ⟨hr, _⟩ | rfl := (w.table.mem_save hold hpk r).mp hr
    · exact hw r hr
    · exact blank_of_ne h.status_ne_pending

/-- What holds in every world of an execution: a table without execution is empty, and
pending rows are blank. -/
structure Orderly (w : World) : Prop where
  noneEmpty : NoneEmpty (recorded.view w)
  blank : ∀ r ∈ w.rows, Blank r

/-- A tick keeps the rows in order. -/
theorem Orderly.call (h : Orderly w) (c : Call) (hc : c.Enabled w) : Orderly (c.run ver w) := by
  have hmoves : Moves ver w (c.run ver w) := call_moves c hc h.noneEmpty
  refine ⟨hmoves.noneEmpty h.noneEmpty, ?_⟩
  exact history.Moves.invariant (C := fun _ => True) (T := fun s : Db => ∀ r ∈ s.2.rows, Blank r)
    (fun _ _ h => h.log_grows) (fun _ _ h _ hw => Step.blank h hw) hmoves
    (fun _ _ => trivial) h.blank

theorem Orderly.update (h : Orderly w) {p : NodeExec → Bool} {c : RowChange}
    (hc : ∀ r ∈ w.rows, p r = true → Blank (c.change r)) :
    Orderly { w with table := w.table.update p c } := by
  constructor
  · intro hnone
    have hrows : w.table.rows = [] := h.noneEmpty hnone
    simp [recorded, Table.update, hrows]
  · intro r hr
    obtain ⟨hr, _⟩ | ⟨s, hs, hp, rfl⟩ := (w.table.mem_update p c r).mp hr
    · exact h.blank r hr
    · exact hc s hs hp

theorem Updates.blank {p : NodeExec → Bool} {c : RowChange} (h : Updates resets p c) {r : NodeExec}
    (hr : Blank r) :
    Blank (c.change r) := by
  cases h with
  | reset _ node_key => exact fun _ => Or.inr ⟨rfl, rfl⟩
  | skip now node_key => exact blank_of_ne nofun
  | approve now node_key comment => exact blank_of_ne nofun
  | push now repr ops =>
    change Blank (push_row now repr ops r)
    obtain heq | ⟨_, _, hterm⟩ := push_row_cases now repr ops r
    · rwa [heq]
    · exact blank_of_ne fun hp => by simp [hp] at hterm
  | sync now repr ops =>
    change Blank (sync_row now repr ops r)
    obtain heq | ⟨_, hterm⟩ := sync_row_cases now repr ops r
    · rwa [heq]
    · exact blank_of_ne fun hp => by simp [hp] at hterm

/-- A callback does not change whether its row is a loop child. -/
theorem called_back_child (adapter_state : Dict String Json) (event : CallbackEvent) (key : String)
    (hkey : key ∉ ["callback_status", "callback_payload", "error"]) :
    getJson (HttpCallbackAdapter.called_back adapter_state event) key =
      getJson adapter_state key := by
  obtain ⟨hstatus, hpayload, herror⟩ : key ≠ "callback_status" ∧ key ≠ "callback_payload" ∧
      key ≠ "error" := by
    simpa using hkey
  have hstored : getJson (Dict.set
    (Dict.set adapter_state "callback_status" event.status) "callback_payload"
      (.obj event.data)) key = getJson adapter_state key := by
    unfold getJson
    rw [Dict.get?_set_ne _ _ hpayload.symm, Dict.get?_set_ne _ _ hstatus.symm]
  unfold HttpCallbackAdapter.called_back
  by_cases hfailed : event.status.str? = some "failed"
  · rw [if_pos hfailed, ← hstored]
    unfold getJson
    rw [Dict.get?_set_ne _ _ herror.symm]
  · rw [if_neg hfailed]
    exact hstored

theorem Orderly.effect (h : Orderly w) (he : Effect ver resets w w') : Orderly w' := by
  cases he with
  | none => exact h
  | call c hc => exact h.call c hc
  | cancelled now =>
    refine ⟨fun hnone => h.noneEmpty ?_, h.blank⟩
    simpa [recorded] using hnone
  | update p c hupdates => exact h.update fun r hr _ => hupdates.blank (h.blank r hr)
  | rerun _ env user_id =>
    have hrows : Orderly { w with table := w.table.update rerunnable (reset_at env.now) } :=
      h.update fun r _ _ _ => Or.inr ⟨rfl, rfl⟩
    have hreset : Orderly (reset_failed env.now w) := by
      refine ⟨fun hnone => hrows.noneEmpty ?_, hrows.blank⟩
      simpa [recorded, reset_failed] using hnone
    exact hreset.call (.advance env user_id) trivial
  | called_back env token event row hrow htoken new hnew =>
    have hid := apply_unit_output_sameIdentity env row
      (HttpCallbackAdapter.inject_external_event row.adapter_state event) false
    subst hnew
    refine ⟨fun hnone => ?_, fun r hr => ?_⟩
    · have hrows : w.rows = [] := h.noneEmpty hnone
      simp [hrows] at hrow
    · obtain ⟨hr, _⟩ | rfl := (w.table.mem_save hrow hid.pk r).mp hr
      · exact h.blank r hr
      · intro hp
        have hstatus : nextStatus row.status
            (HttpCallbackAdapter.inject_external_event row.adapter_state event).status = .PENDING :=
          applied_status.symm.trans hp
        have hpending : row.status = .PENDING := pending_of_nextStatus hstatus
        obtain hchild | ⟨hstate, _⟩ := h.blank row hrow hpending
        · refine Or.inl ?_
          have hstate : (applied env row
            (HttpCallbackAdapter.inject_external_event row.adapter_state event)
              false).adapter_state = HttpCallbackAdapter.called_back row.adapter_state event := by
            rw [applied_adapter_state, HttpCallbackAdapter.inject_adapter_state]
            rfl
          unfold is_loop_child at hchild ⊢
          rw [← hchild]
          exact congrArg Json.truthy ((congrArg (getJson · "__loop_child__") hstate).trans
            (called_back_child _ event "__loop_child__" (by decide)))
        · simp [holds_token, hstate, getJson, Json.str?] at htoken

/-- Reached states are in order. -/
theorem reached_orderly (hw : Reached ver .initial w) : Orderly w := by
  induction hw with
  | refl => exact ⟨fun _ => rfl, by simp [World.initial, World.rows, Table.empty]⟩
  | step e _ he _ ih => exact ih.effect (e.effect he id)

/-- A stored row belongs to an execution. -/
theorem Orderly.exists_execution (h : Orderly w) {r : NodeExec} (hr : r ∈ w.rows) :
    ∃ x, w.execution = some x := by
  cases hx : w.execution with
  | none =>
    have hrows : w.rows = [] := h.noneEmpty hx
    simp [hrows] at hr
  | some x => exact ⟨x, rfl⟩

end taurus.views
