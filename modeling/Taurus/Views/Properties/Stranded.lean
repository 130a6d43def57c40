import Taurus.Views.Untouchable

namespace taurus.views

open taurus.lib taurus.python taurus.engine taurus.engine.runner taurus.engine.executor taurus.ops taurus.units

variable {ver : DagVersion} {w w' : World}

/-- The row is not at work and will not be taken up: it is neither running nor a pending
loop child. -/
def Settled (r : NodeExec) : Prop :=
  r.status ≠ .RUNNING ∧ (r.status = .PENDING → r.adapter_state = [] ∧ r.output = [])

theorem terminal_of_settled {r : NodeExec} (hrunning : r.status ≠ .RUNNING)
    (hpending : r.status ≠ .PENDING) :
    r.status.terminal = true := by
  cases hs : r.status <;> simp_all

/-- A row that has ended is settled. -/
theorem settled_of_terminal {r : NodeExec} (h : r.status.terminal = true) : Settled r := by
  constructor <;> intro hs <;> simp [hs] at h

theorem settled_of_reset {r : NodeExec} (hs : r.status = .PENDING) (hstate : r.adapter_state = [])
    (houtput : r.output = []) :
    Settled r := ⟨by simp [hs], fun _ => ⟨hstate, houtput⟩⟩

/-- Settled rows are not touched. -/
theorem settled_untouchable : Untouchable true Settled fun _ => True where
  not_running r h := h.1
  not_waiting r h hpending := not_child_of_blank (h.2 hpending).1
  cancelled r row env user_id message _ _ _ :=
    settled_of_terminal (by simp [NodeExec.write, cancelFields, cancelled_row])
  aggregated r row env children _ _ _ := by
    refine settled_of_terminal ?_
    rcases aggregated_row_status env row children with hs | hs <;>
      simp [NodeExec.write, aggregateFields, hs]
  finished _ _ _ _ _ _ _ := trivial
  cancelled_execution := trivial
  updated p c r hupdates h hp := by
    cases hupdates with
    | reset _ node_key => exact settled_of_reset rfl rfl rfl
    | skip now node_key => exact settled_of_terminal rfl
    | approve now node_key comment => exact settled_of_terminal rfl
    | push now repr ops =>
      change Settled (push_row now repr ops r)
      obtain heq | ⟨_, _, hterm⟩ := push_row_cases now repr ops r
      · rwa [heq]
      · exact settled_of_terminal hterm
    | sync now repr ops =>
      change Settled (sync_row now repr ops r)
      obtain heq | ⟨_, hterm⟩ := sync_row_cases now repr ops r
      · rwa [heq]
      · exact settled_of_terminal hterm
  rerun _ now r _ _ := settled_of_reset rfl rfl rfl
  called_back env token event r h htoken := by
    have hpending : r.status ≠ .PENDING := by
      intro hp
      simp [holds_token, (h.2 hp).1, getJson, Json.str?] at htoken
    have hterm := terminal_of_settled h.1 hpending
    exact settled_of_terminal (by rwa [applied_status, nextStatus_terminal hterm])
  restarted _ := trivial

/-- A pending row is settled if it is no loop child. -/
theorem Orderly.settled (h : Orderly w) {r : NodeExec} (hr : r ∈ w.rows)
    (hrunning : r.status ≠ .RUNNING)
    (hwaiting : r.status = .PENDING → is_loop_child r = false) : Settled r := by
  refine ⟨hrunning, fun hp => ?_⟩
  obtain hchild | hblank := h.blank r hr hp
  · rw [hwaiting hp] at hchild
    cases hchild
  · exact hblank

/-- A build beside a watch. -/
def watchedBuild : DagVersion where
  dag :=
    { nodes := [{ node_key := "start", node_type := "start" },
        { node_key := "build", node_type := "command" },
        { node_key := "watch", node_type := "command" }]
      edges := [{ from_key := "start", to_key := "build" },
        { from_key := "start", to_key := "watch" }]
      keys_nodup := by decide
      edges_closed := by decide }
  workflow := { pk := 1, name := "watched build" }

/-- The build fails at once, the watch succeeds at its first poll. -/
def buildFails (minute : Int) : Env :=
  scripted minute (fun key _ => { status := if key = "build" then .FAILED else .RUNNING })
    fun _ _ =>
    { status := .SUCCESS }

def buildTriggered : Event := .trigger (buildFails 0) 1 [] "manual" (some 1) none

/-- The world after the trigger. -/
def buildFailed : World := buildTriggered.run watchedBuild .initial

theorem buildFailed_reached : Reached watchedBuild .initial buildFailed := .single rfl trivial

/-- The world after a retry of the build. -/
def buildRetried : World := (Event.retry_node "build").run watchedBuild buildFailed

theorem buildRetried_reached : Reached watchedBuild .initial buildRetried :=
  .step (.retry_node "build") buildFailed_reached trivial trivial

/-- The world after the next tick. -/
def watchDone : World := (Event.scheduled (buildFails 1)).run watchedBuild buildRetried

theorem watchDone_reached : Reached watchedBuild buildRetried watchDone := .single trivial trivial

/-- A row that is neither running nor a pending loop child is never handed to its adapter
again, nor polled or cancelled there, whatever ticks, views, callbacks and results follow. -/
theorem settled_row_never_asked (hw : Reached ver .initial w) {r : NodeExec} (hr : r ∈ w.rows)
    (hrunning : r.status ≠ .RUNNING) (hwaiting : r.status = .PENDING → is_loop_child r = false)
    (hrun : Reached ver w w') :
    ∃ later, w'.log = w.log ++ later ∧ ∀ e ∈ later, ¬ e.act.Asks r.pk := by
  have horderly := reached_orderly hw
  obtain ⟨x, hx⟩ := horderly.exists_execution hr
  have hsettled : Settled r := horderly.settled hr hrunning hwaiting
  exact (settled_untouchable.reached
    (fun _ _ _ => rfl) hrun (Rests.start hr hsettled hx trivial)).unasked

/-- The failed build is not dispatched again after its retry. -/
theorem failed_build_never_asked :
    ∃ r ∈ buildFailed.rows, r.node_key = "build" ∧ r.status = .FAILED ∧
    ∃ later, watchDone.log = buildFailed.log ++ later ∧ ∀ e ∈ later, ¬ e.act.Asks r.pk := by
  obtain ⟨r, hr, hkey, hs⟩ : ∃ r ∈ buildFailed.rows, r.node_key = "build" ∧ r.status = .FAILED := by
    decide +kernel
  have hrun : Reached watchedBuild buildFailed watchDone :=
    .step (.scheduled (buildFails 1))
      (.single (e := .retry_node "build") trivial trivial) trivial trivial
  exact ⟨r, hr, hkey, hs, settled_row_never_asked buildFailed_reached hr (by simp [hs])
    (by simp [hs]) hrun⟩

/-- A row that neither the views nor the aggregation of loops complete. -/
def Ordinary (r : NodeExec) : Prop := r.node_type ∉ ["start", "end", "loop", "approval"]

/-- An ordinary row that waits with nothing written into it, or is cancelled. -/
structure Stranded (r : NodeExec) : Prop where
  ordinary : Ordinary r
  idle : (r.status = .PENDING ∧ r.adapter_state = [] ∧ r.output = []) ∨
    (r.status = .CANCELLED ∧ is_loop_parent r = false)

/-- The statuses of an execution that has not come to its end by itself. -/
def Unresolved (s : ExecStatus) : Prop := s = .RUNNING ∨ s = .CANCELLED

/-- An ordinary row is a loop parent only by the items in its adapter state. -/
theorem Ordinary.loop_parent {r : NodeExec} (h : Ordinary r) : is_loop_parent r =
    (!is_loop_child r && !(getJson r.adapter_state "loop_aggregated").truthy &&
      (getJson r.adapter_state "loop_items").truthy) := by
  have htype : r.node_type ≠ "loop" := fun heq => h (by simp [heq])
  simp [is_loop_parent, htype]

/-- An ordinary row is one by its type. -/
theorem Ordinary.of_type {r r' : NodeExec} (h : Ordinary r) (htype : r'.node_type = r.node_type) :
    Ordinary r' := by
  unfold Ordinary
  rw [htype]
  exact h

namespace Stranded

/-- An ordinary row that was reset is stranded. -/
theorem of_reset {r r' : NodeExec} (h : Ordinary r) (htype : r'.node_type = r.node_type)
    (hs : r'.status = .PENDING) (hstate : r'.adapter_state = []) (houtput : r'.output = []) :
    Stranded r' :=
  ⟨h.of_type htype, Or.inl ⟨hs, hstate, houtput⟩⟩

theorem not_parent {r : NodeExec} (h : Stranded r) : is_loop_parent r = false := by
  obtain ⟨_, hstate, _⟩ | ⟨_, hparent⟩ := h.idle
  · rw [h.ordinary.loop_parent]
    simp [hstate, getJson, Json.truthy]
  · exact hparent

/-- Stranded rows are settled. -/
theorem settled {r : NodeExec} (h : Stranded r) : Settled r := by
  obtain ⟨hs, hblank⟩ | ⟨hs, _⟩ := h.idle
  · exact ⟨by simp [hs], fun _ => hblank⟩
  · exact settled_of_terminal (by simp [hs])

/-- A cancelled row with the loop entries of a stranded one is stranded. -/
theorem of_cancelled {r r' : NodeExec} (h : Stranded r) (hr' : Ordinary r')
    (hs : r'.status = .CANCELLED)
    (hkeys : ∀ key ∈ ["__loop_child__", "loop_aggregated", "loop_items"],
      getJson r'.adapter_state key = getJson r.adapter_state key) : Stranded r' := by
  refine ⟨hr', Or.inr ⟨hs, ?_⟩⟩
  have hparent := h.not_parent
  rw [h.ordinary.loop_parent] at hparent
  rw [hr'.loop_parent]
  unfold is_loop_child at hparent ⊢
  rwa [hkeys "__loop_child__" (by simp), hkeys "loop_aggregated"
    (by simp), hkeys "loop_items" (by simp)]

/-- While it is there the execution does not end by itself. -/
theorem final {r : NodeExec} (h : Stranded r) {dag : Dag} {rows : List NodeExec} (hr : r ∈ rows)
    {status : ExecStatus} (hfinal : final_status dag rows = some status) : status = .CANCELLED := by
  have hbusiness : r ∈ rows.filter fun r => r.node_type ≠ "start" ∧ r.node_type ≠ "end" := by
    have hne : r.node_type ≠ "start" ∧ r.node_type ≠ "end" :=
      ⟨fun heq => h.ordinary (by simp [heq]), fun heq => h.ordinary (by simp [heq])⟩
    simpa [hr] using hne
  unfold final_status at hfinal
  simp only at hfinal
  generalize rows.filter (fun r => r.node_type ≠ "start" ∧ r.node_type ≠ "end") =
    business at hfinal hbusiness
  have hsome : business ≠ [] := List.ne_nil_of_mem hbusiness
  split_ifs at hfinal with _ hempty hall hcancelled
  · exact absurd hempty.1 hsome
  · exact (Option.some.inj hfinal).symm
  all_goals
    have hterm : r.status.terminal = true := by
      rw [Bool.not_eq_true', Bool.not_eq_false] at hall
      exact List.all_eq_true.mp hall r hbusiness
    obtain ⟨hs, _⟩ | ⟨hs, _⟩ := h.idle
    · simp [hs] at hterm
    · exact absurd (List.any_eq_true.mpr ⟨r, hbusiness, by simp [hs]⟩) hcancelled

/-- They are not touched. -/
theorem untouchable : Untouchable true Stranded Unresolved where
  not_running r h := h.settled.1
  not_waiting r h hpending := not_child_of_blank (h.settled.2 hpending).1
  cancelled r row env user_id message h hrow _ := by
    have hstate : (r.write (cancelled_row env user_id message row) env.now
      (cancelFields user_id)).adapter_state =
        row.adapter_state := by simp [NodeExec.write, cancelFields, cancelled_row]
    refine hrow.of_cancelled (h.ordinary.of_type rfl) ?_ fun key _ =>
      congrArg (getJson · key) hstate
    simp [NodeExec.write, cancelFields, cancelled_row]
  aggregated r row env children _ hrow hparent := by
    rw [hrow.not_parent] at hparent
    cases hparent
  finished r dag rows status hr h hfinal := Or.inr (h.final hr hfinal)
  cancelled_execution := Or.inr rfl
  updated p c r hupdates h hp := by
    cases hupdates with
    | reset _ node_key => exact of_reset h.ordinary rfl rfl rfl rfl
    | skip now node_key => exact h.of_cancelled (h.ordinary.of_type rfl) rfl fun _ _ => rfl
    | approve now node_key comment =>
      have htype : r.node_type = "approval" := by
        simp only [approvable, Bool.and_eq_true, decide_eq_true_eq] at hp
        exact hp.2
      exact absurd h.ordinary (by simp [Ordinary, htype])
    | push now repr ops =>
      change Stranded (push_row now repr ops r)
      obtain heq | ⟨hrefers, hopen, _⟩ := push_row_cases now repr ops r
      · rwa [heq]
      · obtain ⟨_, hstate, houtput⟩ | ⟨hs, _⟩ := h.idle
        · simp [refers_to, hstate, houtput, getJson, Json.str?] at hrefers
        · simp [hs] at hopen
    | sync now repr ops =>
      change Stranded (sync_row now repr ops r)
      obtain heq | ⟨hs, _⟩ := sync_row_cases now repr ops r
      · rwa [heq]
      · exact absurd hs h.settled.1
  rerun _ now r h _ := of_reset h.ordinary rfl rfl rfl rfl
  called_back env token event r h htoken := by
    obtain ⟨_, hstate, _⟩ | ⟨hs, hparent⟩ := h.idle
    · simp [holds_token, hstate, getJson, Json.str?] at htoken
    · have hkeys : ∀ key ∈ ["__loop_child__", "loop_aggregated", "loop_items"],
          key ∉ ["callback_status", "callback_payload", "error"] := by decide
      refine h.of_cancelled (h.ordinary.of_type rfl) ?_ fun key hkey => ?_
      · rw [applied_status, hs]
        exact nextStatus_terminal rfl _
      · rw [applied_adapter_state, HttpCallbackAdapter.inject_adapter_state]
        exact called_back_child _ event key (hkeys key hkey)
  restarted _ := Or.inl rfl

end Stranded

/-- An execution with an ordinary row that waits for nothing, or is cancelled, neither
completes nor fails, whatever ticks, views, callbacks and results follow. -/
theorem stranded_never_completes (hw : Reached ver .initial w) {x : Execution}
    (hx : w.execution = some x) (hopen : Unresolved x.status) {r : NodeExec} (hr : r ∈ w.rows)
    (hordinary : Ordinary r) (hidle : (r.status = .PENDING ∧ is_loop_child r = false) ∨
      (r.status = .CANCELLED ∧ is_loop_parent r = false))
    (hrun : Reached ver w w') : ∃ x', w'.execution = some x' ∧ Unresolved x'.status := by
  have hstranded : Stranded r := by
    refine ⟨hordinary, ?_⟩
    obtain ⟨hs, hchild⟩ | hcancelled := hidle
    · obtain ⟨hstate, houtput⟩ :=
        ((reached_orderly hw).settled hr (by simp [hs]) fun _ => hchild).2 hs
      exact Or.inl ⟨hs, hstate, houtput⟩
    · exact Or.inr hcancelled
  exact (Stranded.untouchable.reached
    (fun _ _ _ => rfl) hrun (Rests.start hr hstranded hx hopen)).allowed

/-- The execution with the build set back waits for ever. -/
theorem retried_build_never_completes :
    ∃ x', watchDone.execution = some x' ∧ Unresolved x'.status := by
  obtain ⟨x, hx, hs⟩ : ∃ x ∈ buildRetried.execution, x.status = .RUNNING := by decide +kernel
  obtain ⟨r, hr, hordinary, hpending, hchild⟩ : ∃ r ∈ buildRetried.rows,
      r.node_type ∉ ["start", "end", "loop", "approval"] ∧ r.status = .PENDING ∧
        is_loop_child r = false := by
    decide +kernel
  exact stranded_never_completes buildRetried_reached hx (Or.inl hs) hr hordinary
    (Or.inl ⟨hpending, hchild⟩)
    watchDone_reached

/-- The actions of a person on a row: a retry of its node, a skip of it, and a rerun of the
failed nodes. -/
inductive ActsOn (x : Execution) (r : NodeExec) : Event → Prop
  | retry (hrunning : x.status = .RUNNING) (hended : r.status = .FAILED ∨ r.status = .CANCELLED) :
      ActsOn x r (.retry_node r.node_key)
  | skip (now : Time) (hrunning : x.status = .RUNNING) (hpending : r.status = .PENDING) :
      ActsOn x r (.skip_node now r.node_key)
  | rerun (env : Env) (p : Published) (user_id : Int) (mode : Json) (hopen : x.status ≠ .RUNNING)
      (hpublished : p.dag_published_version_id ≠ none)
      (hversion : p.dag_version_id = none ∨ p.dag_version_id = p.dag_published_version_id)
      (hmode : mode.str? = some "failed_only")
      (hended : r.status = .FAILED ∨ r.status = .SKIPPED ∨ r.status = .CANCELLED) :
      ActsOn x r (.rerun env p user_id mode)

/-- On a running execution with such rows the view updates them. -/
theorem update_node_run {x : Execution} (hx : w.execution = some x) (hrunning : x.status = .RUNNING)
    {selected : NodeExec → Bool} {r : NodeExec} (hr : r ∈ w.rows) (hsel : selected r = true)
    (c : RowChange) (none_found : String) (done : Nat → String) :
    (update_node selected c none_found done w).2 =
      { w with table := w.table.update selected c } := by
  have hsome : w.rows.filter selected ≠ [] := List.ne_nil_of_mem (List.mem_filter.mpr ⟨hr, hsel⟩)
  unfold update_node with_object
  simp only [hx]
  rw [if_neg (by simp [hrunning]), if_neg hsome]

/-- An update that strands a row. -/
theorem Rests.of_update {Q : ExecStatus → Prop} {x : Execution} (hx : w.execution = some x)
    (hQ : Q x.status) {r : NodeExec} (hr : r ∈ w.rows) {p : NodeExec → Bool} (hp : p r = true)
    {c : RowChange} (hP : P (c.change r)) :
    Rests P Q r.pk w.log { w with table := w.table.update p c } := by
  refine ⟨⟨c.change r, ?_, (c.same r).pk, hP⟩, ⟨[], by simp⟩, x, hx, hQ⟩
  exact (w.table.mem_update p c _).mpr (Or.inr ⟨r, hr, hp, rfl⟩)

/-- A request that resets an ordinary row strands it. -/
theorem ActsOn.strands (hw : Orderly w) {x : Execution} (hx : w.execution = some x) {r : NodeExec}
    (hr : r ∈ w.rows) (hordinary : Ordinary r) {e : Event} (he : ActsOn x r e) :
    Rests Stranded Unresolved r.pk w.log (e.run ver w) := by
  cases he with
  | retry hrunning hended =>
    have hsel : retryable r.node_key r = true := by
      obtain hs | hs := hended <;> simp [retryable, hs, Status.toInt]
    simp only [Event.run, retry_node]
    rw [update_node_run hx hrunning hr hsel]
    exact Rests.of_update hx (Or.inl hrunning) hr hsel (Stranded.of_reset hordinary rfl rfl rfl rfl)
  | skip now hrunning hpending =>
    have hsel : skippable r.node_key r = true := by simp [skippable, hpending]
    -- a loop child is no parent of children, and any other pending row is blank
    have hparent : is_loop_parent r = false := by
      rw [hordinary.loop_parent]
      obtain hchild | ⟨hstate, _⟩ := hw.blank r hr hpending
      · simp [hchild]
      · simp [hstate, getJson, Json.truthy]
    simp only [Event.run, skip_node]
    rw [update_node_run hx hrunning hr hsel]
    exact Rests.of_update hx (Or.inl hrunning) hr hsel
      ⟨hordinary.of_type rfl, Or.inr ⟨rfl, hparent⟩⟩
  | rerun env p user_id mode hopen hpublished hversion hmode hended =>
    have hsel : rerunnable r = true := by
      obtain hs | hs | hs := hended <;> simp [rerunnable, hs, Status.toInt]
    have hsame : ¬ (p.dag_version_id.isSome = true ∧
      p.dag_version_id ≠ p.dag_published_version_id) := by
      rintro ⟨hsome, hne⟩
      obtain hnone | heq := hversion
      · simp [hnone] at hsome
      · exact hne heq
    have hrun : Event.run ver (.rerun env p user_id mode) w =
        Call.run ver (.advance env (some user_id)) (reset_failed env.now w) := by
      simp only [Event.run, views.rerun, with_object, hx]
      rw [if_neg hopen, if_neg (by simpa using hpublished), if_neg hsame,
        if_neg (by simp [hmode]), if_pos hmode]
      rfl
    -- the tick of the rerun comes after the reset
    have hreset : Rests Stranded Unresolved r.pk w.log (reset_failed env.now w) := by
      have hrows : Rests Stranded (fun _ => True) r.pk w.log
          { w with table := w.table.update rerunnable (reset_at env.now) } :=
        Rests.of_update hx trivial hr hsel (Stranded.of_reset hordinary rfl rfl rfl rfl)
      exact ⟨hrows.stored, hrows.unasked, views.restarted x, by simp [reset_failed, hx], Or.inl rfl⟩
    rw [hrun]
    exact Stranded.untouchable.call (.advance env (some user_id)) trivial hreset

/-- A node that a person retries, skips or reruns is never run for it: no adapter is asked about
its row again, and the execution neither completes nor fails any more. -/
theorem manual_action_strands (hw : Reached ver .initial w) {x : Execution}
    (hx : w.execution = some x) {r : NodeExec} (hr : r ∈ w.rows) (hordinary : Ordinary r)
    {e : Event} (he : ActsOn x r e) (hrun : Reached ver (e.run ver w) w') :
    (∃ later, w'.log = w.log ++ later ∧ ∀ entry ∈ later, ¬ entry.act.Asks r.pk) ∧
      ∃ x', w'.execution = some x' ∧ Unresolved x'.status := by
  have hrests := Stranded.untouchable.reached (fun _ _ _ => rfl) hrun
    (he.strands (reached_orderly hw) hx hr hordinary)
  exact ⟨hrests.unasked, hrests.allowed⟩

/-- The retry of the build strands it. -/
theorem retry_strands_build : ∃ r ∈ buildFailed.rows, r.status = .FAILED ∧
    (∃ later, watchDone.log = buildFailed.log ++ later ∧ ∀ entry ∈ later, ¬ entry.act.Asks r.pk) ∧
      ∃ x', watchDone.execution = some x' ∧ Unresolved x'.status := by
  obtain ⟨x, hx, hrunning⟩ : ∃ x ∈ buildFailed.execution, x.status = .RUNNING := by decide +kernel
  obtain ⟨r, hr, hkey, hordinary, hs⟩ : ∃ r ∈ buildFailed.rows, r.node_key = "build" ∧
      r.node_type ∉ ["start", "end", "loop", "approval"] ∧ r.status = .FAILED := by decide +kernel
  have hretry : ActsOn x r (.retry_node "build") := hkey ▸ .retry hrunning (Or.inl hs)
  exact ⟨r, hr, hs, manual_action_strands buildFailed_reached hx hr hordinary hretry watchDone_reached⟩

end taurus.views
