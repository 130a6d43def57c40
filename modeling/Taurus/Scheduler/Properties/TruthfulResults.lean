import Taurus.Scheduler.Finalizing

namespace taurus.scheduler

open taurus.lib taurus.python taurus.engine

namespace ScriptTaskExecution

/-- `result.host_summary` counts `hosts` hosts. -/
def Counts (rec : ScriptTaskExecution) (hosts : Nat) : Prop :=
  ∃ failed_ops, Dict.get? rec.result_dict "host_summary" = some (host_summary hosts failed_ops)

variable {rec stored : ScriptTaskExecution} {total_ops failed_ops hosts : Nat} {now : Time}

/-- A record counts the hosts exactly if its summary has their number. -/
theorem counts_iff_of_summary
    (h : Dict.get? rec.result_dict "host_summary" = some (host_summary total_ops failed_ops)) :
    rec.Counts hosts ↔ total_ops = hosts := by
  unfold Counts
  rw [h]
  constructor
  · rintro ⟨failed_ops', heq⟩
    simp only [host_summary, Option.some.injEq, Json.obj.injEq, List.cons.injEq, Prod.mk.injEq,
      Json.int.injEq] at heq
    omega
  · rintro rfl
    exact ⟨failed_ops, rfl⟩

/-- The summary of a finalized record. -/
theorem summary_finalized (rec : ScriptTaskExecution) (total_ops failed_ops : Nat) (now : Time) :
    Dict.get? (rec.finalized total_ops failed_ops now).result_dict "host_summary" =
      some (host_summary total_ops failed_ops) :=
  Dict.get?_set_self _ _ _

theorem in_batch_finalized (batch_id : String) :
    (rec.finalized total_ops failed_ops now).in_batch batch_id = rec.in_batch batch_id := by
  unfold in_batch getJson
  change isText ((Dict.get?
    (Dict.set rec.result_dict "host_summary" _) "batch_id").getD .null) batch_id = _
  rw [Dict.get?_set_ne _ _ (by decide)]

end ScriptTaskExecution

namespace Dispatching

variable {env : Environment} {job : Job} {tables : Tables} {s s' : Dispatching}
  {events : List Event} {event : Event}

/-! What a run says about the order of its steps. -/

namespace Event

/-- A row ends. -/
def ends : Event → Bool
  | finish .. | interrupt .. => true
  | create | mark | start .. | query => false

/-- The record may be written: by the worker or by the finalizer. -/
def writes : Event → Bool
  | mark | query => true
  | create | start .. | finish .. | interrupt .. => false

/-- The row ends as failed. -/
def fails : Event → Bool
  | finish _ attempt _ => attempt.error.getD "" ≠ "" ∨ attempt.exit_code ≠ 0
  | create | mark | start .. | interrupt .. | query => false

def interrupts : Event → Bool
  | interrupt .. => true
  | create | mark | start .. | finish .. | query => false

end Event

def last (p : Event → Bool) (events : List Event) : Option Event := events.reverse.find? p

@[simp] theorem last_append (p : Event → Bool) (events : List Event) (event : Event) :
    last p (events ++ [event]) = if p event then some event else last p events := by
  unfold last
  rw [List.reverse_append, List.reverse_singleton, List.singleton_append, List.find?_cons]
  cases p event <;> rfl

/-- The last row to end has not been interrupted. -/
def LastFinished (events : List Event) : Prop :=
  ∃ i attempt now, last Event.ends events = some (.finish i attempt now)

/-- The finalizer goes on after the worker's marking. -/
def FinalizedLate (events : List Event) : Prop := last Event.writes events = some .query

/-- No row has been interrupted, unless some row has failed. -/
def Excused (events : List Event) : Prop :=
  (∃ e ∈ events, e.interrupts = true) → ∃ e ∈ events, e.fails = true

/-! Where a run begins and where it is over. -/

/-- Every host has its row, the record is there, and no record has the batch id
before the worker gives it. -/
structure Started (env : Environment) (job : Job) (tables : Tables) : Prop where
  targets : job.hosts ≠ []
  accepted : ∀ h ∈ job.hosts, env.refuses h = none
  numbered : job.execution_id ≠ 0
  recorded : ∃ rec ∈ tables.executions, rec.id = job.execution_id
  unused : ∀ rec ∈ tables.executions, rec.in_batch (job.batch_id env) = false

/-- All rows exist and are terminal. -/
def Complete (s : Dispatching) : Prop := s.todo = [] ∧ ∀ row ∈ s.rows, row.status.terminal = true

/-- The worker has finished, all rows exist and are terminal, and so are the writes
that their ends cause. -/
structure Over (s : Dispatching) : Prop where
  complete : s.Complete
  marked : s.marked = true
  idle : s.finalizer = pure ()

/-- The record is a success if and only if every row is, and its summary counts all hosts. -/
def Truthful (job : Job) (s : Dispatching) : Prop :=
  ∃ rec, s.tables.executions.find? (·.id = job.execution_id) = some rec ∧
    (rec.status = .success ↔ ∀ row ∈ s.rows, row.status = .SUCCESS) ∧ rec.Counts job.hosts.length

/-! What the rows of the batch are like. -/

/-- The exit code is that of the row's end. -/
def Fits (row : ops.OpsExecution) : Prop :=
  match row.status with
  | .PENDING | .RUNNING | .ABORTED => row.exit_code = none
  | .SUCCESS => row.exit_code = some 0
  | .FAILED => True
  | .APPROVING | .REJECTED => False

/-- A row counts as failed exactly if its status says so. -/
theorem is_failed_iff {row : ops.OpsExecution} (h : Fits row) :
    is_failed row = true ↔ row.status = .FAILED := by
  unfold is_failed
  unfold Fits at h
  split at h <;> simp_all

theorem is_pending_iff {row : ops.OpsExecution} (h : Fits row) :
    is_pending row = true ↔ row.status.terminal = false := by
  unfold is_pending
  unfold Fits at h
  split at h <;> simp_all [ops.OpsStatus.terminal]

theorem fits_stored {op : OpsExecution} (h : op.status = .PENDING) : Fits op.stored := by
  unfold Fits
  change match op.status with | .PENDING | .RUNNING | .ABORTED => _ | .SUCCESS => _ | .FAILED => _ | .APPROVING | .REJECTED => _
  rw [h]
  rfl

theorem fits_finish (row : ops.OpsExecution) (attempt : ops.Attempt) (now : Time) :
    Fits (ops.update_execution_success now row attempt) := by
  unfold Fits ops.update_execution_success
  by_cases h : attempt.error.getD "" ≠ "" ∨ attempt.exit_code ≠ 0
  · simp only [if_pos h]
  · simp only [if_neg h]
    rw [not_or, not_not, not_not] at h
    rw [h.2]

section

variable {rows : List ops.OpsExecution} {i : Nat} {row new : ops.OpsExecution}

theorem forall_set {P : ops.OpsExecution → Prop} (h : ∀ r ∈ rows, P r) (hnew : P new) :
    ∀ r ∈ rows.set i new, P r := by
  intro r hr
  obtain hr | rfl := List.mem_or_eq_of_mem_set hr
  · exact h r hr
  · exact hnew

/-- A row that has another status is replaced. -/
theorem exists_status_set {status : ops.OpsStatus} (hrow : rows[i]? = some row)
    (hne : row.status ≠ status) :
    (∃ r ∈ rows.set i new, r.status = status) ↔
      (∃ r ∈ rows, r.status = status) ∨ new.status = status := by
  have hi := (List.getElem?_eq_some_iff.mp hrow).1
  constructor
  · rintro ⟨r, hr, hstatus⟩
    obtain hr | rfl := List.mem_or_eq_of_mem_set hr
    · exact .inl ⟨r, hr, hstatus⟩
    · exact .inr hstatus
  · rintro (⟨r, hr, hstatus⟩ | hstatus)
    · obtain ⟨j, hj⟩ := List.mem_iff_getElem?.mp hr
      have hij : i ≠ j := by
        rintro rfl
        rw [hrow] at hj
        exact hne (Option.some.inj hj ▸ hstatus)
      exact ⟨r, List.mem_iff_getElem?.mpr ⟨j, (List.getElem?_set_ne hij).trans hj⟩, hstatus⟩
    · exact ⟨new, List.mem_set hi new, hstatus⟩

end

/-! What the rows and the record keep in every run. -/

/-- The rows and the record after some events. -/
structure Kept (env : Environment) (job : Job) (events : List Event) (s : Dispatching) : Prop where
  count : s.rows.length + s.todo.length = job.hosts.length
  batch : ∀ row ∈ s.rows, row.batch_id = some (job.batch_id env) ∧ Fits row
  todo : ∀ op ∈ s.todo, op.batch_id = job.batch_id env ∧ op.status = .PENDING
  marked : s.marked = true → s.todo = []
  recorded : ∃ rec ∈ s.tables.executions, rec.id = job.execution_id
  in_batch : ∀ rec ∈ s.tables.executions,
    rec.in_batch (job.batch_id env) = true ↔ s.marked = true ∧ rec.id = job.execution_id
  aborted : (∃ row ∈ s.rows, row.status = .ABORTED) ↔ ∃ e ∈ events, e.interrupts = true
  failed : (∃ row ∈ s.rows, row.status = .FAILED) ↔ ∃ e ∈ events, e.fails = true

/-- Each accepted host has its row. -/
theorem created_length (haccepted : ∀ h ∈ job.hosts, env.refuses h = none) :
    (job.created env).length = job.hosts.length := by
  have hall : ∀ p ∈ job.outcomes env, p.1.isSome = true := by
    intro p hp
    obtain ⟨⟨host, i⟩, hmem, rfl⟩ := List.mem_map.mp hp
    have hhost := haccepted host (List.fst_mem_of_mem_zipIdx hmem)
    simp only [dispatch_host, hhost]
    rfl
  unfold Job.created
  rw [List.length_filterMap_eq_countP, List.countP_eq_length.mpr hall]
  unfold Job.outcomes dispatch_hosts
  rw [List.length_map, List.length_zipIdx]

theorem mem_created {op : OpsExecution} (h : op ∈ job.created env) :
    op.batch_id = job.batch_id env ∧ op.status = .PENDING := by
  obtain ⟨p, hp, hop⟩ := List.mem_filterMap.mp h
  obtain ⟨⟨host, i⟩, -, rfl⟩ := List.mem_map.mp hp
  unfold dispatch_host at hop
  cases hrefuses : env.refuses host with
  | none =>
    simp only [hrefuses, Option.some.injEq] at hop
    subst hop
    exact ⟨rfl, rfl⟩
  | some error => simp only [hrefuses, reduceCtorEq] at hop

/-- The invariant holds at the start. -/
theorem kept_initial (h : Started env job tables) : Kept env job [] (initial env job tables) where
  count := (Nat.zero_add _).trans (created_length h.accepted)
  batch := by simp [initial]
  todo _ hop := mem_created hop
  marked hmarked := by cases hmarked
  recorded := h.recorded
  in_batch rec hrec := by simp [h.unused rec hrec, initial]
  aborted := by simp [initial]
  failed := by simp [initial]

/-- The record that the worker has marked. -/
theorem mem_close {rec : ScriptTaskExecution} (hnumbered : job.execution_id ≠ 0) :
    rec ∈ (job.close env tables).executions ↔ ∃ stored ∈ tables.executions,
      rec = if stored.id = job.execution_id then stored.finish
        (job.mark env) env.now else stored := by
  unfold Job.close _mark_execution
  rw [if_neg hnumbered]
  simp only [Tables.update_task, Tables.update_execution, List.mem_map]
  exact exists_congr fun stored => and_congr_right fun _ => eq_comm

theorem in_batch_finish (stored : ScriptTaskExecution) (now : Time) :
    (stored.finish (job.mark env) now).in_batch (job.batch_id env) = true := by
  unfold ScriptTaskExecution.in_batch
  rw [isText_iff]
  rfl

/-! What each step does. -/

/-- What creating a row does. -/
theorem step_create (h : step env job s .create = some s') :
    ∃ op todo, s.todo = op :: todo ∧ s' = { s with rows := s.rows ++ [op.stored], todo } := by
  simp only [step] at h
  split at h
  · cases h
  · rename_i op todo htodo
    exact ⟨op, todo, htodo, (Option.some.inj h).symm⟩

/-- What marking the record does. -/
theorem step_mark (h : step env job s .mark = some s') :
    s.todo = [] ∧ s.marked = false ∧
      s' = { s with tables := job.close env s.tables, marked := true } := by
  simp only [step, Option.ite_none_right_eq_some, Option.some.injEq, Bool.not_eq_true'] at h
  exact ⟨h.1.1, h.1.2, h.2.symm⟩

/-- What starting a row does. -/
theorem step_start {i : Nat} {now : Time} (h : step env job s (.start i now) = some s') :
    ∃ row, s.rows[i]? = some row ∧ row.status = .PENDING ∧
      s' = { s with rows := s.rows.set i (ops.mark_running now row) } := by
  simp only [step] at h
  split at h
  · rename_i row hrow
    rw [Option.ite_none_right_eq_some] at h
    exact ⟨row, hrow, h.1, (Option.some.inj h.2).symm⟩
  · cases h

/-- What the end of a row does. -/
theorem step_finish {i : Nat} {attempt : ops.Attempt} {now : Time}
    (h : step env job s (.finish i attempt now) = some s') :
    ∃ row, s.rows[i]? = some row ∧ row.status = .RUNNING ∧ s' = { s with
      rows := s.rows.set i (ops.update_execution_success now row attempt)
      finalizer := _try_finalize_script_task_execution now (row.batch_id.getD "") } := by
  simp only [step] at h
  split at h
  · rename_i result row hidle hrow
    rw [Option.ite_none_right_eq_some] at h
    exact ⟨row, hrow, h.1, (Option.some.inj h.2).symm⟩
  · cases h

/-- What interrupting a row does. -/
theorem step_interrupt {i : Nat} {is_running : Bool} {now : Time}
    (h : step env job s (.interrupt i is_running now) = some s') :
    ∃ row, s.finalizer = pure () ∧ s.rows[i]? = some row ∧ row.status = .RUNNING ∧
      s' = { s with rows := s.rows.set i (ops.mark_interrupted now row is_running) } := by
  simp only [step] at h
  split at h
  · rename_i result row hidle hrow
    rw [Option.ite_none_right_eq_some] at h
    refine ⟨row, ?_, hrow, h.1, (Option.some.inj h.2).symm⟩
    cases result with
    | ok u => exact hidle
    | error e => cases e
  · cases h

namespace Kept

theorem exists_append {p : Event → Bool} :
    (∃ e ∈ events ++ [event], p e = true) ↔ (∃ e ∈ events, p e = true) ∨ p event = true := by
  simp only [List.mem_append, List.mem_singleton, or_and_right, exists_or, exists_eq_left]

/-- An event that is none of a row's. -/
theorem append (h : Kept env job events s) (hinterrupts : event.interrupts = false)
    (hfails : event.fails = false) :
    Kept env job (events ++ [event]) s where
  __ := h
  aborted := by rw [exists_append, hinterrupts, h.aborted, or_iff_left Bool.false_ne_true]
  failed := by rw [exists_append, hfails, h.failed, or_iff_left Bool.false_ne_true]

/-- Creating a row keeps the invariant. -/
theorem create {op : OpsExecution} {todo : List OpsExecution} (h : Kept env job events s)
    (htodo : s.todo = op :: todo) :
    Kept env job events { s with rows := s.rows ++ [op.stored], todo } where
  count := by
    have hcount := h.count
    rw [htodo, List.length_cons] at hcount
    change (s.rows ++ [op.stored]).length + todo.length = _
    rw [List.length_append, List.length_singleton]
    omega
  batch row hrow := by
    obtain hrow | hrow := List.mem_append.mp hrow
    · exact h.batch row hrow
    · obtain rfl := List.mem_singleton.mp hrow
      obtain ⟨hbatch, hstatus⟩ := h.todo op (htodo ▸ List.mem_cons_self)
      exact ⟨congrArg some hbatch, fits_stored hstatus⟩
  todo op' hop' := h.todo op' (htodo ▸ List.mem_cons_of_mem _ hop')
  marked hmarked := by
    rw [h.marked hmarked] at htodo
    cases htodo
  recorded := h.recorded
  in_batch := h.in_batch
  aborted := by
    have hstatus : op.stored.status ≠ .ABORTED := by
      rw [show op.stored.status = .PENDING from (h.todo op (htodo ▸ List.mem_cons_self)).2]
      decide
    rw [← h.aborted]
    simp [or_and_right, exists_or, hstatus]
  failed := by
    have hstatus : op.stored.status ≠ .FAILED := by
      rw [show op.stored.status = .PENDING from (h.todo op (htodo ▸ List.mem_cons_self)).2]
      decide
    rw [← h.failed]
    simp [or_and_right, exists_or, hstatus]

theorem mark (h : Kept env job events s) (hnumbered : job.execution_id ≠ 0) (htodo : s.todo = [])
    (hmarked : s.marked = false) :
    Kept env job events { s with tables := job.close env s.tables, marked := true } where
  __ := h
  marked _ := htodo
  recorded := by
    obtain ⟨rec, hrec, hid⟩ := h.recorded
    refine ⟨rec.finish (job.mark env) env.now, (mem_close hnumbered).mpr ⟨rec, hrec, ?_⟩, hid⟩
    rw [if_pos hid]
  in_batch rec hrec := by
    obtain ⟨stored, hstored, rfl⟩ := (mem_close hnumbered).mp hrec
    have hunused : ¬ stored.in_batch (job.batch_id env) = true := by
      rw [h.in_batch stored hstored, hmarked]
      exact fun hmarked => Bool.false_ne_true hmarked.1
    by_cases hid : stored.id = job.execution_id
    · rw [if_pos hid]
      exact iff_of_true (in_batch_finish stored env.now) ⟨rfl, hid⟩
    · rw [if_neg hid]
      exact iff_of_false hunused fun h => hid h.2

/-- A row that is not over is replaced. -/
theorem set {i : Nat} {row : ops.OpsExecution} {thread : Finalizer} (h : Kept env job events s)
    (hrow : s.rows[i]? = some row) (new : ops.OpsExecution) (hlive : row.status.terminal = false)
    (hbatch : new.batch_id = row.batch_id) (hfits : Fits new) (haborted : new.status = .ABORTED ↔
      event.interrupts = true) (hfailed : new.status = .FAILED ↔ event.fails = true) :
    Kept env job (events ++ [event]) { s with rows := s.rows.set i new, finalizer := thread } where
  count := by rw [List.length_set, h.count]
  batch := forall_set h.batch ⟨hbatch.trans (h.batch row (List.mem_of_getElem? hrow)).1, hfits⟩
  todo := h.todo
  marked := h.marked
  recorded := h.recorded
  in_batch := h.in_batch
  aborted := by
    have hne : row.status ≠ .ABORTED :=
      fun hstatus => by simp [hstatus, ops.OpsStatus.terminal] at hlive
    rw [exists_status_set hrow hne, exists_append, h.aborted, haborted]
  failed := by
    have hne : row.status ≠ .FAILED :=
      fun hstatus => by simp [hstatus, ops.OpsStatus.terminal] at hlive
    rw [exists_status_set hrow hne, exists_append, h.failed, hfailed]

/-- The finalizer saves what it has read of the record. -/
theorem save {rec : ScriptTaskExecution} {total_ops failed_ops : Nat} {now : Time}
    (h : Kept env job events s) (hid : rec.id = job.execution_id)
    (hbatch : rec.in_batch (job.batch_id env) = true) (hmarked : s.marked = true) :
    Kept env job events { s with
      tables := s.tables.update_execution rec.id (rec.finalized total_ops failed_ops now).save_over
      finalizer := pure () } where
  __ := h
  recorded := by
    obtain ⟨stored, hstored, hsame⟩ := h.recorded
    refine ⟨(rec.finalized total_ops failed_ops now).save_over stored,
      List.mem_map.mpr ⟨stored, hstored, ?_⟩, hsame⟩
    rw [if_pos (hsame.trans hid.symm)]
  in_batch saved hsaved := by
    obtain ⟨stored, hstored, rfl⟩ := List.mem_map.mp hsaved
    by_cases hsame : stored.id = rec.id
    · rw [if_pos hsame]
      refine iff_of_true ?_ ⟨hmarked, hsame.trans hid⟩
      change (rec.finalized total_ops failed_ops now).in_batch (job.batch_id env) = true
      rw [ScriptTaskExecution.in_batch_finalized]
      exact hbatch
    · rw [if_neg hsame]
      exact h.in_batch stored hstored

end Kept

/-! What the finalizer is doing. -/

theorem startswith_batch_id (env : Environment) (job : Job) :
    startswith (job.batch_id env).toList "st-".toList = true := by
  unfold Job.batch_id batch_id
  simp only [String.append_assoc, String.toList_append]
  rw [startswith, afterPrefix_append]
  rfl

/-- Finalizing starts by counting the rows. -/
theorem try_finalize_eq (env : Environment) (job : Job) (now : Time) :
    _try_finalize_script_task_execution now (job.batch_id env) =
      finalizer.count_ops now (job.batch_id env) := by
  have hstarts := startswith_batch_id env job
  unfold _try_finalize_script_task_execution
  rw [if_neg, if_neg]
  · rw [hstarts]
    decide
  · intro hempty
    rw [hempty] at hstarts
    exact absurd hstarts (by decide)

/-- No record of the task has a summary that counts all hosts. -/
def Uncounted (job : Job) (s : Dispatching) : Prop :=
  ∀ rec ∈ s.tables.executions, rec.id = job.execution_id → ¬ rec.Counts job.hosts.length

/-- The record has the summary of all rows, and nothing can happen any more. -/
structure Settled (job : Job) (events : List Event) (s : Dispatching) : Prop where
  ended : s.Over
  summed : ∀ rec ∈ s.tables.executions, rec.id = job.execution_id →
    rec.Counts job.hosts.length ∧ (rec.status = .success ↔ ¬ ∃ row ∈ s.rows, row.status = .FAILED)
  finished : LastFinished events
  late : FinalizedLate events

/-- Where the finalizer is, and what it has read. -/
inductive Stage (env : Environment) (job : Job) (events : List Event) (s : Dispatching) :
    Finalizer → Prop
  | idle (h : s.Complete → LastFinished events → s.marked = true → ¬ FinalizedLate events) : Stage env job events s (pure ())
  | count_ops (now : Time) (h : s.Complete → LastFinished events) :
    Stage env job events s (finalizer.count_ops now (job.batch_id env))
  | count_pending (now : Time) (total_ops : Nat) (h : s.Complete → LastFinished events)
    (hle : total_ops ≤ s.rows.length)
    (htotal : s.Complete → total_ops = job.hosts.length) :
    Stage env job events s (finalizer.count_pending now (job.batch_id env) total_ops)
  | count_failed (now : Time) (total_ops : Nat) (h : s.Complete → LastFinished events)
    (htotal : s.Complete ↔ total_ops = job.hosts.length) :
    Stage env job events s (finalizer.count_failed now (job.batch_id env) total_ops)
  | look_up (now : Time) (total_ops failed_ops : Nat) (h : s.Complete → LastFinished events)
    (htotal : s.Complete ↔ total_ops = job.hosts.length)
    (hfailed : s.Complete → (failed_ops = 0 ↔ ¬ ∃ row ∈ s.rows, row.status = .FAILED)) :
    Stage env job events s (finalizer.look_up now (job.batch_id env) total_ops failed_ops)
  | save (now : Time) (total_ops failed_ops : Nat) (h : s.Complete → LastFinished events)
    (htotal : s.Complete ↔ total_ops = job.hosts.length)
    (hfailed : s.Complete → (failed_ops = 0 ↔ ¬ ∃ row ∈ s.rows, row.status = .FAILED))
    {rec : ScriptTaskExecution} (hid : rec.id = job.execution_id)
    (hbatch : rec.in_batch (job.batch_id env) = true)
    (hmarked : s.marked = true) :
    Stage env job events s (finalizer.ask
      (.save_execution (rec.finalized total_ops failed_ops now)))

/-- What every run keeps. -/
structure Reached (env : Environment) (job : Job) (events : List Event) (s : Dispatching) : Prop
    extends Kept env job events s where
  phase : Settled job events s ∨
    (s.marked = true → s.Uncounted job) ∧ Stage env job events s s.finalizer

theorem lastFinished_append (h : event.ends = false) :
    LastFinished (events ++ [event]) ↔ LastFinished events := by
  unfold LastFinished
  rw [last_append, h]
  rfl

namespace Stage

variable {thread : Finalizer}

/-- While some row is missing or not over, only the rows' number matters. -/
theorem live {events' : List Event} (h : Stage env job events s thread)
    (hrows : s.rows.length ≤ s'.rows.length) (hmarked : s'.marked = s.marked) (hs : ¬ s.Complete)
    (hs' : ¬ s'.Complete) : Stage env job events' s' thread := by
  cases h with
  | idle => exact .idle fun hcomplete => absurd hcomplete hs'
  | count_ops now => exact .count_ops now fun hcomplete => absurd hcomplete hs'
  | count_pending now total_ops h hle =>
    exact .count_pending now total_ops (fun hcomplete => absurd hcomplete hs') (hle.trans hrows)
      fun hcomplete => absurd hcomplete hs'
  | count_failed now total_ops h htotal =>
    exact .count_failed now total_ops (fun hcomplete => absurd hcomplete hs')
      (iff_of_false hs' fun ht => hs (htotal.mpr ht))
  | look_up now total_ops failed_ops h htotal =>
    exact .look_up now total_ops failed_ops (fun hcomplete => absurd hcomplete hs')
      (iff_of_false hs' fun ht => hs (htotal.mpr ht)) fun hcomplete => absurd hcomplete hs'
  | save now total_ops failed_ops h htotal hfailed hid hbatch hsaving =>
    exact .save now total_ops failed_ops (fun hcomplete => absurd hcomplete hs')
      (iff_of_false hs' fun ht => hs (htotal.mpr ht))
      (fun hcomplete => absurd hcomplete hs') hid hbatch (hmarked.trans hsaving)

/-- The stage is about the tables and the worker. -/
theorem goes_on {thread' : Finalizer} (h : Stage env job events s thread) :
    Stage env job events { s with finalizer := thread' } thread := by
  cases h with
  | idle h => exact .idle h
  | count_ops now h => exact .count_ops now h
  | count_pending now total_ops h hle htotal => exact .count_pending now total_ops h hle htotal
  | count_failed now total_ops h htotal => exact .count_failed now total_ops h htotal
  | look_up now total_ops failed_ops h htotal hfailed =>
    exact .look_up now total_ops failed_ops h htotal hfailed
  | save now total_ops failed_ops h htotal hfailed hid hbatch hmarked =>
    refine .save now total_ops failed_ops ?_ ?_ ?_ hid hbatch ?_
    exacts [h, htotal, hfailed, hmarked]

/-- The worker marks the record. -/
theorem mark {tables : Tables} (h : Stage env job events s thread) (hmarked : s.marked = false) :
    Stage env job (events ++ [.mark]) { s with tables, marked := true } thread := by
  have hlast : LastFinished (events ++ [.mark]) ↔ LastFinished events := lastFinished_append rfl
  cases h with
  | idle =>
    refine .idle fun _ _ _ hlate => ?_
    rw [FinalizedLate, last_append] at hlate
    cases hlate
  | count_ops now h => exact .count_ops now fun hcomplete => hlast.mpr (h hcomplete)
  | count_pending now total_ops h hle htotal =>
    exact .count_pending now total_ops (fun hcomplete => hlast.mpr (h hcomplete)) hle htotal
  | count_failed now total_ops h htotal =>
    exact .count_failed now total_ops (fun hcomplete => hlast.mpr (h hcomplete)) htotal
  | look_up now total_ops failed_ops h htotal hfailed =>
    exact .look_up now total_ops failed_ops
      (fun hcomplete => hlast.mpr (h hcomplete)) htotal hfailed
  | save now total_ops failed_ops h htotal hfailed hid hbatch hsaving =>
    cases hmarked.symm.trans hsaving

end Stage

/-- The worker's marking leaves no summary. -/
theorem uncounted_close (hnumbered : job.execution_id ≠ 0) :
    Uncounted job { s with tables := job.close env tables, marked := true } := by
  rintro rec hrec hid ⟨failed_ops, hsummary⟩
  obtain ⟨stored, hstored, rfl⟩ := (mem_close hnumbered).mp hrec
  by_cases hsame : stored.id = job.execution_id
  · rw [if_pos hsame] at hsummary
    cases hsummary
  · rw [if_neg hsame] at hid
    exact hsame hid

/-- A live row leaves the job incomplete. -/
theorem not_complete_of_live {i : Nat} {row : ops.OpsExecution} (hrow : s.rows[i]? = some row)
    (hlive : row.status.terminal = false) : ¬ s.Complete := by
  intro hcomplete
  rw [hcomplete.2 row (List.mem_of_getElem? hrow)] at hlive
  cases hlive

/-! The statements of the finalizer. -/

/-- A statement that only reads. -/
theorem step_read {q : Query} {k : q.Answer → Finalizer}
    (hthread : s.finalizer = finalizer.ask q >>= k) (hreads : (s.execute q).2 = s) :
    step env job s .query = some { s with finalizer := k (s.execute q).1 } := by
  have hstep : step env job s .query =
      some { (s.execute q).2 with finalizer := k (s.execute q).1 } := by
    unfold step
    rw [hthread]
    rfl
  rw [hstep, hreads]

theorem step_save {task_exec : ScriptTaskExecution}
    (hthread : s.finalizer = finalizer.ask (.save_execution task_exec)) :
    step env job s .query =
      some { s with tables := s.tables.update_execution task_exec.id task_exec.save_over, finalizer := pure () } := by
  unfold step
  rw [hthread]
  rfl

namespace Kept

/-- The rows of the batch are the rows of the job. -/
theorem ops_in_eq (h : Kept env job events s) (p : ops.OpsExecution → Bool) :
    s.ops_in (job.batch_id env) p = s.rows.countP p := by
  unfold ops_in
  refine List.countP_congr fun row hrow => ?_
  simp [(h.batch row hrow).1]

/-- No row is pending exactly if all have ended. -/
theorem ops_in_pending (h : Kept env job events s) :
    s.ops_in (job.batch_id env) is_pending = 0 ↔ ∀ row ∈ s.rows, row.status.terminal = true := by
  rw [h.ops_in_eq, List.countP_eq_zero]
  refine forall₂_congr fun row hrow => ?_
  rw [is_pending_iff (h.batch row hrow).2, Bool.not_eq_false]

/-- No row has failed exactly if none says so. -/
theorem ops_in_failed (h : Kept env job events s) :
    s.ops_in (job.batch_id env) is_failed = 0 ↔ ¬ ∃ row ∈ s.rows, row.status = .FAILED := by
  rw [h.ops_in_eq, List.countP_eq_zero]
  push Not
  refine forall₂_congr fun row hrow => ?_
  exact not_congr (is_failed_iff (h.batch row hrow).2)

/-- A complete job has a row for each host. -/
theorem length_of_complete (h : Kept env job events s) (hcomplete : s.Complete) :
    s.rows.length = job.hosts.length := by
  rw [← h.count, hcomplete.1]
  rfl

end Kept

/-- A settled run goes on no more. -/
theorem Settled.stuck (h : Settled job events s) : step env job s event = none := by
  have hnone : ∀ {i : Nat} {row : ops.OpsExecution}, s.rows[i]? = some row →
      row.status.terminal = true :=
    fun hrow => h.ended.complete.2 _ (List.mem_of_getElem? hrow)
  cases hstep : step env job s event with
  | none => rfl
  | some s' =>
    cases event with
    | create =>
      obtain ⟨op, todo, htodo, -⟩ := step_create hstep
      cases htodo.symm.trans h.ended.complete.1
    | mark => cases h.ended.marked.symm.trans (step_mark hstep).2.1
    | start i now =>
      obtain ⟨row, hrow, hstatus, -⟩ := step_start hstep
      have := hnone hrow
      rw [hstatus] at this
      cases this
    | finish i attempt now =>
      obtain ⟨row, hrow, hstatus, -⟩ := step_finish hstep
      have := hnone hrow
      rw [hstatus] at this
      cases this
    | interrupt i is_running now =>
      obtain ⟨row, -, hrow, hstatus, -⟩ := step_interrupt hstep
      have := hnone hrow
      rw [hstatus] at this
      cases this
    | query =>
      unfold step at hstep
      rw [h.ended.idle] at hstep
      cases hstep

namespace Reached

theorem initial (h : Started env job tables) : Reached env job [] (initial env job tables) where
  __ := kept_initial h
  phase := .inr ⟨nofun, .idle fun _ _ hmarked => by cases hmarked⟩

/-- The finalizer has read something. -/
theorem read {thread : Finalizer} (hkept : Kept env job events s)
    (huncounted : s.marked = true → s.Uncounted job)
    (hstage : Stage env job (events ++ [.query]) s thread) :
    Reached env job (events ++ [.query]) { s with finalizer := thread } where
  __ := (hkept.append rfl rfl : Kept env job (events ++ [.query]) s)
  phase := .inr ⟨huncounted, hstage.goes_on⟩

/-- The next statement of the finalizer. -/
theorem query (hkept : Kept env job events s) (htargets : job.hosts ≠ [])
    (huncounted : s.marked = true → s.Uncounted job) (hstage : Stage env job events s s.finalizer)
    (hstep : step env job s .query = some s') :
    Reached env job (events ++ [.query]) s' := by
  have hlast : LastFinished (events ++ [.query]) ↔ LastFinished events := lastFinished_append rfl
  generalize hthread : s.finalizer = thread at hstage
  cases hstage with
  | idle =>
    unfold step at hstep
    rw [hthread] at hstep
    cases hstep
  | count_ops now h =>
    obtain rfl := Option.some.inj ((step_read hthread rfl).symm.trans hstep)
    have hcount : s.ops_in (job.batch_id env) (fun _ => true) = s.rows.length := by
      rw [hkept.ops_in_eq, List.countP_true]
    refine read hkept huncounted ?_
    change Stage env job _ s (if s.ops_in (job.batch_id env) (fun _ => true) = 0 then pure ()
      else finalizer.count_pending now
        (job.batch_id env) (s.ops_in (job.batch_id env) fun _ => true))
    rw [hcount]
    by_cases hzero : s.rows.length = 0
    · rw [if_pos hzero]
      refine .idle fun hcomplete => ?_
      have := hkept.length_of_complete hcomplete
      have := List.length_pos_of_ne_nil htargets
      omega
    · rw [if_neg hzero]
      exact .count_pending now _
        (fun hcomplete => hlast.mpr (h hcomplete)) le_rfl hkept.length_of_complete
  | count_pending now total_ops h hle htotal =>
    obtain rfl := Option.some.inj ((step_read hthread rfl).symm.trans hstep)
    refine read hkept huncounted ?_
    change Stage env job _ s (if s.ops_in (job.batch_id env) is_pending > 0 then pure () else _)
    by_cases hpending : s.ops_in (job.batch_id env) is_pending > 0
    · rw [if_pos hpending]
      exact .idle fun hcomplete => absurd (hkept.ops_in_pending.mpr hcomplete.2) hpending.ne'
    · rw [if_neg hpending]
      refine .count_failed now total_ops (fun hcomplete => hlast.mpr (h hcomplete))
        ⟨htotal, fun ht => ⟨?_, ?_⟩⟩
      · have := hkept.count
        exact List.length_eq_zero_iff.mp (by omega)
      · exact hkept.ops_in_pending.mp (Nat.eq_zero_of_not_pos hpending)
  | count_failed now total_ops h htotal =>
    obtain rfl := Option.some.inj ((step_read hthread rfl).symm.trans hstep)
    refine read hkept huncounted ?_
    exact .look_up now total_ops _ (fun hcomplete => hlast.mpr (h hcomplete)) htotal fun _ =>
      hkept.ops_in_failed
  | look_up now total_ops failed_ops h htotal hfailed =>
    obtain rfl := Option.some.inj ((step_read hthread rfl).symm.trans hstep)
    refine read hkept huncounted ?_
    change Stage env job _ s (finalizer.save_summary now total_ops failed_ops
      (s.tables.executions.find? (·.in_batch (job.batch_id env))))
    cases hfound : s.tables.executions.find? (·.in_batch (job.batch_id env)) with
    | none =>
      -- the worker has not marked the record
      refine .idle fun _ _ hmarked => ?_
      obtain ⟨rec, hrec, hid⟩ := hkept.recorded
      exact absurd ((hkept.in_batch rec hrec).mpr ⟨hmarked, hid⟩)
        (List.find?_eq_none.mp hfound rec hrec)
    | some rec =>
      have hbatch := List.find?_some hfound
      obtain ⟨hmarked, hid⟩ := (hkept.in_batch rec (List.mem_of_find?_eq_some hfound)).mp hbatch
      exact .save now total_ops failed_ops
        (fun hcomplete => hlast.mpr (h hcomplete)) htotal hfailed hid hbatch hmarked
  | @save now total_ops failed_ops h htotal hfailed rec hid hbatch hmarked =>
    obtain rfl := Option.some.inj ((step_save hthread).symm.trans hstep)
    have hsaved : ∀ saved ∈ (s.tables.update_execution rec.id
      (rec.finalized total_ops failed_ops now).save_over).executions,
        saved.id = job.execution_id →
        (saved.Counts job.hosts.length ↔ total_ops = job.hosts.length) ∧
          (saved.status = .success ↔ failed_ops = 0) := by
      intro saved hmem hsame
      obtain ⟨stored, -, rfl⟩ := List.mem_map.mp hmem
      by_cases hstored : stored.id = rec.id
      · rw [if_pos hstored]
        have hsummary := ScriptTaskExecution.summary_finalized rec total_ops failed_ops now
        refine ⟨ScriptTaskExecution.counts_iff_of_summary hsummary, ?_⟩
        change (if failed_ops = 0 then TaskStatus.success else .failed) = .success ↔ _
        split_ifs with hzero <;> simp [hzero]
      · rw [if_neg hstored] at hsame
        exact absurd (hsame.trans hid.symm) hstored
    refine ⟨(hkept.append rfl rfl).save hid hbatch hmarked, ?_⟩
    by_cases hcomplete : s.Complete
    · refine .inl ⟨⟨hcomplete, hmarked,
        rfl⟩, fun saved hmem hsame => ?_, hlast.mpr (h hcomplete), ?_⟩
      · obtain ⟨hcounts, hstatus⟩ := hsaved saved hmem hsame
        exact ⟨hcounts.mpr (htotal.mp hcomplete), hstatus.trans (hfailed hcomplete)⟩
      · rw [FinalizedLate, last_append]
        rfl
    · refine .inr ⟨fun _ saved hmem hsame hcounts => ?_, .idle
        fun hcomplete' => absurd hcomplete' hcomplete⟩
      exact hcomplete (htotal.mpr ((hsaved saved hmem hsame).1.mp hcounts))

/-- What one step keeps. -/
theorem step (h : Reached env job events s) (hstart : Started env job tables)
    (hstep : step env job s event = some s') :
    Reached env job (events ++ [event]) s' := by
  have hkept := h.toKept
  obtain hsettled | ⟨huncounted, hstage⟩ := h.phase
  · rw [hsettled.stuck] at hstep
    cases hstep
  · cases event with
    | create =>
      obtain ⟨op, todo, htodo, rfl⟩ := step_create hstep
      have hincomplete : ¬ s.Complete := by
        intro hcomplete
        cases htodo.symm.trans hcomplete.1
      have hpending : op.stored.status.terminal = false := by
        rw [show op.stored.status = .PENDING from (hkept.todo op (htodo ▸ List.mem_cons_self)).2]
        rfl
      refine ⟨(hkept.create htodo).append rfl rfl,
        .inr ⟨huncounted, hstage.live ?_ rfl hincomplete ?_⟩⟩
      · change s.rows.length ≤ (s.rows ++ [op.stored]).length
        simp
      · exact not_complete_of_live List.getElem?_concat_length hpending
    | mark =>
      obtain ⟨htodo, hmarked, rfl⟩ := step_mark hstep
      exact ⟨(hkept.mark hstart.numbered htodo hmarked).append rfl rfl,
        .inr ⟨fun _ => uncounted_close hstart.numbered, hstage.mark hmarked⟩⟩
    | start i now =>
      obtain ⟨row, hrow, hstatus, rfl⟩ := step_start hstep
      have hlive : row.status.terminal = false := by
        rw [hstatus]
        rfl
      have hfits : Fits (ops.mark_running now row) := by
        have hfits := (hkept.batch row (List.mem_of_getElem? hrow)).2
        unfold Fits at hfits
        rw [hstatus] at hfits
        exact hfits
      have hnext : Kept env job (events ++ [.start i now])
          { s with rows := s.rows.set i (ops.mark_running now row) } :=
        hkept.set hrow (ops.mark_running now row) hlive rfl hfits (iff_of_false nofun nofun)
          (iff_of_false nofun nofun)
      have hrunning : (s.rows.set i (ops.mark_running now row))[i]? =
          some (ops.mark_running now row) :=
        List.getElem?_set_self (List.getElem?_eq_some_iff.mp hrow).1
      refine ⟨hnext, .inr ⟨huncounted, hstage.live ?_ rfl (not_complete_of_live hrow hlive) ?_⟩⟩
      · exact List.length_set.ge
      · exact not_complete_of_live hrunning rfl
    | finish i attempt now =>
      obtain ⟨row, hrow, hstatus, rfl⟩ := step_finish hstep
      have hlive : row.status.terminal = false := by
        rw [hstatus]
        rfl
      have hbatch := (hkept.batch row (List.mem_of_getElem? hrow)).1
      rw [hbatch, Option.getD_some, try_finalize_eq]
      have haborted : (ops.update_execution_success now row attempt).status ≠ .ABORTED := by
        unfold ops.update_execution_success
        split_ifs <;> exact nofun
      have hfailed : (ops.update_execution_success now row attempt).status = .FAILED ↔
          (Event.finish i attempt now).fails = true := by
        simp only [ops.update_execution_success, Event.fails, decide_eq_true_eq]
        split_ifs with hfails
        · exact iff_of_true rfl hfails
        · exact iff_of_false nofun hfails
      refine ⟨hkept.set hrow _ hlive rfl (fits_finish row attempt now)
        (iff_of_false haborted nofun) hfailed,
        .inr ⟨huncounted, .count_ops now fun _ => ⟨i, attempt, now, ?_⟩⟩⟩
      rw [last_append]
      rfl
    | interrupt i is_running now =>
      obtain ⟨row, hidle, hrow, hstatus, rfl⟩ := step_interrupt hstep
      have hlive : row.status.terminal = false := by
        rw [hstatus]
        rfl
      have hfits : Fits (ops.mark_interrupted now row is_running) := by
        have hfits := (hkept.batch row (List.mem_of_getElem? hrow)).2
        unfold Fits at hfits
        rw [hstatus] at hfits
        exact hfits
      have hnext : Kept env job (events ++ [.interrupt i is_running now])
          { s with rows := s.rows.set i (ops.mark_interrupted now row is_running) } :=
        hkept.set hrow (ops.mark_interrupted now row is_running) hlive rfl hfits
          (iff_of_true rfl rfl) (iff_of_false nofun nofun)
      refine ⟨hnext, .inr ⟨huncounted, ?_⟩⟩
      change Stage env job _ _ s.finalizer
      rw [hidle]
      refine .idle fun _ ⟨j, attempt, now', hlast⟩ => ?_
      rw [last_append] at hlast
      cases hlast
    | query => exact query hkept hstart.targets huncounted hstage hstep

/-- What every run keeps. -/
theorem of_run (hstart : Started env job tables)
    (hrun : run env job (Dispatching.initial env job tables) events = some s) :
    Reached env job events s := by
  induction events using List.reverseRecOn generalizing s with
  | nil =>
    obtain rfl := Option.some.inj hrun
    exact initial hstart
  | append_singleton events event ih =>
    obtain ⟨t, ht, hstep⟩ := run_append.mp hrun
    exact (ih ht).step hstart hstep

end Reached

theorem Stage.of_idle (h : Stage env job events s s.finalizer) (hidle : s.finalizer = pure ()) :
    s.Complete → LastFinished events → s.marked = true → ¬ FinalizedLate events := by
  generalize s.finalizer = thread at h hidle
  cases h with
  | idle h => exact h
  | _ => cases hidle

/-- The rows are all successful if and only if none has failed and none was interrupted. -/
theorem all_success_iff (hcomplete : s.Complete) : (∀ row ∈ s.rows, row.status = .SUCCESS) ↔
    (¬ ∃ row ∈ s.rows, row.status = .FAILED) ∧ ¬ ∃ row ∈ s.rows, row.status = .ABORTED := by
  push Not
  rw [← forall₂_and]
  refine forall₂_congr fun row hrow => ?_
  have hterminal := hcomplete.2 row hrow
  cases hstatus : row.status <;> simp_all [ops.OpsStatus.terminal]

/-- The recorded result is truthful if and only if the last row to end ended through
`update_execution_success`, the finalizer went on after the worker's marking, and no row was
interrupted unless another failed. -/
theorem result_truthful_iff (hstart : Started env job tables)
    (hrun : run env job (initial env job tables) events = some s) (hover : s.Over) :
    s.Truthful job ↔ LastFinished events ∧ FinalizedLate events ∧ Excused events := by
  have hreached := Reached.of_run hstart hrun
  have hkept := hreached.toKept
  obtain ⟨rec, hfound⟩ : ∃ rec, s.tables.executions.find? (·.id = job.execution_id) = some rec := by
    obtain ⟨rec, hrec, hid⟩ := hkept.recorded
    exact Option.isSome_iff_exists.mp (List.find?_isSome.mpr ⟨rec, hrec, by simpa using hid⟩)
  have hrec := List.mem_of_find?_eq_some hfound
  have hid : rec.id = job.execution_id := by simpa using List.find?_some hfound
  have htruthful : s.Truthful job ↔
      (rec.status = .success ↔ ∀ row ∈ s.rows, row.status = .SUCCESS) ∧
        rec.Counts job.hosts.length := by
    unfold Truthful
    rw [hfound]
    simp only [Option.some.injEq, exists_eq_left']
  rw [htruthful]
  obtain hsettled | ⟨huncounted, hstage⟩ := hreached.phase
  · obtain ⟨hcounts, hstatus⟩ := hsettled.summed rec hrec hid
    rw [hstatus, all_success_iff hover.complete, hkept.failed, hkept.aborted, and_iff_left hcounts,
      and_iff_right hsettled.finished, and_iff_right hsettled.late]
    rw [iff_self_and, not_imp_not]
    rfl
  · refine iff_of_false (fun h => huncounted hover.marked rec hrec hid h.2) fun h => ?_
    exact hstage.of_idle hover.idle hover.complete h.1 hover.marked h.2.1

/-! A task for one host. -/

def clerk : Environment where
  now := 0
  uuid := toString
  py := .short
  lower := String.toLower

def web : Host where
  pk := 7
  host_uuid := "a1"
  status := .approved

def backup : Job where
  task :=
    { id := 3, name := "nightly", script := { id := 1, name := "dump", content := "pg_dump" }, hosts := .arr [.str "a1"] }
  execution_id := 5
  trigger_type := .str "schedule"
  host_refs := ["a1"]
  hosts := [web]

def ledger : Tables where
  executions := [{ id := 5, task_id := 3, status := .running }]

theorem backup_started : Started clerk backup ledger where
  targets := by decide
  accepted _ _ := rfl
  numbered := by decide
  recorded := ⟨_, List.mem_singleton_self _, rfl⟩
  unused rec hrec := by
    obtain rfl := List.mem_singleton.mp hrec
    rfl

def failed_attempt : ops.Attempt where
  output_buffer := []
  exit_code := 1
  error := none

def good_attempt : ops.Attempt where
  output_buffer := []
  exit_code := 0
  error := none

/-- The script fails before the worker marks the record. -/
def fails_early : List Event :=
  [.create, .start 0 0, .finish 0 failed_attempt 0, .query, .query, .query, .query, .mark]

/-- The script succeeds after the worker has marked the record. -/
def succeeds_late : List Event :=
  [.create, .mark, .start 0 0, .finish 0 good_attempt 0, .query, .query, .query, .query, .query]

/-- The record is a success, though the only row has failed. -/
theorem early_failure_recorded_success : Started clerk backup ledger ∧
    ∃ s, run clerk backup (initial clerk backup ledger) fails_early = some s ∧ s.Over ∧
      s.tables.executions.map (·.status) = [.success] ∧ s.rows.map (·.status) = [.FAILED] ∧
        ¬ s.Truthful backup := by
  refine ⟨backup_started, _, rfl, ⟨⟨rfl, by decide +kernel⟩, rfl, rfl⟩, rfl, by decide +kernel, ?_⟩
  rintro ⟨rec, hfound, hstatus, -⟩
  obtain rfl := Option.some.inj hfound
  exact absurd (hstatus.mp rfl) (by decide +kernel)

theorem late_success_recorded :
    ∃ s, run clerk backup (initial clerk backup ledger) succeeds_late = some s ∧
    (s.Truthful backup ↔ LastFinished succeeds_late ∧ FinalizedLate succeeds_late ∧
      Excused succeeds_late) :=
  ⟨_, rfl, result_truthful_iff backup_started rfl ⟨⟨rfl, by decide +kernel⟩, rfl, rfl⟩⟩

end Dispatching

end taurus.scheduler
