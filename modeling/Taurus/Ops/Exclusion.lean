import Taurus.Ops.System

namespace taurus.ops

open taurus.lib taurus.lib.transition taurus.python taurus.engine

/-- The coroutine has taken the queue entry and has not given it back. -/
def Coroutine.owns : Coroutine → Bool
  | .created | .done => false
  | .entered | .loaded .. | .ready .. | .connecting _ | .executing _ | .reporting .. | .leaving =>
    true

/-- What `_execute_ops_async` does between two awaits. -/
inductive ExecuteMove (now : Time) (x : Shared) : Answer → Coroutine → Shared → Coroutine → Prop
  | skip (h : x.entry = .queue) : ExecuteMove now x .returned .created x .done
  | enter (h : x.entry ≠ .queue) :
    ExecuteMove now x .returned .created { x with entry := .queue } .entered
  | missing {answer : Answer} (h : x.stored = none) : ExecuteMove now x answer .entered x .leaving
  | read (ops : OpsExecution) (host : Host) (h : x.stored = some ops) :
      ExecuteMove now x (.host host) .entered x (guarded now ops host)
  | mark (ops : OpsExecution) (host : Host) :
      ExecuteMove now x .returned (.loaded ops host)
      { x with stored := some (mark_running now ops) }
        (.ready (mark_running now ops) host)
  | refuse (ops : OpsExecution) (host : Host) (h : host.online_status ≠ 1) :
      ExecuteMove now x .returned (.ready ops host) x (.reporting ops (offline host))
  | connect (ops : OpsExecution) (host : Host) (h : host.online_status = 1) :
      ExecuteMove now x .returned (.ready ops host) x (.connecting ops)
  | fail {answer : Answer} (ops : OpsExecution) (attempt : Attempt) :
      ExecuteMove now x answer (.connecting ops) x (.reporting ops attempt)
  | start (ops : OpsExecution) :
      ExecuteMove now x .returned (.connecting ops) { x with started := x.started + 1 }
      (.executing ops)
  | finish {answer : Answer} (ops : OpsExecution) (attempt : Attempt) :
      ExecuteMove now x answer (.executing ops) x (.reporting ops attempt)
  | report (ops : OpsExecution) (attempt : Attempt) :
      ExecuteMove now x .returned (.reporting ops attempt)
        { x with stored := some (update_execution_success now ops attempt) } .leaving
  | raised {co : Coroutine} (h : co.owns = true) : ExecuteMove now x .raised co x .leaving
  | leave : ExecuteMove now x .returned .leaving { x with entry := .absent } .done

/-- A step of a coroutine is one of its moves. -/
theorem execute_move {now : Time} {x x' : Shared} {co co' : Coroutine} {answer : Answer}
    (h : execute_step now x co answer = some (x', co')) : ExecuteMove now x answer co x' co' := by
  cases co <;> cases answer <;> simp only [execute_step, reduceCtorEq] at h
  case created.returned =>
    split_ifs at h with hq <;> obtain ⟨rfl, rfl⟩ := Prod.mk.inj (Option.some.inj h)
    · exact .skip hq
    · exact .enter hq
  case entered.host host =>
    cases hs : x.stored with
    | none =>
      simp only [hs] at h
      obtain ⟨rfl, rfl⟩ := Prod.mk.inj (Option.some.inj h)
      exact .missing hs
    | some ops =>
      simp only [hs] at h
      obtain ⟨rfl, rfl⟩ := Prod.mk.inj (Option.some.inj h)
      exact .read ops host hs
  case ready.returned ops host =>
    split_ifs at h with honline <;> obtain ⟨rfl, rfl⟩ := Prod.mk.inj (Option.some.inj h)
    · exact .refuse ops host honline
    · exact .connect ops host (not_not.mp honline)
  case connecting.returned ops =>
    split_ifs at h <;> obtain ⟨rfl, rfl⟩ := Prod.mk.inj (Option.some.inj h)
    · exact .start ops
    · exact .fail ops _
  all_goals obtain ⟨rfl, rfl⟩ := Prod.mk.inj (Option.some.inj h)
  case loaded.returned ops host => exact .mark ops host
  case connecting.connection_error ops message => exact .fail ops _
  case executing.stream ops chunks finished error => exact .finish ops _
  case reporting.returned ops attempt => exact .report ops attempt
  case leaving.returned => exact .leave
  all_goals exact .raised rfl

/-- What `_handle_orphan_execution` does between two awaits. -/
inductive OrphanMove (now : Time) (x : Shared) : Answer → Handler → Shared → Handler → Prop
  | give_up {answer : Answer} {handler : Handler} : OrphanMove now x answer handler x .leaving
  | read (ops : OpsExecution) (h : x.stored = some ops) (hrunning : ops.status = .RUNNING) :
      OrphanMove now x .returned .created x (.loaded ops)
  | interrupt (ops : OpsExecution) (is_running : Bool) :
      OrphanMove now x (.executor is_running) (.loaded ops)
        { x with stored := some (mark_interrupted now ops is_running) } .leaving
  | leave : OrphanMove now x .returned .leaving { x with entry := .absent } .done

/-- A step of an orphan handler is one of its moves. -/
theorem orphan_move {now : Time} {x x' : Shared} {handler handler' : Handler} {answer : Answer}
    (h : orphan_step now x handler answer = some (x', handler')) :
    OrphanMove now x answer handler x' handler' := by
  cases handler <;> cases answer <;> simp only [orphan_step, reduceCtorEq] at h
  case created.returned =>
    cases hs : x.stored with
    | none =>
      simp only [hs] at h
      obtain ⟨rfl, rfl⟩ := Prod.mk.inj (Option.some.inj h)
      exact .give_up
    | some ops =>
      simp only [hs] at h
      obtain ⟨rfl, rfl⟩ := Prod.mk.inj (Option.some.inj h)
      by_cases hrunning : ops.status = .RUNNING
      · rw [if_neg (not_not.mpr hrunning)]
        exact .read ops hs hrunning
      · rw [if_pos hrunning]
        exact .give_up
  all_goals obtain ⟨rfl, rfl⟩ := Prod.mk.inj (Option.some.inj h)
  case loaded.executor ops is_running => exact .interrupt ops is_running
  case leaving.returned => exact .leave
  all_goals exact .give_up

/-- What a cancel does between two database calls. -/
inductive CancelMove (now : Time) (x : Shared) : Answer → Canceller → Shared → Canceller → Prop
  | give_up {answer : Answer} {c : Canceller} : CancelMove now x answer c x .done
  | read (ops : OpsExecution) (h : x.stored = some ops) (hopen : ops.status.terminal = false) :
      CancelMove now x .returned .created x .loaded
  | abort : CancelMove now x .returned .loaded { x with stored := x.stored.map (abort now) } .done

/-- A step of a canceller is one of its moves. -/
theorem cancel_move {now : Time} {x x' : Shared} {c c' : Canceller} {answer : Answer}
    (h : cancel_step now x c answer = some (x', c')) : CancelMove now x answer c x' c' := by
  cases c <;> cases answer <;> simp only [cancel_step, reduceCtorEq] at h
  case created.returned =>
    cases hs : x.stored with
    | none =>
      simp only [hs] at h
      obtain ⟨rfl, rfl⟩ := Prod.mk.inj (Option.some.inj h)
      exact .give_up
    | some ops =>
      simp only [hs] at h
      obtain ⟨rfl, rfl⟩ := Prod.mk.inj (Option.some.inj h)
      cases hterm : ops.status.terminal with
      | true => exact .give_up
      | false => exact .read ops hs hterm
  all_goals obtain ⟨rfl, rfl⟩ := Prod.mk.inj (Option.some.inj h)
  case loaded.returned => exact .abort
  all_goals exact .give_up

/-- A task that has not taken its first step. -/
inductive Task.Fresh : Task → Prop
  | execute : Fresh (.execute .created)
  | orphan : Fresh (.orphan .created)
  | cancel : Fresh (.cancel .created)

/-- What a step of the system does. -/
inductive System.Move (s : System) : Event → System → Prop
  | idle {e : Event} {s' : System} (hshared : s'.toShared = s.toShared) (htasks : s'.tasks = s.tasks) :
      Move s e s'
  | spawn {e : Event} {s' : System} (task : Task) (hfresh : task.Fresh)
      (htasks : s'.tasks = s.tasks ++ [task]) (hstored : s'.stored = s.stored)
      (hstarted : s'.started = s.started)
      (hentry : s'.entry = s.entry ∨ (s.entry ≠ .queue ∧ s'.entry = .placeholder)) : Move s e s'
  | execute {i : Nat} {now : Time} {answer : Answer} {co co' : Coroutine} {x : Shared}
      (hi : s.tasks[i]? = some (.execute co)) (h : ExecuteMove now s.toShared answer co x co') :
      Move s (.run i now answer) (s.resume i x (.execute co'))
  | orphan {i : Nat} {now : Time} {answer : Answer} {handler handler' : Handler} {x : Shared}
      (hi : s.tasks[i]? = some (.orphan handler))
      (h : OrphanMove now s.toShared answer handler x handler') :
      Move s (.run i now answer) (s.resume i x (.orphan handler'))
  | cancel {i : Nat} {now : Time} {answer : Answer} {c c' : Canceller} {x : Shared}
      (hi : s.tasks[i]? = some (.cancel c)) (h : CancelMove now s.toShared answer c x c') :
      Move s (.run i now answer) (s.resume i x (.cancel c'))

/-- A step of the system is a move of it. -/
theorem System.step_move {s s' : System} {e : Event} (h : s.step e = some s') : s.Move e s' := by
  cases e with
  | submit =>
    obtain rfl := Option.some.inj h
    exact .spawn _ .execute rfl rfl rfl (Or.inl rfl)
  | cancel =>
    obtain rfl := Option.some.inj h
    exact .spawn _ .cancel rfl rfl rfl (Or.inl rfl)
  | list_pending | list_orphans | connect =>
    obtain rfl := Option.some.inj h
    exact .idle rfl rfl
  | visit_pending =>
    simp only [System.step] at h
    split_ifs at h with hlisted habsent <;> obtain rfl := Option.some.inj h
    · exact .spawn _ .execute rfl rfl rfl (Or.inr ⟨by simp [habsent], rfl⟩)
    · exact .idle rfl rfl
  | visit_orphan =>
    simp only [System.step] at h
    split_ifs at h with hlisted habsent <;> obtain rfl := Option.some.inj h
    · exact .spawn _ .orphan rfl rfl rfl (Or.inr ⟨by simp [habsent], rfl⟩)
    · exact .idle rfl rfl
  | trigger =>
    simp only [System.step] at h
    split_ifs at h with hnone hqueue <;> obtain rfl := Option.some.inj h
    · exact .idle rfl rfl
    · exact .spawn _ .execute rfl rfl rfl (Or.inr ⟨hqueue, rfl⟩)
  | run i now answer =>
    obtain ⟨task, hi, htask⟩ := Option.bind_eq_some_iff.mp h
    cases task with
    | execute co =>
      obtain ⟨p, hp, rfl⟩ := Option.map_eq_some_iff.mp htask
      exact .execute hi (execute_move hp)
    | orphan handler =>
      obtain ⟨p, hp, rfl⟩ := Option.map_eq_some_iff.mp htask
      exact .orphan hi (orphan_move hp)
    | cancel c =>
      obtain ⟨p, hp, rfl⟩ := Option.map_eq_some_iff.mp htask
      exact .cancel hi (cancel_move hp)

/-- The tasks after one of them has gone on. -/
theorem System.resume_getElem? {s : System} {i j : Nat} {x : Shared} {task t : Task}
    (ht : (s.resume i x task).tasks[j]? = some t) :
    (j = i ∧ t = task) ∨ (j ≠ i ∧ s.tasks[j]? = some t) := by
  simp only [System.resume, List.getElem?_set] at ht
  split_ifs at ht with hij hlt
  · exact Or.inl ⟨hij.symm, (Option.some.inj ht).symm⟩
  · exact Or.inr ⟨Ne.symm hij, ht⟩

def Task.owns : Task → Bool
  | .execute co => co.owns
  | .orphan _ | .cancel _ => false

/-- A fresh task does not own the execution. -/
theorem Task.Fresh.owns {task : Task} (h : task.Fresh) : task.owns = false := by cases h <;> rfl

/-- Of all coroutines of the execution at most one is past the queue check, and while one
is, the queue is in the map. -/
structure System.Exclusive (s : System) : Prop where
  entry : ∀ t ∈ s.tasks, t.owns = true → s.entry = .queue
  unique : ∀ (i j : Nat) (t u : Task), s.tasks[i]? = some t → s.tasks[j]? = some u → t.owns = true →
    u.owns = true → i = j

/-- No orphan handler removes the queue of a coroutine. -/
def System.keeps_queue (s : System) : Event → Bool
  | .run i _ .returned =>
    match s.tasks[i]? with
    | some (.orphan .leaving) => s.entry ≠ .queue
    | _ => true
  | _ => true

namespace System.Exclusive

variable {s s' : System}

/-- The first state is exclusive. -/
theorem initial (stored : Option OpsExecution) : (System.initial stored).Exclusive := by
  constructor <;> simp [System.initial]

/-- A task goes on: where another task owns the queue, the queue stays in the map and the
task does not own it. -/
private theorem resume {i : Nat} {x : Shared} {task : Task} (h : s.Exclusive)
    (hother : ∀ (j : Nat) (u : Task), j ≠ i → s.tasks[j]? = some u → u.owns = true →
      x.entry = .queue ∧ task.owns = false)
    (hself : task.owns = true → x.entry = .queue) : (s.resume i x task).Exclusive where
  entry t ht howns := by
    obtain ⟨j, hj⟩ := List.mem_iff_getElem?.mp ht
    obtain ⟨_, rfl⟩ | ⟨hji, hj'⟩ := System.resume_getElem? hj
    · exact hself howns
    · exact (hother j t hji hj' howns).1
  unique j k t u hj hk ht hu := by
    obtain ⟨hji, rfl⟩ | ⟨hji, hj'⟩ := System.resume_getElem? hj
    · obtain ⟨hki, _⟩ | ⟨hki, hk'⟩ := System.resume_getElem? hk
      · rw [hji, hki]
      · simp [(hother k u hki hk' hu).2] at ht
    · obtain ⟨_, rfl⟩ | ⟨_, hk'⟩ := System.resume_getElem? hk
      · simp [(hother j t hji hj' ht).2] at hu
      · exact h.unique j k t u hj' hk' ht hu

/-- A task that owns nothing new goes on and leaves the map alone. -/
private theorem resume_same {i : Nat} {x : Shared} {task task' : Task} (h : s.Exclusive)
    (hi : s.tasks[i]? = some task) (hentry : x.entry = s.entry)
    (howns : task'.owns = true → task.owns = true) : (s.resume i x task').Exclusive := by
  refine h.resume (fun j u hji hj hu => ⟨?_, ?_⟩) fun ht => ?_
  · rw [hentry]
    exact h.entry u (List.mem_of_getElem? hj) hu
  · by_contra ht
    exact hji (h.unique j i u task hj hi hu (howns (by simpa using ht)))
  · rw [hentry]
    exact h.entry task (List.mem_of_getElem? hi) (howns ht)

/-- Without a queue in the map no task owns one. -/
theorem none_owns (h : s.Exclusive) (hentry : s.entry ≠ .queue) {t : Task} (ht : t ∈ s.tasks) :
    t.owns = false := by
  by_contra howns
  exact hentry (h.entry t ht (by simpa using howns))

/-- Each move keeps it exclusive. -/
theorem step {e : Event} (h : s.Exclusive) (hkeeps : s.keeps_queue e = true) (hmove : s.Move e s') :
    s'.Exclusive := by
  cases hmove with
  | idle hshared htasks =>
    refine ⟨fun t ht => ?_, ?_⟩
    · rw [htasks] at ht
      rw [hshared]
      exact h.entry t ht
    · rw [htasks]
      exact h.unique
  | spawn task hfresh htasks _ _ hentry =>
    have hold : ∀ (j : Nat) (t : Task), s'.tasks[j]? = some t → t.owns = true →
        s.tasks[j]? = some t := by
      intro j t hj ht
      rw [htasks, List.getElem?_append] at hj
      split_ifs at hj with hlt
      · exact hj
      · obtain rfl := List.mem_singleton.mp (List.mem_of_getElem? hj)
        simp [hfresh.owns] at ht
    refine ⟨fun t ht howns => ?_,
      fun j k t u hj hk ht hu => h.unique j k t u (hold j t hj ht) (hold k u hk hu) ht hu⟩
    obtain ⟨j, hj⟩ := List.mem_iff_getElem?.mp ht
    have hqueue := h.entry t (List.mem_of_getElem? (hold j t hj howns)) howns
    obtain hsame | ⟨hne, _⟩ := hentry
    · rw [hsame, hqueue]
    · exact absurd hqueue hne
  | execute hi hm =>
    cases hm with
    | enter hentry =>
      refine h.resume (fun j u _ hj hu => ?_) fun _ => rfl
      simp [h.none_owns hentry (List.mem_of_getElem? hj)] at hu
    | leave =>
      refine h.resume (fun j u hji hj hu => ?_) fun ht => by cases ht
      exact absurd (h.unique j _ u _ hj hi hu rfl) hji
    | skip | missing | refuse | connect | fail | start | finish | report | mark =>
      exact h.resume_same hi rfl fun _ => by simp_all [Task.owns, Coroutine.owns]
    | read => exact h.resume_same hi rfl fun _ => rfl
    | raised howns => exact h.resume_same hi rfl fun _ => howns
  | orphan hi hm =>
    cases hm with
    | leave =>
      have hentry : s.entry ≠ .queue := by simpa [System.keeps_queue, hi] using hkeeps
      refine h.resume (fun j u _ hj hu => ?_) fun ht => by cases ht
      simp [h.none_owns hentry (List.mem_of_getElem? hj)] at hu
    | give_up | read | interrupt => exact h.resume_same hi rfl fun ht => by cases ht
  | cancel hi hm =>
    cases hm with
    | give_up | read | abort => exact h.resume_same hi rfl fun ht => by cases ht

end System.Exclusive

end taurus.ops
