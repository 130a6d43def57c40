import Taurus.OpsApproval.Events
import Taurus.OpsApproval.Jobs

namespace taurus.ops_approval

open taurus.lib taurus.lib.Thread taurus.lib.Protocol taurus.lib.transition taurus.engine taurus.ops
open taurus.approval (User)

variable {w : World} {k n t : Nat} {x : Execution}

/-- The executions that count against the quota. -/
def World.live (w : World) : Nat := w.executions.countP (·.live)

/-- What creates executions, and what ends them. -/
inductive Worker where
  | request (c : Call)
  | script_task (site : Site) (task : ScriptTask) (hosts : List Host)
  | node (site : Site) (fernet : Fernet) (iv : Nat) (cfg : NodeConfig)
  | completion (k : Nat) (exec_obj : Execution) (success : Bool)
  | orphan (k : Nat)

namespace Worker

def job : Worker → Job Unit
  | request c => Job.ofSession c.thread
  | script_task site task hosts => create_executions site task hosts >>= fun _ => pure ()
  | node site fernet iv cfg => dispatch site fernet iv cfg >>= fun _ => pure ()
  | completion k exec_obj success => update_execution_success k exec_obj success
  | orphan k => _handle_orphan_execution k

/-- The limit that the worker finds is `n`. -/
def Limited (n : Nat) : Worker → Prop
  | request c => c.site.max_concurrent_executions = some n
  | script_task site _ _ | node site _ _ _ => site.max_concurrent_executions = some n
  | completion _ _ _ | orphan _ => True

/-- How many executions it creates at most once it has counted. -/
def rows : Worker → Nat
  | script_task _ _ hosts => hosts.length
  | request _ | node _ _ _ _ | completion _ _ _ | orphan _ => 1

end Worker

/-- The stored state with the executed accesses, the latest one first. -/
structure Journal where
  world : World
  log : List (Nat × Access) := []

def Journal.exec (t : Nat) (c : Access) (d : Journal) : Option (c.Answer × Journal) :=
  some ((d.world.perform c).1, { world := (d.world.perform c).2, log := (t, c) :: d.log })

/-- The access adds to what is counted. -/
def Access.adds : Access → Bool
  | .request (.create_execution x) => x.live
  | _ => false

/-- A count is out of date once another worker has added an execution. -/
def counts : Accesses Access Unit where
  reads c _ := match c with
    | .request .count_live => true
    | _ => false
  saves c _ := c.adds

abbrev Workplace : Type := Threads Journal Access Access.Answer Error

def working (w : World) (workers : List Worker) : Workplace where
  shared := { world := w }
  threads := workers.map Worker.job

/-- So many running executions leave room for so many more, or for none. -/
def Leaves (n running more : Nat) : Prop := n ≤ running ∨ running + more ≤ n

/-- No worker adds an execution after another one has done so since it counted, and whoever counts
finds room for all that it may create, or for none. -/
def Roomy (n : Nat) (workers : List Worker) (s : Workplace) (t : Nat) : Prop :=
  ∀ c, s.current t = some c → counts.SavesFresh t c s.shared.log ∧
    (counts.reads c () = true → ∀ worker, workers[t]? = some worker →
    Leaves n s.shared.world.live worker.rows)

/-- What a worker may still create for its last count, and what it plans to create for a count. -/
structure Credit where
  planned : Nat
  left : Nat

/-- After so many were counted, so many more may be created. -/
def Covers (n running left : Nat) : Prop := running + left ≤ n ∨ left = 0

/-- How the workers use the database under the limit `n`. -/
def budget (n : Nat) : Protocol Access Access.Answer Credit where
  allowed credit
    | .request (.create_execution x) => x.live = true → 0 < credit.left
    | .request (.set_execution_status _ status) => ∀ x : Execution, { x with status }.live = false
    | _ => True
  answers credit c answer :=
    match c, answer with
    | .request .count_live, running => Leaves n running credit.planned
    | _, _ => True
  next credit c answer credit' :=
    match c, answer with
    | .request .count_live, running =>
      credit'.planned = credit.planned ∧ Covers n running credit'.left
    | .request (.create_execution x), _ =>
      credit' = if x.live then { credit with left := credit.left - 1 } else credit
    | _, _ => credit' = credit

/-- What is left of the quota covers what is running. -/
theorem covers_rest {running : Nat} : Covers n running (n - running) := by
  unfold Covers
  omega

/-- The check passes only with room. -/
theorem room_of_check_quota {site : Site} {running : Nat}
    (hlimit : site.max_concurrent_executions = some n) (h : check_quota site running = .ok ()) :
    running < n := by
  unfold check_quota at h
  rw [hlimit] at h
  dsimp only at h
  split at h
  · cases h
  · omega

/-- How the requests use their credit. -/
def spending (i : Nat) (site : Site) (hlimit : site.max_concurrent_executions = some n) :
    Usage (requests (budget n)) i site where
  idle credit := credit.planned = 1
  reviewed credit := credit.planned = 1
  counted running credit := credit.planned = 1 ∧ (running < n → 0 < credit.left)
  created _ _ := True
  stored _ := True
  settled _ := True
  get credit hcredit := ⟨trivial, fun _ _ => ⟨credit, rfl, fun _ _ _ => hcredit⟩⟩
  count credit hcredit :=
    ⟨trivial, fun running _ => ⟨{ credit with left := Nat.sub n running }, ⟨rfl, covers_rest⟩,
      hcredit, Nat.sub_pos_of_lt⟩⟩
  reviewed_of_counted _ _ h := h.1
  create _ _ hquota _ _ hcredit :=
    ⟨fun _ => hcredit.2 (room_of_check_quota hlimit hquota), fun _ _ => ⟨_, rfl, trivial⟩⟩
  launch _ _ _ _ credit _ := ⟨trivial, fun _ _ => ⟨credit, rfl, trivial⟩⟩
  finish _ _ credit _ := ⟨trivial, fun _ _ => ⟨credit, rfl, trivial⟩⟩
  settle _ _ _ _ _ credit _ := ⟨trivial, fun _ _ => ⟨credit, rfl, trivial⟩⟩
  note _ _ _ _ credit _ := ⟨trivial, fun _ _ => ⟨credit, rfl, trivial⟩⟩
  mark _ credit _ := ⟨fun _ => rfl, fun _ _ => ⟨credit, rfl, trivial⟩⟩

section

variable {α β : Type}

/-- From a credit with `P` the job keeps to the budget. -/
def Budgeted (n : Nat) (P : Credit → Prop) (job : Job α) (Q : α → Credit → Prop) : Prop :=
  (budget n).Keeps P job Q fun _ => True

/-- After the count a worker may use the room that it saw. -/
theorem budgeted_count {planned : Nat} :
    Budgeted n (fun credit => credit.planned = planned) (Job.ofSession count_live)
    fun running credit => Leaves n running planned ∧ credit.left = n - running := by
  rintro credit rfl
  exact ⟨trivial, fun running hleaves => ⟨{ credit with left := Nat.sub n running },
    ⟨rfl, covers_rest⟩, hleaves, rfl⟩⟩

/-- A creation uses up one. -/
theorem budgeted_create (x : Execution) (left : Nat) :
    Budgeted n (fun credit => left + 1 ≤ credit.left)
    (Job.ofSession (create_execution x)) fun _ credit => left ≤ credit.left := by
  intro credit hleft
  have hleft : left + 1 ≤ credit.left := hleft
  have hspent : left ≤ (if x.live = true then { credit with left := credit.left - 1 }
    else credit).left := by
    split
    · exact Nat.le_sub_of_add_le hleft
    · omega
  exact ⟨fun _ => by omega, fun _ _ => ⟨_, rfl, hspent⟩⟩

/-- What the budget does not limit. -/
theorem budgeted_free {c : Access} {P : Credit → Prop}
    (hallowed : ∀ credit, (budget n).allowed credit c)
    (hnext : ∀ credit answer, (budget n).next credit c answer credit) :
    Budgeted n P (Thread.statement c : Job c.Answer) fun _ => P :=
  fun credit hcredit => ⟨hallowed credit, fun answer _ => ⟨credit, hnext credit answer, hcredit⟩⟩

/-- Following an execution needs no room. -/
theorem budgeted_sync {status : OpsStatus} :
    Budgeted n (fun _ => True) (_sync_approval_status k x status) fun _ _ => True := by
  have hexists : Budgeted n (fun _ => True) (executing_exists k) fun _ _ => True :=
    budgeted_free (fun _ => trivial) fun _ _ => rfl
  have hupdate : ∀ status, Budgeted n (fun _ => True) (update_executing k status) fun _ _ => True :=
    fun _ => budgeted_free (fun _ => trivial) fun _ _ => rfl
  unfold _sync_approval_status
  split
  · exact keeps_pure fun _ h => h
  · refine keeps_bind hexists fun found => ?_
    split
    · exact hupdate _
    · exact keeps_pure fun _ h => h

/-- Neither does ending one. -/
theorem budgeted_save_execution {status : OpsStatus}
    (hended : ∀ x : Execution, { x with status }.live = false) :
    Budgeted n (fun _ => True) (save_execution k x status) fun _ _ => True := by
  have hstore : Budgeted n (fun _ => True) (Job.ofSession (set_execution_status k status))
    fun _ _ => True :=
    fun credit _ => ⟨hended, fun _ _ => ⟨credit, rfl, trivial⟩⟩
  refine keeps_bind hstore fun _ => ?_
  split
  · exact budgeted_sync
  · exact keeps_pure fun _ h => h

/-- From a credit with `P` the request keeps to the budget. -/
def Thrifty (n : Nat) (P : Credit → Prop) (session : Session α) : Prop :=
  Usage.Keeps (requests (budget n)) P session

/-- A submission creates one execution. -/
theorem thrifty_submit {form : Form} {origin : Origin} {host : Host} {execution_type : String}
    {params : Parameters} :
    Thrifty n (fun credit => 0 < credit.left) (form.submit origin host execution_type params) := by
  have hcreate : (requests (budget n)).Keeps (fun credit => 0 < credit.left)
      (create_execution (form.execution origin host execution_type params)) (fun _ _ => True)
      fun _ => False :=
    fun credit hleft => ⟨fun _ => hleft, fun _ _ => ⟨_, rfl, trivial⟩⟩
  refine Usage.keeps_step hcreate fun k => ?_
  split
  · have hstore : ∀ row, (requests (budget n)).Keeps (fun _ => True) (create_approval row)
      (fun _ _ => True)
        fun _ => False := fun row credit _ => ⟨trivial, fun _ _ => ⟨credit, rfl, trivial⟩⟩
    refine keeps_bind (keeps_fromExcept (fun _ _ _ h => h) fun _ _ => trivial) fun row => ?_
    exact Usage.keeps_step (hstore row) fun _ => Usage.keeps_return
  · exact Usage.keeps_return

/-- What comes after the check of the quota has credit for one execution. -/
theorem thrifty_checked {site : Site} {f : Unit → Session β}
    (hlimit : site.max_concurrent_executions = some n)
    (hf : Thrifty n (fun credit => 0 < credit.left) (f ())) :
    Thrifty n (fun credit => credit.planned = 1) (count_live >>=
      fun running => fromExcept (check_quota site running) >>= f) := by
  refine Usage.keeps_step ((spending 0 site hlimit).count) fun running => ?_
  cases hquota : check_quota site running with
  | error err => exact keeps_raise fun _ _ => trivial
  | ok answer =>
    exact fun credit hcredit => hf credit (hcredit.2 (room_of_check_quota hlimit hquota))

/-- A request plans one execution and stays in the room that it saw. -/
theorem budgeted_request {c : Call} (hlimit : c.site.max_concurrent_executions = some n) :
    Budgeted n (fun credit => credit.planned = 1) (Job.ofSession c.thread) fun _ _ => True := by
  have hon : ∀ i, c.On i → Budgeted n (fun credit => credit.planned = 1) (Job.ofSession c.thread)
    fun _ _ => True :=
    fun i hc => keeps_ofSession ((spending i c.site hlimit).keeps_thread hc)
  have hsession : Thrifty n (fun credit => credit.planned = 1) c.session →
      Budgeted n (fun credit => credit.planned = 1) (Job.ofSession c.thread) fun _ _ => True :=
    fun h => keeps_ofSession (keeps_bind h fun _ => Usage.keeps_return)
  cases c with
  | approve site i => exact hon i rfl
  | reject site i => exact hon i rfl
  | delegate site i => exact hon i rfl
  | add_sign site i => exact hon i rfl
  | cancel site i => exact hon i rfl
  | execute_command origin request =>
    refine hsession (thrifty_checked hlimit ?_)
    split
    · exact Usage.keeps_error_response
    · split
      · exact Usage.keeps_error_response
      · exact thrifty_submit
  | execute_script origin request =>
    refine hsession (thrifty_checked hlimit ?_)
    split
    · exact Usage.keeps_error_response
    · split
      · exact Usage.keeps_error_response
      · split
        · exact Usage.keeps_error_response
        · exact thrifty_submit
  | submit_script_approval origin request =>
    refine hsession ?_
    simp only [Call.session, submit_script_approval]
    split
    · exact Usage.keeps_error_response
    · have hstore : ∀ row, (requests (budget n)).Keeps
        (fun credit => credit.planned = 1) (create_approval row) (fun _ _ => True)
          fun _ => False := fun _ credit _ => ⟨trivial, fun _ _ => ⟨credit, rfl, trivial⟩⟩
      refine keeps_bind (keeps_fromExcept (fun _ _ _ h => h) fun _ _ => trivial) fun row => ?_
      exact Usage.keeps_step (hstore row) fun _ => Usage.keeps_return

/-- The worker of a script task creates one execution for each host. -/
theorem budgeted_script_task {site : Site} {task : ScriptTask} {hosts : List Host}
    (hlimit : site.max_concurrent_executions = some n) :
    Budgeted n (fun credit => credit.planned = hosts.length) (create_executions site task hosts)
      fun _ _ => True := by
  refine keeps_bind budgeted_count fun running => ?_
  refine keeps_bind (R := fun _ credit => hosts.length ≤ credit.left) ?_ fun _ => ?_
  · refine keeps_fromExcept (fun _ hquota credit hcredit => ?_) fun _ _ => trivial
    have hroom := room_of_check_quota hlimit hquota
    obtain ⟨hleaves, hleft⟩ := hcredit
    unfold Leaves at hleaves
    omega
  · refine Keeps.conseq (keeps_forEach (I := fun rest credit => rest.length ≤ credit.left)
      (fun host rest => ?_) hosts)
      (fun _ h => h) (fun _ _ _ => trivial) fun _ h => h
    exact budgeted_create (task.execution host) rest.length

theorem budgeted_return {P : Credit → Prop} {b : β} :
    Budgeted n P (pure b : Job β) fun _ _ => True :=
  keeps_pure fun _ _ => trivial

/-- The adapter of a node counts once and creates one execution. -/
theorem budgeted_dispatch {site : Site} {fernet : Fernet} {iv : Nat} {cfg : NodeConfig}
    (hlimit : site.max_concurrent_executions = some n) :
    Budgeted n (fun credit => credit.planned = 1) (dispatch site fernet iv cfg)
      fun _ _ => True := by
  have hfind : Budgeted n (fun credit => credit.planned = 1) (find_batch cfg.dispatch_id)
    fun _ credit => credit.planned = 1 :=
    budgeted_free (fun _ => trivial) fun _ _ => rfl
  unfold dispatch
  cases cfg.host_id with
  | none => exact budgeted_return
  | some host_id =>
    dsimp only
    cases site.host host_id with
    | none => exact budgeted_return
    | some host =>
      refine keeps_bind hfind fun existing => ?_
      cases existing with
      | some existing => exact budgeted_return
      | none =>
        refine keeps_bind budgeted_count fun running => ?_
        cases hquota : check_quota site running with
        | error err => exact budgeted_return
        | ok answer =>
          have hroom := room_of_check_quota hlimit hquota
          have hcreate : Budgeted n _
            (Job.ofSession (create_execution (cfg.execution fernet iv host))) _ :=
            budgeted_create _ 0
          refine keeps_bind (hcreate.conseq (fun credit hcredit => ?_) (fun _ _ h => h)
            fun _ h => h) fun _ => budgeted_return
          have hleft : credit.left = Nat.sub n running := hcredit.2
          rw [hleft]
          exact Nat.sub_pos_of_lt hroom

/-- Every worker stays within the budget. -/
theorem budgeted_job {worker : Worker} (hlimited : worker.Limited n) :
    Budgeted n (fun credit => credit.planned = worker.rows) worker.job fun _ _ => True := by
  have hsave : ∀ {P : Credit → Prop} {k : Nat} {x : Execution} {status : OpsStatus},
      (∀ x : Execution, { x with status }.live = false) →
        Budgeted n P (save_execution k x status) fun _ _ => True :=
    fun hended => (budgeted_save_execution hended).conseq (fun _ _ => trivial)
      (fun _ _ h => h) fun _ h => h
  cases worker with
  | request c => exact budgeted_request hlimited
  | script_task site task hosts =>
    exact keeps_bind (budgeted_script_task hlimited) fun _ => budgeted_return
  | node site fernet iv cfg =>
    exact keeps_bind (budgeted_dispatch hlimited) fun _ => budgeted_return
  | completion k x success =>
    refine keeps_bind (hsave fun x => ?_) fun _ => budgeted_sync
    cases success <;> rfl
  | orphan k =>
    have hget : Budgeted n (fun credit => credit.planned = 1) (get_execution k) fun _ _ => True :=
      fun credit _ => ⟨trivial, fun _ _ => ⟨credit, rfl, trivial⟩⟩
    refine keeps_bind hget fun answer => ?_
    cases answer with
    | none => exact budgeted_return
    | some x =>
      dsimp only
      split
      · exact budgeted_return
      · exact hsave fun _ => rfl

end

/-- The rows stay within the limit, and whoever is up to date has room for what it
may still create. -/
structure Bounded (n : Nat) (workers : List Worker) (d : Journal)
    (credits : Nat → Credit) : Prop where
  live : d.world.live ≤ n
  planned : ∀ t, (credits t).planned = (workers[t]?).elim 0 Worker.rows
  room : ∀ t, counts.fresh t () d.log = true → d.world.live + (credits t).left ≤ n

/-- Ending an execution leaves no more of them live. -/
theorem live_set_status {status : OpsStatus}
    (hended : ∀ x : Execution, { x with status }.live = false) :
    (w.set_status k status).live ≤ w.live := by
  unfold World.live World.set_status
  dsimp only
  induction w.executions generalizing k with
  | nil => exact Nat.le_of_eq (congrArg _ (List.modify_nil _ _))
  | cons x rest ih =>
    cases k with
    | zero =>
      rw [List.modify_zero_cons, List.countP_cons_of_neg (by rw [hended]; nofun), List.countP_cons]
      omega
    | succ k =>
      rw [List.modify_succ_cons, List.countP_cons, List.countP_cons]
      have := ih (k := k)
      omega

/-- A live execution counts one more. -/
theorem live_add_execution : ({ w with executions := w.executions ++ [x] } : World).live =
  w.live + if x.live = true then 1 else 0 := by
  unfold World.live
  rw [List.countP_append, List.countP_singleton]

namespace Bounded

variable {workers : List Worker} {d : Journal} {credits : Nat → Credit} {c : Access}
  {credit : Credit}

/-- An access that adds nothing and is no count. -/
theorem other {w' : World} (h : Bounded n workers d credits) (hreads : counts.reads c () = false)
    (hlive : w'.live ≤ d.world.live) :
    Bounded n workers { world := w', log := (t, c) :: d.log }
      (Function.update credits t (credits t)) := by
  rw [Function.update_eq_self]
  refine ⟨Nat.le_trans hlive h.live, h.planned, fun u hu => ?_⟩
  have := h.room u (counts.fresh_of_cons hreads hu)
  dsimp only
  omega

/-- Each worker plans what it has to. -/
theorem planned_update (h : Bounded n workers d credits)
    (hplanned : credit.planned = (credits t).planned) :
    ∀ u, (Function.update credits t credit u).planned = (workers[u]?).elim 0 Worker.rows := by
  intro u
  by_cases hu : u = t
  · subst hu
    rw [Function.update_self, hplanned, h.planned]
  · rw [Function.update_of_ne hu, h.planned]

/-- The bound holds after a count. -/
theorem count (h : Bounded n workers d credits) (hplanned : credit.planned = (credits t).planned)
    (hcovers : Covers n d.world.live credit.left) :
    Bounded n workers { d with log := (t, .request .count_live) :: d.log }
      (Function.update credits t credit) := by
  refine ⟨h.live, h.planned_update hplanned, fun u hu => ?_⟩
  have hlive := h.live
  by_cases ht : u = t
  · subst ht
    rw [Function.update_self]
    unfold Covers at hcovers
    dsimp only
    omega
  · rw [Function.update_of_ne ht]
    rw [counts.fresh_cons_other (Ne.symm ht)] at hu
    exact h.room u hu

theorem create (h : Bounded n workers d credits)
    (hfresh : x.live = true → counts.fresh t () d.log = true)
    (hleft : x.live = true → 0 < (credits t).left) :
    Bounded n workers { world := { d.world with executions := d.world.executions ++ [x] }, log := (t, .request (.create_execution x)) :: d.log }
      (Function.update credits t (if x.live then { credits t with left := (credits t).left - 1 }
        else credits t)) := by
  by_cases hx : x.live = true
  · have hroom := h.room t (hfresh hx)
    have hpos := hleft hx
    rw [if_pos hx]
    refine ⟨?_, h.planned_update rfl, fun u hu => ?_⟩
    · rw [live_add_execution, if_pos hx]
      omega
    · have hsaves : counts.saves (.request (.create_execution x)) () = true := hx
      obtain rfl : t = u := counts.eq_of_fresh_saved hsaves hu
      rw [Function.update_self, live_add_execution, if_pos hx]
      dsimp only
      omega
  · rw [if_neg hx]
    refine h.other rfl ?_
    rw [live_add_execution, if_neg hx]
    exact Nat.le_refl _

end Bounded

/-- Every access of a worker keeps the bound. -/
theorem bounded_exec {workers : List Worker} {d d' : Journal} {credits : Nat → Credit} {c : Access}
    {answer : c.Answer} (h : Bounded n workers d credits) (hfresh : counts.SavesFresh t c d.log)
    (hallowed : (budget n).allowed (credits t) c) (hexec : d.exec t c = some (answer, d'))
    {credit : Credit} (hnext : (budget n).next (credits t) c answer credit) :
    Bounded n workers d' (Function.update credits t credit) := by
  obtain ⟨rfl, rfl⟩ := Prod.mk.inj (Option.some.inj hexec)
  cases c with
  | request c =>
    cases c with
    | count_live => exact h.count hnext.1 hnext.2
    | create_execution x =>
      obtain rfl : credit = _ := hnext
      exact h.create (hfresh ()) hallowed
    | set_execution_status k status =>
      obtain rfl : credit = _ := hnext
      exact h.other rfl (live_set_status hallowed)
    | create_approval row =>
      obtain rfl : credit = _ := hnext
      exact h.other rfl (Nat.le_refl _)
    | get_approval i =>
      obtain rfl : credit = _ := hnext
      exact h.other rfl (Nat.le_refl _)
    | save_approval i row update_fields =>
      obtain rfl : credit = _ := hnext
      exact h.other rfl (Nat.le_refl _)
  | _ =>
    obtain rfl : credit = _ := hnext
    exact h.other rfl (Nat.le_refl _)

/-- As long as nobody creates on an outdated count, and script tasks find room for all their hosts
or for none, the live executions stay within the limit. -/
theorem quota_kept {workers : List Worker} {s : Workplace}
    (hlimited : ∀ worker ∈ workers, worker.Limited n) (hlive : w.live ≤ n)
    (hrun : Runs (Threads.step Journal.exec) (Roomy n workers) (working w workers) s) :
    s.shared.world.live ≤ n := by
  have hstart : Threads.ObeyingTo (budget n) (fun _ _ _ => True) (Bounded n workers)
      (working w workers) := by
    refine ⟨fun t => { planned := (workers[t]?).elim 0 Worker.rows, left := 0 },
      ⟨hlive, fun _ => rfl, fun t => nofun⟩, ?_⟩
    intro t job hjob
    have hjob : (workers.map Worker.job)[t]? = some job := hjob
    rw [List.getElem?_map] at hjob
    obtain ⟨worker, hworker, rfl⟩ := Option.map_eq_some_iff.mp hjob
    have hplanned : (workers[t]?).elim 0 Worker.rows = worker.rows := by rw [hworker]; rfl
    exact (budgeted_job (hlimited worker (List.mem_of_getElem? hworker)) _ hplanned).mono
      fun _ _ _ => trivial
  have hobeying := Threads.obeyingTo_of_runs ?_ hrun hstart
  · obtain ⟨credits, hbounded, -⟩ := hobeying
    exact hbounded.live
  · intro s t credits c answer d hroomy hbounded hcurrent hallowed hexec
    obtain ⟨hfresh, hleaves⟩ := hroomy c hcurrent
    refine ⟨?_, fun credit hnext => bounded_exec hbounded hfresh hallowed hexec hnext⟩
    obtain ⟨rfl, rfl⟩ := Prod.mk.inj (Option.some.inj hexec)
    cases c with
    | request c =>
      cases c with
      | count_live =>
        change Leaves n s.shared.world.live (credits t).planned
        rw [hbounded.planned t]
        cases hworker : workers[t]? with
        | none => exact Or.inr hbounded.live
        | some worker => exact hleaves rfl worker hworker
      | _ => trivial
    | _ => trivial

instance decidableSaved {c : Access} {log : List (Nat × Access)} :
    Decidable (counts.SavesFresh t c log) :=
  decidable_of_iff (c.adds = true → counts.fresh t () log = true) ⟨fun h _ => h, fun h => h ()⟩

instance decidableLeaves {running more : Nat} : Decidable (Leaves n running more) :=
  inferInstanceAs (Decidable (n ≤ running ∨ running + more ≤ n))

instance decidableRoomy (n : Nat) (workers : List Worker) (s : Workplace) (t : Nat) :
    Decidable (Roomy n workers s t) :=
  match hcurrent : s.current t with
  | none => isTrue fun c hc => by rw [hcurrent] at hc; cases hc
  | some c => decidable_of_iff (counts.SavesFresh t c s.shared.log ∧ (counts.reads c () = true →
      ∀ worker ∈ workers[t]?, Leaves n s.shared.world.live worker.rows))
      ⟨fun h c' hc => by
        rw [hcurrent] at hc
        exact Option.some.inj hc ▸ ⟨h.1, fun hreads worker hworker => h.2 hreads worker hworker⟩,
      fun h => ⟨(h c hcurrent).1,
        fun hreads worker hworker => (h c hcurrent).2 hreads worker hworker⟩⟩

/-! A shop that runs one command at a time. -/

def narrow_shop : Site := { shop with max_concurrent_executions := some 1 }

def ping : Worker := .request
    (.execute_command { from_alice with site := narrow_shop } { host_id := "1", command := "ping" })

def two_pings : List Worker := [ping, ping]

theorem two_pings_limited : ∀ worker ∈ two_pings, worker.Limited 1 :=
  List.forall_mem_cons.mpr ⟨rfl, List.forall_mem_singleton.mpr rfl⟩

theorem ping_after_ping :
    ((exec (Threads.step Journal.exec) (Roomy 1 two_pings) (working {} two_pings) [0, 0, 1]).any
    fun s => s.shared.world.live = 1) = true := by decide +kernel

theorem pings_within :
    ∃ s, Runs (Threads.step Journal.exec) (Roomy 1 two_pings) (working {} two_pings) s ∧
    s.shared.world.live = 1 ∧ s.shared.world.live ≤ 1 := by
  obtain ⟨s, hrun, hs⟩ := exists_run_of_exec _ ping_after_ping
  have hempty : World.live {} ≤ 1 := Nat.zero_le 1
  exact ⟨s, hrun, of_decide_eq_true hs, quota_kept two_pings_limited hempty hrun⟩

theorem ping_beside_ping :
    ((exec (Threads.step Journal.exec) (fun _ _ => True) (working {} two_pings) [0, 1, 0, 1]).any
    fun s => s.shared.world.live = 2) = true := by decide +kernel

/-- Both requests count before either creates its execution. -/
theorem pings_beyond :
    ¬∀ s, Runs (Threads.step Journal.exec) (fun _ _ => True) (working {} two_pings) s →
      s.shared.world.live ≤ 1 := by
  intro h
  obtain ⟨s, hrun, hs⟩ := exists_run_of_exec _ ping_beside_ping
  have htwo : s.shared.world.live = 2 := of_decide_eq_true hs
  have hone := h s hrun
  omega

end taurus.ops_approval
