import Taurus.OpsApproval.Events
import Taurus.OpsApproval.Jobs

namespace taurus.ops_approval

open taurus.lib taurus.lib.Thread taurus.lib.Protocol taurus.lib.transition taurus.engine taurus.ops
open taurus.approval (User)

variable {w w' : World} {i k n t : Nat} {a : Approval}

/-- A process beside the requests on approval `i`: the run of an execution, or the handling of one
whose executor was lost. -/
inductive Party where
  | request (c : Call)
  | execute (k : Nat) (overdue success : Bool)
  | orphan (k : Nat)

def Party.job : Party → Job Unit
  | .request c => Job.ofSession c.thread
  | .execute k overdue success => _execute_ops_async k overdue success
  | .orphan k => _handle_orphan_execution k

/-- The requests are on approval `i`. -/
def Party.On (i : Nat) : Party → Prop
  | .request c => c.On i
  | .execute _ _ _ | .orphan _ => True

abbrev Processes : Type := Threads World Access Access.Answer Error

def perform (_ : Nat) (c : Access) (w : World) : Option (c.Answer × World) := some (w.perform c)

def running (w : World) (parties : List Party) : Processes where
  shared := w
  threads := parties.map Party.job

/-- The process interrupts an execution, or stores a status for one that has ended. -/
def interrupts (s : Processes) (t : Nat) : Bool :=
  match s.current t with
  | some (.request (.set_execution_status k status)) =>
    status = .ABORTED || (s.shared.executions[k]?).any (·.status.terminal)
  | _ => false

def Uninterrupted (s : Processes) (t : Nat) : Prop := interrupts s t = false

instance decidableUninterrupted (s : Processes) (t : Nat) : Decidable (Uninterrupted s t) :=
  inferInstanceAs (Decidable (interrupts s t = false))

/-- A status that is stored in an uninterrupted run overwrites no end and interrupts nothing. -/
theorem Uninterrupted.spares {s : Processes} {status : OpsStatus} (h : Uninterrupted s t)
    (hcurrent : s.current t = some (.request (.set_execution_status k status))) :
    status ≠ .ABORTED ∧ ∀ x, s.shared.executions[k]? = some x → x.status.terminal = false := by
  unfold Uninterrupted interrupts at h
  rw [hcurrent] at h
  obtain ⟨haborted, hlive⟩ := Bool.or_eq_false_iff.mp h
  refine ⟨of_decide_eq_false haborted, fun x hx => ?_⟩
  rwa [hx] at hlive

/-- The approval's outcome is that of its execution. -/
def Followed (i : Nat) (w : World) : Prop :=
  ∀ a, w.approvals[i]? = some a →
    (a.status = .executing → ∀ k x, a.ops_execution = some k → w.executions[k]? = some x →
    x.status.terminal = false) ∧
    (a.status = .done → ∃ k x, a.ops_execution = some k ∧ w.executions[k]? = some x ∧
      x.status = .SUCCESS)

/-- How far a process has come: a request has created execution `k`, or stored that it is executed;
another process has found execution `k`, or stored how it ended. -/
inductive Phase where
  | idle
  | created (k : Nat)
  | stored
  | found (k : Nat)
  | ended (k : Nat) (status : OpsStatus)

/-- How the processes use the database. -/
def rules (i : Nat) : Protocol Access Access.Answer Phase where
  allowed phase
    | .request c =>
      match c with
      | .count_live => True
      | .create_execution x => x.status = .PENDING
      | .set_execution_status k status => status.terminal = true → phase = .found k
      | .get_approval j => j = i
      | .create_approval _ => False
      | .save_approval j row update_fields => j = i ∧
        if Field.ops_execution ∈ update_fields then
          Field.status ∈ update_fields ∧ ∃ k, phase = .created k ∧ row.ops_execution = some k ∧
            row.status = .executing
        else Field.status ∈ update_fields →
          row.status ≠ .done ∧ (row.status = .executing → phase = .stored)
    | .get_execution _ | .find_batch _ | .executing_exists _ => True
    | .update_executing k status => ∃ es, phase = .ended k es ∧ status = outcome es
    | .stale_approvals | .update_status _ _ => False
  answers _ _ _ := True
  next phase c answer phase' :=
    match c, answer with
    | .request (.create_execution _), k => phase' = .created k
    | .request (.set_execution_status k status), _ =>
      phase' = if status.terminal then .ended k status else phase
    | .request (.save_approval _ _ update_fields), _ =>
      phase' = if Field.ops_execution ∈ update_fields then .stored else phase
    | .get_execution k, some _ => phase' = .found k
    | _, _ => phase' = phase

/-- How the requests go through the phases. -/
def phases (i : Nat) (site : Site) : Usage (requests (rules i)) i site where
  idle _ := True
  reviewed _ := True
  counted _ _ := True
  created k phase := phase = .created k
  stored phase := phase = .stored
  settled _ := True
  get phase _ := ⟨rfl, fun _ _ => ⟨phase, rfl, fun _ _ _ => trivial⟩⟩
  count phase _ := ⟨trivial, fun _ _ => ⟨phase, rfl, trivial⟩⟩
  reviewed_of_counted _ _ _ := trivial
  create _ _ _ hstatus _ _ := ⟨hstatus, fun k _ => ⟨.created k, rfl, rfl⟩⟩
  launch k _ hk hstatus phase hphase :=
    ⟨⟨rfl, (if_pos (by decide)).mpr ⟨by decide, k, hphase, hk, hstatus⟩⟩,
      fun _ _ => ⟨.stored, rfl, rfl⟩⟩
  finish row hstatus phase hphase := by
    refine ⟨⟨rfl, (if_neg (by decide)).mpr fun _ => ⟨?_, fun _ => hphase⟩⟩,
      fun _ _ => ⟨phase, rfl, trivial⟩⟩
    rw [hstatus]
    nofun
  settle row update_fields _ hfield hstatus phase _ := by
    refine ⟨⟨rfl, (if_neg hfield).mpr fun _ => ?_⟩,
      fun _ _ => ⟨phase, (if_neg hfield).symm, trivial⟩⟩
    rcases hstatus with hc | hc | hc <;> rw [hc] <;> exact ⟨nofun, nofun⟩
  note _ _ hstatus hfield phase _ :=
    ⟨⟨rfl, (if_neg hfield).mpr fun hc => absurd hc hstatus⟩,
      fun _ _ => ⟨phase, (if_neg hfield).symm, trivial⟩⟩
  mark k phase _ := ⟨fun hc => absurd hc (by decide), fun _ _ => ⟨phase, rfl, trivial⟩⟩

section

variable {α β : Type} {x : Execution} {status : OpsStatus}

/-- From a phase with `P` the job keeps to the rules. -/
def Abides (i : Nat) (P : Phase → Prop) (job : Job α) (Q : α → Phase → Prop) : Prop :=
  (rules i).Keeps P job Q fun _ => True

/-- A job that loads an execution has found it. -/
theorem abides_get_execution : Abides i (fun _ => True) (get_execution k) fun answer phase =>
    answer ≠ none → phase = .found k := by
  refine fun phase _ => ⟨trivial, fun answer _ => ?_⟩
  cases answer with
  | none => exact ⟨phase, rfl, fun hc => absurd rfl hc⟩
  | some x => exact ⟨.found k, rfl, fun _ => rfl⟩

/-- The approval follows the execution that has ended. -/
theorem abides_sync :
    Abides i (fun phase => phase = .ended k status) (_sync_approval_status k x status)
    fun _ phase => phase = .ended k status := by
  have hexists : Abides i (fun phase => phase = .ended k status) (executing_exists k) fun _ phase =>
    phase = .ended k status :=
    fun phase hphase => ⟨trivial, fun _ _ => ⟨phase, rfl, hphase⟩⟩
  unfold _sync_approval_status
  split
  · exact keeps_pure fun _ hphase => hphase
  · refine keeps_bind hexists fun found => ?_
    split
    · exact fun phase hphase => ⟨⟨status, hphase, rfl⟩, fun _ _ => ⟨phase, rfl, hphase⟩⟩
    · exact keeps_pure fun _ hphase => hphase

/-- Storing an end makes the approval follow. -/
theorem abides_end_execution (hended : status.terminal = true) :
    Abides i (fun phase => phase = .found k) (save_execution k x status) fun _ phase => phase =
      .ended k status := by
  have hstore : Abides i (fun phase => phase = .found k)
    (Job.ofSession (set_execution_status k status))
      fun _ phase => phase = .ended k status :=
    fun phase hphase => ⟨fun _ => hphase, fun _ _ => ⟨.ended k status, (if_pos hended).symm, rfl⟩⟩
  refine keeps_bind hstore fun _ => ?_
  split
  · exact abides_sync
  · exact keeps_pure fun _ hphase => hphase

/-- A running execution has not ended. -/
theorem abides_mark_running :
    Abides i (fun phase => phase = .found k) (save_execution k x .RUNNING) fun _ phase =>
      phase = .found k := by
  have hstore : Abides i (fun phase => phase = .found k)
    (Job.ofSession (set_execution_status k .RUNNING))
      fun _ phase => phase = .found k :=
    fun phase hphase => ⟨fun _ => hphase, fun _ _ => ⟨phase, rfl, hphase⟩⟩
  refine keeps_bind hstore fun _ => ?_
  split
  · rename_i hc
    rcases hc with hc | hc <;> cases hc
  · exact keeps_pure fun _ hphase => hphase

/-- Neither result of a command breaks the tracking. -/
theorem abides_update_execution_success {success : Bool} :
    Abides i (fun phase => phase = .found k) (update_execution_success k x success)
      fun _ _ => True := by
  refine keeps_bind (abides_end_execution ?_) fun _ => ?_
  · cases success <;> rfl
  · exact abides_sync.conseq (fun _ h => h) (fun _ _ _ => trivial) fun _ h => h

/-- Every process keeps to the rules. -/
theorem abides_job {party : Party} (hon : party.On i) :
    Abides i (fun _ => True) party.job fun _ _ => True := by
  cases party with
  | request c => exact keeps_ofSession ((phases i c.site).keeps_thread hon)
  | execute k overdue success =>
    refine keeps_bind abides_get_execution fun answer => ?_
    cases answer with
    | none => exact keeps_pure fun _ _ => trivial
    | some x =>
      have hfound : ∀ phase, (some x ≠ none → phase = Phase.found k) → phase = .found k :=
        fun _ h => h nofun
      have hupdate : Abides i _ (update_execution_success k x success) _ :=
        abides_update_execution_success.conseq hfound (fun _ _ h => h) fun _ h => h
      dsimp only
      split
      · exact keeps_pure fun _ _ => trivial
      · split
        · exact keeps_pure fun _ _ => trivial
        · split
          · refine keeps_bind (abides_mark_running.conseq hfound (fun _ _ h => h) fun _ h => h)
              fun _ => ?_
            exact abides_update_execution_success
          · exact hupdate
  | orphan k =>
    refine keeps_bind abides_get_execution fun answer => ?_
    cases answer with
    | none => exact keeps_pure fun _ _ => trivial
    | some x =>
      dsimp only
      split
      · exact keeps_pure fun _ _ => trivial
      · exact (abides_end_execution rfl).conseq (fun _ h => h nofun)
          (fun _ _ _ => trivial) fun _ h => h

end

/-- Execution `k` is younger than the processes. -/
def World.Ran (w : World) (n k : Nat) : Prop := n ≤ k ∧ k < w.executions.length

/-- What links the stored approval with the executions and with what the processes have done. -/
structure Tracks (n : Nat) (w : World) (a : Approval) (hs : Nat → Phase) : Prop where
  older : n ≤ w.executions.length
  uninterrupted : ∀ k x, n ≤ k → w.executions[k]? = some x → x.status ≠ .ABORTED
  executing : a.status = .executing → ∃ k, a.ops_execution = some k ∧ w.Ran n k
  done : a.status = .done →
    ∃ k x, a.ops_execution = some k ∧ w.executions[k]? = some x ∧ x.status = .SUCCESS
  created : ∀ t k, hs t = .created k → w.Ran n k
  stored : ∀ t, hs t = .stored → ∃ k, a.ops_execution = some k ∧ w.Ran n k
  found : ∀ t k, hs t = .found k → k < w.executions.length
  ended : ∀ t k status, hs t = .ended k status →
    ∃ x, w.executions[k]? = some x ∧ x.status = status ∧ status.terminal = true

/-- Only the status of an execution changes. -/
theorem set_status_getElem? {x : Execution} {status : OpsStatus} (hx : w.executions[k]? = some x) :
    (w.set_status k status).executions[k]? = some { x with status } := by
  unfold World.set_status
  rw [List.getElem?_modify, hx]
  simp

/-- The phase of a job that moved, or that of another. -/
theorem phase_of_update {hs : Nat → Phase} {u : Nat} {stage phase : Phase}
    (hu : Function.update hs t stage u = phase) :
    stage = phase ∨ hs u = phase := by
  by_cases ht : u = t
  · subst ht
    rw [Function.update_self] at hu
    exact Or.inl hu
  · rw [Function.update_of_ne ht] at hu
    exact Or.inr hu

namespace Tracks

variable {a' : Approval} {hs : Nat → Phase} {x : Execution} {status : OpsStatus}

/-- A change of the approval that keeps its status and its execution. -/
theorem noted (h : Tracks n w a hs) (hstatus : a'.status = a.status)
    (hops : a'.ops_execution = a.ops_execution) :
    Tracks n w a' hs := by
  refine ⟨h.older, h.uninterrupted, ?_, ?_, h.created, ?_, h.found, h.ended⟩
  · rw [hstatus, hops]
    exact h.executing
  · rw [hstatus, hops]
    exact h.done
  · rw [hops]
    exact h.stored

/-- A created execution is tracked. -/
theorem create (h : Tracks n w a hs) (hx : x.status = .PENDING) :
    Tracks n (w.add_execution x) a (Function.update hs t (.created w.executions.length)) := by
  have hlength : (w.add_execution x).executions.length = w.executions.length + 1 :=
    List.length_append
  have hran : ∀ k, w.Ran n k → (w.add_execution x).Ran n k := by
    rintro k ⟨hn, hk⟩
    refine ⟨hn, ?_⟩
    rw [hlength]
    omega
  have hkept : ∀ k y, w.executions[k]? = some y → (w.add_execution x).executions[k]? = some y :=
    fun k y hy => (List.getElem?_append_left (List.getElem?_eq_some_iff.mp hy).1).trans hy
  constructor
  · have := h.older
    omega
  · intro k y hk hy
    have hy := List.getElem?_append.symm.trans hy
    split at hy
    · exact h.uninterrupted k y hk hy
    · obtain rfl := List.mem_singleton.mp (List.mem_of_getElem? hy)
      rw [hx]
      nofun
  · intro hexecuting
    obtain ⟨k, hk, hkran⟩ := h.executing hexecuting
    exact ⟨k, hk, hran k hkran⟩
  · intro hdone
    obtain ⟨k, y, hk, hy, hsuccess⟩ := h.done hdone
    exact ⟨k, y, hk, hkept k y hy, hsuccess⟩
  · intro u k hu
    obtain hc | hu := phase_of_update hu
    · obtain rfl := Phase.created.inj hc
      have := h.older
      exact ⟨this, by omega⟩
    · exact hran k (h.created u k hu)
  · intro u hu
    obtain hc | hu := phase_of_update hu
    · cases hc
    · obtain ⟨k, hk, hkran⟩ := h.stored u hu
      exact ⟨k, hk, hran k hkran⟩
  · intro u k hu
    obtain hc | hu := phase_of_update hu
    · cases hc
    · have := h.found u k hu
      omega
  · intro u k status hu
    obtain hc | hu := phase_of_update hu
    · cases hc
    · obtain ⟨y, hy, hstatus⟩ := h.ended u k status hu
      exact ⟨y, hkept k y hy, hstatus⟩

theorem find (h : Tracks n w a hs) (hk : k < w.executions.length) :
    Tracks n w a (Function.update hs t (.found k)) := by
  refine ⟨h.older, h.uninterrupted, h.executing, h.done, ?_, ?_, ?_, ?_⟩
  · intro u k' hu
    obtain hc | hu := phase_of_update hu
    · cases hc
    · exact h.created u k' hu
  · intro u hu
    obtain hc | hu := phase_of_update hu
    · cases hc
    · exact h.stored u hu
  · intro u k' hu
    obtain hc | hu := phase_of_update hu
    · obtain rfl := Phase.found.inj hc
      exact hk
    · exact h.found u k' hu
  · intro u k' status hu
    obtain hc | hu := phase_of_update hu
    · cases hc
    · exact h.ended u k' status hu

/-- The status of an execution that has not ended is stored. -/
theorem set_status (h : Tracks n w a hs) (haborted : status ≠ .ABORTED)
    (hlive : ∀ x, w.executions[k]? = some x → x.status.terminal = false)
    (hfound : status.terminal = true → hs t = .found k) :
    Tracks n (w.set_status k status) a
      (Function.update hs t (if status.terminal = true then .ended k status else hs t)) := by
  have hlength : (w.set_status k status).executions.length = w.executions.length :=
    List.length_modify ..
  have hran : ∀ k', w.Ran n k' → (w.set_status k status).Ran n k' :=
    fun k' hk' => ⟨hk'.1, hlength ▸ hk'.2⟩
  have hkept : ∀ (k' : Nat) (x : Execution), w.executions[k']? = some x → x.status.terminal = true →
      (w.set_status k status).executions[k']? = some x := by
    intro k' x hx hended
    refine (List.getElem?_modify_ne _ _ ?_).trans hx
    rintro rfl
    rw [hlive x hx] at hended
    cases hended
  have hphase : ∀ u phase, Function.update hs t
    (if status.terminal = true then .ended k status else hs t) u = phase →
      status.terminal = true ∧ hs t = .found k ∧ phase = .ended k status ∨ hs u = phase := by
    intro u phase hu
    by_cases hended : status.terminal = true
    · rw [if_pos hended] at hu
      obtain hc | hu := phase_of_update hu
      · exact Or.inl ⟨hended, hfound hended, hc.symm⟩
      · exact Or.inr hu
    · rw [if_neg hended, Function.update_eq_self] at hu
      exact Or.inr hu
  constructor
  · rw [hlength]
    exact h.older
  · intro k' y hk' hy
    have hy := (List.getElem?_modify _ _ _ _).symm.trans hy
    obtain ⟨x, hx, rfl⟩ := Option.map_eq_some_iff.mp hy
    split
    · exact haborted
    · exact h.uninterrupted k' x hk' hx
  · intro hexecuting
    obtain ⟨k', hk', hkran⟩ := h.executing hexecuting
    exact ⟨k', hk', hran k' hkran⟩
  · intro hdone
    obtain ⟨k', x, hk', hx, hsuccess⟩ := h.done hdone
    exact ⟨k', x, hk', hkept k' x hx (by rw [hsuccess]; rfl), hsuccess⟩
  · intro u k' hu
    obtain ⟨-, -, hc⟩ | hu := hphase u _ hu
    · cases hc
    · exact hran k' (h.created u k' hu)
  · intro u hu
    obtain ⟨-, -, hc⟩ | hu := hphase u _ hu
    · cases hc
    · obtain ⟨k', hk', hkran⟩ := h.stored u hu
      exact ⟨k', hk', hran k' hkran⟩
  · intro u k' hu
    rw [hlength]
    obtain ⟨-, -, hc⟩ | hu := hphase u _ hu
    · cases hc
    · exact h.found u k' hu
  · intro u k' status' hu
    obtain ⟨hended, ht, hc⟩ | hu := hphase u _ hu
    · obtain ⟨rfl, rfl⟩ := Phase.ended.inj hc
      have hx := List.getElem?_eq_getElem (h.found t k' ht)
      exact ⟨_, set_status_getElem? hx, rfl, hended⟩
    · obtain ⟨x, hx, hstatus, hended⟩ := h.ended u k' status' hu
      exact ⟨x, hkept k' x hx (hstatus ▸ hended), hstatus, hended⟩

/-- The approvals that execution `k` belongs to follow it. -/
theorem update_executing (h : Tracks n w a hs) (ht : hs t = .ended k status) :
    Tracks n w (if a.ops_execution = some k ∧
      a.status = .executing then { a with status := outcome status } else a) hs := by
  split
  · rename_i hexecuted
    obtain ⟨x, hx, hstatus, -⟩ := h.ended t k status ht
    refine ⟨h.older, h.uninterrupted, ?_, ?_, h.created, h.stored, h.found, h.ended⟩
    · intro hc
      unfold outcome at hc
      dsimp only at hc
      split at hc <;> cases hc
    · intro hdone
      unfold outcome at hdone
      dsimp only at hdone
      split at hdone
      · rename_i hsuccess
        exact ⟨k, x, hexecuted.1, hx, hstatus.trans hsuccess⟩
      · cases hdone
  · exact h

/-- A request saves the approval. -/
theorem save {row : Approval} {update_fields : List Field} (h : Tracks n w a hs)
    (hallowed : (rules i).allowed (hs t) (.request (.save_approval i row update_fields))) :
    Tracks n w (a.save row update_fields)
      (Function.update hs t (if Field.ops_execution ∈ update_fields then .stored else hs t)) := by
  have hallowed := hallowed.2
  have hstatus : (a.save row update_fields).status = _ := Approval.status_save
  have hops : (a.save row update_fields).ops_execution = _ := Approval.ops_execution_save
  by_cases hfield : Field.ops_execution ∈ update_fields
  · rw [if_pos hfield] at hallowed hops ⊢
    obtain ⟨hfield', k, hk, hrow, hexecuting⟩ := hallowed
    rw [if_pos hfield', hexecuting] at hstatus
    rw [hrow] at hops
    have hran := h.created t k hk
    refine ⟨h.older, h.uninterrupted, ?_, ?_, ?_, ?_, ?_, ?_⟩
    · exact fun _ => ⟨k, hops, hran⟩
    · rw [hstatus]
      nofun
    · intro u k' hu
      obtain hc | hu := phase_of_update hu
      · cases hc
      · exact h.created u k' hu
    · exact fun _ _ => ⟨k, hops, hran⟩
    · intro u k' hu
      obtain hc | hu := phase_of_update hu
      · cases hc
      · exact h.found u k' hu
    · intro u k' status hu
      obtain hc | hu := phase_of_update hu
      · cases hc
      · exact h.ended u k' status hu
  · rw [if_neg hfield] at hallowed hops ⊢
    rw [Function.update_eq_self]
    by_cases hfield' : Field.status ∈ update_fields
    · obtain ⟨hundone, hstored⟩ := hallowed hfield'
      rw [if_pos hfield'] at hstatus
      refine ⟨h.older, h.uninterrupted, ?_, ?_, h.created, ?_, h.found, h.ended⟩
      · rw [hstatus, hops]
        exact fun hexecuting => h.stored t (hstored hexecuting)
      · rw [hstatus]
        exact fun hc => absurd hc hundone
      · rw [hops]
        exact h.stored
    · rw [if_neg hfield'] at hstatus
      exact h.noted hstatus hops

/-- Tracking depends on the executions only. -/
theorem congr {w' : World} (h : Tracks n w a hs) (hsame : w'.executions = w.executions) :
    Tracks n w' a hs := by
  obtain ⟨older, uninterrupted, executing, done, created, stored, found, ended⟩ := h
  simp only [World.Ran] at executing created stored
  constructor <;> simpa only [World.Ran, hsame]

end Tracks

/-- The stored approval is tracked. -/
def Tracked (i n : Nat) (w : World) (hs : Nat → Phase) : Prop :=
  ∃ a, w.approvals[i]? = some a ∧ Tracks n w a hs

/-- Whatever the rules allow keeps the approval tracked, as long as no execution is interrupted. -/
theorem tracked_perform {hs : Nat → Phase} {c : Access} {answer : c.Answer} {phase : Phase}
    (h : Tracked i n w hs) (hlive : ∀ k status, c = .request (.set_execution_status k status) →
      status ≠ .ABORTED ∧ ∀ x, w.executions[k]? = some x → x.status.terminal = false)
    (hallowed : (rules i).allowed (hs t) c) (hexec : perform t c w = some (answer, w'))
    (hnext : (rules i).next (hs t) c answer phase) :
    Tracked i n w' (Function.update hs t phase) := by
  obtain ⟨rfl, rfl⟩ := Prod.mk.inj (Option.some.inj hexec)
  obtain ⟨a, ha, htracks⟩ := h
  cases c with
  | request c =>
    cases c with
    | count_live =>
      obtain rfl : phase = _ := hnext
      exact ⟨a, ha, by rwa [Function.update_eq_self]⟩
    | get_approval j =>
      obtain rfl : phase = _ := hnext
      exact ⟨a, ha, by rwa [Function.update_eq_self]⟩
    | create_execution x =>
      obtain rfl : phase = _ := hnext
      exact ⟨a, ha, htracks.create hallowed⟩
    | set_execution_status k status =>
      obtain rfl : phase = _ := hnext
      obtain ⟨haborted, hlive⟩ := hlive k status rfl
      exact ⟨a, ha, htracks.set_status haborted hlive hallowed⟩
    | create_approval row => exact absurd hallowed id
    | save_approval j row update_fields =>
      obtain rfl : j = i := hallowed.1
      obtain rfl : phase = _ := hnext
      have hstored : (w.modify_approval j (·.save row update_fields)).approvals[j]? =
          some (a.save row update_fields) := by
        rw [World.modify_approval_eq_put _ ha]
        exact World.put_getElem? ha
      exact ⟨_, hstored, (htracks.save hallowed).congr rfl⟩
  | get_execution k =>
    change Tracked i n w _
    cases hx : w.executions[k]? with
    | none =>
      have hnext : (rules i).next (hs t) (.get_execution k) w.executions[k]? phase := hnext
      rw [hx] at hnext
      obtain rfl : phase = _ := hnext
      exact ⟨a, ha, by rwa [Function.update_eq_self]⟩
    | some x =>
      have hnext : (rules i).next (hs t) (.get_execution k) w.executions[k]? phase := hnext
      rw [hx] at hnext
      obtain rfl : phase = _ := hnext
      exact ⟨a, ha, htracks.find (List.getElem?_eq_some_iff.mp hx).1⟩
  | find_batch batch_id =>
    obtain rfl : phase = _ := hnext
    exact ⟨a, ha, by rwa [Function.update_eq_self]⟩
  | executing_exists k =>
    obtain rfl : phase = _ := hnext
    exact ⟨a, ha, by rwa [Function.update_eq_self]⟩
  | update_executing k status =>
    obtain rfl : phase = _ := hnext
    obtain ⟨es, ht, rfl⟩ := hallowed
    rw [Function.update_eq_self]
    exact ⟨_, (List.getElem?_map ..).trans (congrArg _ ha), (htracks.update_executing ht).congr rfl⟩
  | stale_approvals => exact absurd hallowed id
  | update_status j status => exact absurd hallowed id

section auto_sync

/-- What the automatic sync makes of one stale approval. -/
def World.sync_stale (w : World) (entry : Nat × OpsStatus) : World :=
  if entry.2 = .SUCCESS ∨ entry.2 = .FAILED then
    w.modify_approval entry.1 ({ · with status := outcome entry.2 })
  else w

/-- The repair goes over the approvals whose execution has ended. -/
theorem after_auto_sync : w.afterJob _auto_sync_stale_approvals =
    (w.approvals.zipIdx.filterMap w.stale).foldl World.sync_stale w := by
  have hbody : ∀ (entry : Nat × OpsStatus) (w : World), ∃ b, Thread.complete World.perform
      (if entry.2 = .SUCCESS ∨ entry.2 = .FAILED then update_status entry.1 (outcome entry.2)
      else pure ()) w =
        (.ok b, w.sync_stale entry) := by
    intro entry w
    unfold World.sync_stale
    split
    · exact ⟨(), rfl⟩
    · exact ⟨(), rfl⟩
  obtain ⟨bs, hbs⟩ := complete_forEach World.perform hbody (w.approvals.zipIdx.filterMap w.stale) w
  unfold World.afterJob _auto_sync_stale_approvals
  change (Thread.complete World.perform
    ((forEach _ (w.approvals.zipIdx.filterMap w.stale)) >>= _ : Job Unit) w).2 = _
  rw [complete_bind, hbs]
  rfl

variable {entries : List (Nat × OpsStatus)}

/-- It changes no execution. -/
theorem executions_sync : (entries.foldl World.sync_stale w).executions = w.executions := by
  induction entries generalizing w with
  | nil => rfl
  | cons entry rest ih =>
    rw [List.foldl_cons, ih]
    unfold World.sync_stale
    split <;> rfl

/-- An approval changes with an entry for an ended execution, and only then. -/
theorem approval_sync (entries : List (Nat × OpsStatus)) (ha : w.approvals[i]? = some a) :
    ∃ a', (entries.foldl World.sync_stale w).approvals[i]? = some a' ∧
    (a' = a ∧ (∀ status, (i, status) ∈ entries → ¬(status = .SUCCESS ∨ status = .FAILED)) ∨
      ∃ status, (i, status) ∈ entries ∧ (status = .SUCCESS ∨ status = .FAILED) ∧
        a' = { a with status := outcome status }) := by
  induction entries generalizing w a with
  | nil => exact ⟨a, ha, Or.inl ⟨rfl, fun _ => nofun⟩⟩
  | cons entry rest ih =>
    rw [List.foldl_cons]
    by_cases hentry : entry.1 = i ∧ (entry.2 = .SUCCESS ∨ entry.2 = .FAILED)
    · obtain ⟨rfl, hended⟩ := hentry
      have hsynced : (w.sync_stale entry).approvals[entry.1]? =
          some { a with status := outcome entry.2 } := by
        unfold World.sync_stale
        rw [if_pos hended, World.modify_approval_eq_put _ ha]
        exact World.put_getElem? ha
      obtain ⟨a', ha', hcase⟩ := ih hsynced
      refine ⟨a', ha', Or.inr ?_⟩
      obtain ⟨rfl, -⟩ | ⟨status, hmem, hstatus, rfl⟩ := hcase
      · exact ⟨entry.2, List.mem_cons_self, hended, rfl⟩
      · exact ⟨status, List.mem_cons_of_mem _ hmem, hstatus, rfl⟩
    · have hkept : (w.sync_stale entry).approvals[i]? = some a := by
        unfold World.sync_stale
        split
        · rename_i hended
          refine (List.getElem?_modify_ne _ _ fun hc => hentry ⟨hc, hended⟩).trans ha
        · exact ha
      obtain ⟨a', ha', hcase⟩ := ih hkept
      refine ⟨a', ha', ?_⟩
      obtain ⟨rfl, hnone⟩ | ⟨status, hmem, hstatus, rfl⟩ := hcase
      · refine Or.inl ⟨rfl, fun status hmem hended => ?_⟩
        obtain rfl | hmem := List.mem_cons.mp hmem
        · exact hentry ⟨rfl, hended⟩
        · exact hnone status hmem hended
      · exact Or.inr ⟨status, List.mem_cons_of_mem _ hmem, hstatus, rfl⟩

/-- An approval is repaired when it is executing and its execution says otherwise. -/
theorem mem_stale {status : OpsStatus} (ha : w.approvals[i]? = some a) :
    (i, status) ∈ w.approvals.zipIdx.filterMap w.stale ↔
      a.status = .executing ∧ ∃ k x, a.ops_execution = some k ∧ w.executions[k]? = some x ∧
        x.status = status := by
  rw [List.mem_filterMap]
  unfold World.stale
  constructor
  · rintro ⟨⟨b, j⟩, hmem, hentry⟩
    split at hentry
    · rename_i hexecuting
      obtain ⟨x, hfound, heq⟩ := Option.map_eq_some_iff.mp hentry
      obtain ⟨k, hk, hx⟩ := Option.bind_eq_some_iff.mp hfound
      obtain ⟨rfl, rfl⟩ := Prod.mk.inj heq
      obtain rfl := Option.some.inj (ha.symm.trans (List.mk_mem_zipIdx_iff_getElem?.mp hmem))
      exact ⟨hexecuting, k, x, hk, hx, rfl⟩
    · cases hentry
  · rintro ⟨hexecuting, k, x, hk, hx, rfl⟩
    refine ⟨(a, i), List.mk_mem_zipIdx_iff_getElem?.mpr ha, ?_⟩
    rw [if_pos hexecuting, hk]
    exact congrArg (Option.map _) hx

/-- After the automatic sync a tracked approval follows its execution. -/
theorem followed_of_tracked {hs : Nat → Phase} (h : Tracked i n w hs) :
    Followed i (w.afterJob _auto_sync_stale_approvals) := by
  obtain ⟨a, ha, htracks⟩ := h
  rw [after_auto_sync]
  obtain ⟨a', ha', hcase⟩ := approval_sync (w.approvals.zipIdx.filterMap w.stale) ha
  intro b hb
  obtain rfl := Option.some.inj (ha'.symm.trans hb)
  rw [executions_sync]
  obtain ⟨rfl, hnone⟩ | ⟨status, hmem, hended, rfl⟩ := hcase
  · refine ⟨fun hexecuting k x hk hx => ?_, htracks.done⟩
    obtain ⟨k', hk', hran⟩ := htracks.executing hexecuting
    obtain rfl := Option.some.inj (hk.symm.trans hk')
    have haborted := htracks.uninterrupted k x hran.1 hx
    have hopen := hnone x.status ((mem_stale ha).mpr ⟨hexecuting, k, x, hk, hx, rfl⟩)
    cases hstatus : x.status with
    | SUCCESS => exact absurd (Or.inl hstatus) hopen
    | FAILED => exact absurd (Or.inr hstatus) hopen
    | ABORTED => exact absurd hstatus haborted
    | _ => rfl
  · obtain ⟨-, k, x, hk, hx, rfl⟩ := (mem_stale ha).mp hmem
    constructor
    · intro hc
      unfold outcome at hc
      dsimp only at hc
      split at hc <;> cases hc
    · intro hdone
      unfold outcome at hdone
      dsimp only at hdone
      split at hdone
      · exact ⟨k, x, hk, hx, ‹_›⟩
      · cases hdone

end auto_sync

/-- In every run in which no execution is interrupted, and none is run again after its end, an
approval that was pending follows its execution after one more automatic sync. -/
theorem outcome_followed {parties : List Party} {s : Processes} (ha : w.approvals[i]? = some a)
    (hpending : a.status = .pending) (hparties : ∀ party ∈ parties, party.On i)
    (hrun : Runs (Threads.step perform) Uninterrupted (running w parties) s) :
    Followed i (s.shared.afterJob _auto_sync_stale_approvals) := by
  have hstart : Threads.ObeyingTo (rules i) (fun _ _ _ => True) (Tracked i w.executions.length)
      (running w parties) := by
    refine ⟨fun _ => .idle, ⟨a, ha, ?_⟩, ?_⟩
    · refine ⟨Nat.le_refl _, ?_, ?_, ?_, fun _ _ => nofun, fun _ => nofun, fun _ _ => nofun,
        fun _ _ _ => nofun⟩
      · intro k x hk hx
        have := (List.getElem?_eq_some_iff.mp hx).1
        change k < w.executions.length at this
        omega
      · rw [hpending]
        nofun
      · rw [hpending]
        nofun
    · intro t job hjob
      have hjob : (parties.map Party.job)[t]? = some job := hjob
      rw [List.getElem?_map] at hjob
      obtain ⟨party, hparty, rfl⟩ := Option.map_eq_some_iff.mp hjob
      exact (abides_job (hparties party (List.mem_of_getElem? hparty)) .idle trivial).mono
        fun _ _ _ => trivial
  have hobeying := Threads.obeyingTo_of_runs ?_ hrun hstart
  · obtain ⟨hs, htracked, -⟩ := hobeying
    exact followed_of_tracked htracked
  · intro s t hs c answer w' huninterrupted htracked hcurrent hallowed hexec
    refine ⟨trivial, fun phase hnext => ?_⟩
    refine tracked_perform htracked ?_ hallowed hexec hnext
    rintro k status rfl
    exact huninterrupted.spares hcurrent

/-! Alice's command is approved by Bob and run; its executor may be lost. -/

def restart : World := World.next {} (.execute_command from_alice
  { host_id := "1", command := "systemctl restart web", need_audit := true, approver_ids := [2] })

def restart_parties : List Party :=
  [.request (.approve shop 0 bob "" 0), .execute 1 false true, .orphan 1]

theorem restart_parties_on : ∀ party ∈ restart_parties, party.On 0 :=
  List.forall_mem_cons.mpr ⟨rfl, List.forall_mem_cons.mpr
    ⟨trivial, List.forall_mem_singleton.mpr trivial⟩⟩

/-- The command has ended before the request stores its last access. -/
theorem restart_done : ((exec (Threads.step perform) Uninterrupted (running restart restart_parties)
    [0, 0, 0, 0, 1, 1, 1, 0]).any fun s =>
      s.shared.approvals.map (·.status) = [.executing] ∧
        s.shared.executions.map (·.status) = [.APPROVING, .SUCCESS]) = true := by
  decide +kernel

theorem restart_followed :
    ∃ s, Runs (Threads.step perform) Uninterrupted (running restart restart_parties) s ∧
    s.shared.approvals.map (·.status) = [.executing] ∧
      s.shared.executions.map (·.status) = [.APPROVING, .SUCCESS] ∧
    Followed 0 (s.shared.afterJob _auto_sync_stale_approvals) := by
  obtain ⟨s, hrun, hs⟩ := exists_run_of_exec _ restart_done
  obtain ⟨happrovals, hexecutions⟩ := of_decide_eq_true hs
  obtain ⟨a, ha, hpending⟩ : ∃ a, restart.approvals[0]? = some a ∧
    a.status = .pending := ⟨_, rfl, rfl⟩
  exact ⟨s, hrun, happrovals, hexecutions, outcome_followed ha hpending restart_parties_on hrun⟩

theorem restart_lost :
    ((exec (Threads.step perform) (fun _ _ => True) (running restart restart_parties)
    [0, 0, 0, 0, 1, 1, 0, 2, 2]).any fun s =>
      (s.shared.afterJob _auto_sync_stale_approvals).approvals.map
        (fun a => (a.status, a.ops_execution)) = [(.executing, some 1)] ∧
        (s.shared.afterJob _auto_sync_stale_approvals).executions.map (·.status) =
          [.APPROVING, .ABORTED]) = true := by
  decide +kernel

/-- The execution is interrupted, and its approval is executing for ever. -/
theorem restart_never_followed :
    ¬∀ s, Runs (Threads.step perform) (fun _ _ => True) (running restart restart_parties) s →
      Followed 0 (s.shared.afterJob _auto_sync_stale_approvals) := by
  intro h
  obtain ⟨s, hrun, hs⟩ := exists_run_of_exec _ restart_lost
  obtain ⟨happrovals, hexecutions⟩ := of_decide_eq_true hs
  obtain ⟨a, hstored, ha⟩ := List.map_eq_singleton_iff.mp happrovals
  obtain ⟨hexecuting, hops⟩ := Prod.mk.inj ha
  have hlast := congrArg (·[1]?) hexecutions
  rw [List.getElem?_map] at hlast
  obtain ⟨x, hx, haborted⟩ := Option.map_eq_some_iff.mp hlast
  have hrunning := (h s hrun a (by rw [hstored]; rfl)).1 hexecuting 1 x hops hx
  rw [haborted] at hrunning
  cases hrunning

end taurus.ops_approval
