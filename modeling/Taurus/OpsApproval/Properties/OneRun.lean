import Taurus.OpsApproval.Concurrent
import Taurus.OpsApproval.Events

namespace taurus.ops_approval

open taurus.lib taurus.lib.transition taurus.engine taurus.ops
open taurus.approval (User)

variable {w : World} {i j t u : Nat} {a : Approval} {c : Statement} {log : List (Nat × Statement)}
  {hs : Nat → Stage}

/-- The approval was refused or withdrawn. -/
def ApprovalStatus.Refused (status : ApprovalStatus) : Prop :=
  status = .rejected ∨ status = .cancelled

def creations (log : List (Nat × Statement)) : Nat := log.countP (·.2.creates)

/-- Requests that are handled at the same time. -/
abbrev Contention : Type := Threads Database Statement Statement.Answer Error

def contending (w : World) (calls : List Call) : Contention where
  shared := { world := w }
  threads := calls.map Call.thread

/-- No request starts an execution for approval `i` or stores its status after another request has
done so since it read the approval, and none reads it between the start of an execution by
another request and the storing of the status. -/
def Serialized (i : Nat) (s : Contention) (t : Nat) : Prop :=
  ∀ c, s.current t = some c → (accesses i).SavesFresh t c s.shared.log ∧
    ((accesses i).reads c () = true →
    ∀ entry ∈ s.shared.log, launching i entry.1 s.shared.log = false)

/-- What links the stored approval with the executed accesses: at most one execution was started,
a pending approval has one only while its request goes on, and a request that is up to date has
seen what is stored. -/
structure Sound (i : Nat) (a : Approval) (log : List (Nat × Statement))
    (hs : Nat → Stage) : Prop where
  once : creations log ≤ 1
  running : a.status = .pending → ∀ entry ∈ log, entry.2.creates = true →
    launching i entry.1 log = true
  reviewed : ∀ t, hs t = .reviewed → (accesses i).fresh t () log = true →
    a.status = .pending ∧ creations log = 0
  launched : ∀ t, hs t = .launched → (accesses i).fresh t () log = true → ¬a.status.Refused

def Consistent (i : Nat) (d : Database) (hs : Nat → Stage) : Prop :=
  ∃ a, d.world.approvals[i]? = some a ∧ Sound i a d.log hs

/-- Whether a request is launching, after one more access of its own. -/
theorem launching_cons_self :
    launching i t ((t, c) :: log) = (c.creates || (!c.settles i && launching i t log)) := by
  rw [launching, if_pos rfl]

/-- Accesses of the others do not count. -/
theorem launching_cons_other (h : u ≠ t) : launching i t ((u, c) :: log) = launching i t log := by
  rw [launching, if_neg h]

/-- An access that neither starts an execution nor stores the status changes nothing here. -/
theorem launching_cons_idle (hcreates : c.creates = false) (hsettles : c.settles i = false) :
    launching i t ((u, c) :: log) = launching i t log := by
  by_cases h : u = t
  · subst h
    rw [launching_cons_self, hcreates, hsettles]
    rfl
  · exact launching_cons_other h

/-- An access creates one execution at most. -/
theorem creations_cons :
    creations ((t, c) :: log) = creations log + if c.creates = true then 1 else 0 :=
  List.countP_cons

/-- No access of a log without creations creates one. -/
theorem creations_eq_zero : creations log = 0 ↔ ∀ entry ∈ log, entry.2.creates = false := by
  unfold creations
  rw [List.countP_eq_zero]
  simp

namespace Sound

/-- An access that decides nothing, of a request whose stage stays. -/
theorem idle {a' : Approval} (h : Sound i a log hs) (hcreates : c.creates = false)
    (hsettles : c.settles i = false) (hreads : (accesses i).reads c () = false)
    (hstatus : a'.status = a.status) :
    Sound i a' ((t, c) :: log) (Function.update hs t (hs t)) := by
  rw [Function.update_eq_self]
  constructor
  · rw [creations_cons, hcreates]
    exact h.once
  · intro hpending entry hentry hcreate
    rw [hstatus] at hpending
    rw [launching_cons_idle hcreates hsettles]
    obtain rfl | hentry := List.mem_cons.mp hentry
    · rw [hcreates] at hcreate
      cases hcreate
    · exact h.running hpending entry hentry hcreate
  · intro u hu hfresh
    rw [hstatus, creations_cons, hcreates]
    exact h.reviewed u hu ((accesses i).fresh_of_cons hreads hfresh)
  · intro u hu hfresh
    rw [hstatus]
    exact h.launched u hu ((accesses i).fresh_of_cons hreads hfresh)

/-- The request reads the approval. -/
theorem read (h : Sound i a log hs) (hidle : ∀ entry ∈ log, launching i entry.1 log = false)
    (hreads : c = .get_approval i) :
    Sound i a ((t, c) :: log) (Function.update hs t (.of_row (some a))) := by
  subst hreads
  constructor
  · exact h.once
  · intro hpending entry hentry hcreate
    rw [launching_cons_idle rfl rfl]
    obtain rfl | hentry := List.mem_cons.mp hentry
    · cases hcreate
    · exact h.running hpending entry hentry hcreate
  · intro u hu hfresh
    by_cases ht : u = t
    · subst ht
      rw [Function.update_self] at hu
      unfold Stage.of_row at hu
      split at hu
      · have hpending : a.status = .pending := of_decide_eq_true ‹_›
        refine ⟨hpending, creations_eq_zero.mpr fun entry hentry => ?_⟩
        obtain rfl | hentry := List.mem_cons.mp hentry
        · rfl
        · by_contra hcreate
          have hlaunching := h.running hpending entry hentry (by simpa using hcreate)
          rw [hidle entry hentry] at hlaunching
          cases hlaunching
      · cases hu
    · rw [Function.update_of_ne ht] at hu
      rw [(accesses i).fresh_cons_other (Ne.symm ht)] at hfresh
      exact h.reviewed u hu hfresh
  · intro u hu hfresh
    by_cases ht : u = t
    · subst ht
      rw [Function.update_self] at hu
      unfold Stage.of_row at hu
      split at hu <;> cases hu
    · rw [Function.update_of_ne ht] at hu
      rw [(accesses i).fresh_cons_other (Ne.symm ht)] at hfresh
      exact h.launched u hu hfresh

/-- A reviewed approval gets its execution. -/
theorem create {x : Execution} (h : Sound i a log hs) (ht : hs t = .reviewed)
    (hfresh : (accesses i).fresh t () log = true) :
    Sound i a ((t, .create_execution x) :: log) (Function.update hs t .launched) := by
  obtain ⟨hpending, hnone⟩ := h.reviewed t ht hfresh
  have hself : ∀ u, (accesses i).fresh u () ((t, .create_execution x) :: log) = true → u = t :=
    fun u hu => ((accesses i).eq_of_fresh_saved rfl hu).symm
  constructor
  · rw [creations_cons, hnone]
    exact Nat.le_refl 1
  · intro _ entry hentry hcreate
    obtain rfl | hentry := List.mem_cons.mp hentry
    · rw [launching_cons_self]
      rfl
    · rw [creations_eq_zero.mp hnone entry hentry] at hcreate
      cases hcreate
  · intro u hu hfresh
    obtain rfl := hself u hfresh
    rw [Function.update_self] at hu
    cases hu
  · intro u hu hfresh hrefused
    rw [hpending] at hrefused
    rcases hrefused with hc | hc <;> cases hc

/-- The status is stored, by a request that is up to date. -/
theorem settle {a' : Approval} {stage : Stage} (h : Sound i a log hs)
    (hsettles : c.settles i = true) (hcreates : c.creates = false) (hstatus : a'.status ≠ .pending)
    (hstage : stage = .idle ∨ stage = .launched ∧ ¬a'.status.Refused) :
    Sound i a' ((t, c) :: log) (Function.update hs t stage) := by
  have hself : ∀ u, (accesses i).fresh u () ((t, c) :: log) = true → u = t := by
    intro u hu
    refine ((accesses i).eq_of_fresh_saved ?_ hu).symm
    change (c.creates || c.settles i) = true
    rw [hsettles, Bool.or_true]
  constructor
  · rw [creations_cons, hcreates]
    exact h.once
  · exact fun hpending => absurd hpending hstatus
  · intro u hu hfresh
    obtain rfl := hself u hfresh
    rw [Function.update_self] at hu
    rcases hstage with rfl | ⟨rfl, -⟩ <;> cases hu
  · intro u hu hfresh
    obtain rfl := hself u hfresh
    rw [Function.update_self] at hu
    obtain rfl | ⟨-, hallowed⟩ := hstage
    · cases hu
    · exact hallowed

end Sound

/-- Whatever the discipline allows to a request that is up to date keeps everything sound, and
leaves a refused approval as it is. -/
theorem sound_exec {d d' : Database} {answer : c.Answer} (ha : d.world.approvals[i]? = some a)
    (h : Sound i a d.log hs) (hfresh : (accesses i).SavesFresh t c d.log)
    (hidle : (accesses i).reads c () = true → ∀ entry ∈ d.log, launching i entry.1 d.log = false)
    (hallowed : (discipline i).allowed (hs t) c) (hexec : d.exec t c = some (answer, d'))
    {stage : Stage} (hnext : (discipline i).next (hs t) c answer stage) :
    ∃ a', d'.world.approvals[i]? = some a' ∧ Sound i a' d'.log (Function.update hs t stage) ∧
      (a.status.Refused → a'.status = a.status ∧ creations d'.log = creations d.log) := by
  obtain ⟨rfl, rfl⟩ := Prod.mk.inj (Option.some.inj hexec)
  cases c with
  | count_live =>
    obtain rfl : stage = _ := hnext
    exact ⟨a, ha, h.idle rfl rfl rfl rfl, fun _ => ⟨rfl, rfl⟩⟩
  | set_execution_status k status =>
    obtain rfl : stage = _ := hnext
    exact ⟨a, ha, h.idle rfl rfl rfl rfl, fun _ => ⟨rfl, rfl⟩⟩
  | get_approval j =>
    obtain rfl : j = i := hallowed
    obtain rfl : stage = .of_row d.world.approvals[j]? := hnext
    rw [ha]
    exact ⟨a, ha, h.read (hidle (decide_eq_true rfl)) rfl, fun _ => ⟨rfl, rfl⟩⟩
  | create_execution x =>
    obtain rfl : stage = .launched := hnext
    have hup : (accesses i).fresh t () d.log = true := hfresh () rfl
    refine ⟨a, ha, h.create hallowed hup, fun hrefused => ?_⟩
    rw [(h.reviewed t hallowed hup).1] at hrefused
    rcases hrefused with hc | hc <;> cases hc
  | save_approval j row update_fields =>
    obtain ⟨rfl, hsaves⟩ := hallowed
    obtain rfl : stage = _ := hnext
    have hstored : (d.world.modify_approval j (·.save row update_fields)).approvals[j]? =
        some (a.save row update_fields) := by
      rw [World.modify_approval_eq_put _ ha]
      exact World.put_getElem? ha
    refine ⟨_, hstored, ?_⟩
    by_cases hstatus : Field.status ∈ update_fields
    · have hsettles : (Statement.save_approval j row update_fields).settles j = true := by
        simp [Statement.settles, hstatus]
      have hup : (accesses j).fresh t () d.log = true := by
        apply hfresh ()
        change ((Statement.save_approval j row update_fields).creates ||
          (Statement.save_approval j row update_fields).settles j) = true
        rw [hsettles, Bool.or_true]
      have hnew : (a.save row update_fields).status = row.status :=
        Approval.status_save.trans (if_pos hstatus)
      obtain ⟨ht, hdecided⟩ | ⟨ht, hexecuting⟩ := hsaves hstatus
      · have hpending := (h.reviewed t ht hup).1
        rw [if_pos ⟨hstatus, ht⟩]
        refine ⟨h.settle hsettles rfl ?_ (Or.inl rfl), fun hrefused => ?_⟩
        · rw [hnew]
          rcases hdecided with hc | hc | hc <;> rw [hc] <;> nofun
        · rw [hpending] at hrefused
          rcases hrefused with hc | hc <;> cases hc
      · have hopen := h.launched t ht hup
        rw [if_neg (by rw [ht]; rintro ⟨-, hc⟩; cases hc), ht]
        refine ⟨h.settle hsettles rfl ?_ (Or.inr ⟨rfl, ?_⟩), fun hrefused => absurd hrefused hopen⟩
        · rw [hnew, hexecuting]
          nofun
        · rw [hnew, hexecuting]
          rintro (hc | hc) <;> cases hc
    · have hsettles : (Statement.save_approval j row update_fields).settles j = false := by
        simp [Statement.settles, hstatus]
      have hsame : (a.save row update_fields).status = a.status :=
        Approval.status_save.trans (if_neg hstatus)
      rw [if_neg fun hc => hstatus hc.1]
      exact ⟨h.idle rfl hsettles rfl hsame, fun _ => ⟨hsame, rfl⟩⟩
  | create_approval row => exact absurd hallowed id

/-- The approval is refused with this status, and so many executions were started for it. -/
def Settled (i : Nat) (status : ApprovalStatus) (k : Nat) (d : Database)
    (hs : Nat → Stage) : Prop :=
  ∃ a, d.world.approvals[i]? = some a ∧ Sound i a d.log hs ∧ a.status = status ∧ creations d.log = k

abbrev Disciplined (i : Nat) (J : Database → (Nat → Stage) → Prop) (s : Contention) : Prop :=
  Threads.ObeyingTo (discipline i) (fun _ _ _ => True) J s

/-- Runs of serialized requests keep the discipline. -/
theorem disciplined_of_runs {s s' : Contention}
    (hrun : Runs (Threads.step Database.exec) (Serialized i) s s')
    (h : Disciplined i (Consistent i) s) : Disciplined i (Consistent i) s' := by
  apply Threads.obeyingTo_of_runs _ hrun h
  rintro s t hs c answer d hserialized ⟨a, ha, hsound⟩ hcurrent hallowed hexec
  obtain ⟨hfresh, hidle⟩ := hserialized c hcurrent
  refine ⟨trivial, fun stage hnext => ?_⟩
  obtain ⟨a', ha', hsound', -⟩ := sound_exec ha hsound hfresh hidle hallowed hexec hnext
  exact ⟨a', ha', hsound'⟩

/-- A refused approval stays settled along them. -/
theorem settled_of_runs {s s' : Contention} {status : ApprovalStatus} {k : Nat}
    (hrefused : status.Refused) (hrun : Runs (Threads.step Database.exec) (Serialized i) s s')
    (h : Disciplined i (Settled i status k) s) :
    Disciplined i (Settled i status k) s' := by
  apply Threads.obeyingTo_of_runs _ hrun h
  rintro s t hs c answer d hserialized ⟨a, ha, hsound, rfl, rfl⟩ hcurrent hallowed hexec
  obtain ⟨hfresh, hidle⟩ := hserialized c hcurrent
  refine ⟨trivial, fun stage hnext => ?_⟩
  obtain ⟨a', ha', hsound', hkept⟩ := sound_exec ha hsound hfresh hidle hallowed hexec hnext
  exact ⟨a', ha', hsound', hkept hrefused⟩

/-- In every interleaving of serialized requests on an approval at most one execution is started
for it, and once it is refused it stays so and no execution is started any more. -/
theorem one_run_started {calls : List Call} {s : Contention} (ha : w.approvals[i]? = some a)
    (hcalls : ∀ c ∈ calls, c.On i)
    (hrun : Runs (Threads.step Database.exec) (Serialized i) (contending w calls) s) :
    creations s.shared.log ≤ 1 ∧
      ∀ s', Runs (Threads.step Database.exec) (Serialized i) s s' →
        ∀ b, s.shared.world.approvals[i]? = some b → b.status.Refused →
          creations s'.shared.log = creations s.shared.log ∧
            ∃ b', s'.shared.world.approvals[i]? = some b' ∧ b'.status = b.status := by
  have hstart : Disciplined i (Consistent i) (contending w calls) := by
    refine ⟨fun _ => .idle, ⟨a, ha, Nat.zero_le 1, fun _ _ => nofun, fun _ => nofun,
      fun _ => nofun⟩, ?_⟩
    intro t session hsession
    have hsession : (calls.map Call.thread)[t]? = some session := hsession
    rw [List.getElem?_map] at hsession
    obtain ⟨c, hc, rfl⟩ := Option.map_eq_some_iff.mp hsession
    exact ((usage i c.site).keeps_thread (hcalls c (List.mem_of_getElem? hc)) .idle trivial).mono
      fun _ _ _ => trivial
  have hdisciplined := disciplined_of_runs hrun hstart
  obtain ⟨hs, ⟨b, hb, hsound⟩, hobeys⟩ := hdisciplined
  refine ⟨hsound.once, fun s' hrun' c hc hrefused => ?_⟩
  obtain rfl := Option.some.inj (hb.symm.trans hc)
  obtain ⟨hs', ⟨b', hb', -, hstatus, hcount⟩, -⟩ :=
    settled_of_runs hrefused hrun' ⟨hs, ⟨b, hb, hsound, rfl, rfl⟩, hobeys⟩
  exact ⟨hcount, b', hb', hstatus⟩

instance decidableSavesFresh : Decidable ((accesses i).SavesFresh t c log) :=
  decidable_of_iff ((accesses i).saves c () = true → (accesses i).fresh t () log = true)
    ⟨fun h _ => h, fun h => h ()⟩

instance decidableSerialized (i : Nat) (s : Contention) (t : Nat) : Decidable (Serialized i s t) :=
  match hcurrent : s.current t with
  | none => isTrue fun c hc => by rw [hcurrent] at hc; cases hc
  | some c => decidable_of_iff ((accesses i).SavesFresh t c s.shared.log ∧
      ((accesses i).reads c () = true → ∀ entry ∈ s.shared.log,
      launching i entry.1 s.shared.log = false))
      ⟨fun h c' hc => by rw [hcurrent] at hc; exact Option.some.inj hc ▸ h, fun h => h c hcurrent⟩

/-! Alice submits a script, and Bob or Carol may approve it. -/

def carol : User := { id := 3, username := "carol", name := "Carol" }

def larger_shop : Site := { shop with users := [alice, bob, carol] }

def dump : ScriptRequest :=
  { host_id := "1", script_type := "sh", script_content := "dump.sh", approver_ids := [2, 3] }

def dump_submitted : World :=
  World.next {} (.submit_script_approval { from_alice with site := larger_shop } dump)

def both_approve : List Call := [.approve larger_shop 0 bob "" 0, .approve larger_shop 0 carol "" 0]

theorem both_approve_on : ∀ c ∈ both_approve, c.On 0 :=
  List.forall_mem_cons.mpr ⟨rfl, List.forall_mem_singleton.mpr rfl⟩

theorem bob_then_carol :
    ((exec (Threads.step Database.exec) (Serialized 0) (contending dump_submitted both_approve)
    [0, 0, 0, 0, 0, 1]).any fun s => creations s.shared.log = 1) = true := by decide +kernel

theorem dump_started_once : ∃ a s, dump_submitted.approvals[0]? = some a ∧
    Runs (Threads.step Database.exec) (Serialized 0) (contending dump_submitted both_approve) s ∧
    creations s.shared.log = 1 ∧ creations s.shared.log ≤ 1 := by
  obtain ⟨s, hrun, hs⟩ := exists_run_of_exec _ bob_then_carol
  obtain ⟨a, ha⟩ : ∃ a, dump_submitted.approvals[0]? = some a := ⟨_, rfl⟩
  exact ⟨a, s, ha, hrun, of_decide_eq_true hs, (one_run_started ha both_approve_on hrun).1⟩

theorem bob_and_carol : ((exec (Threads.step Database.exec) (fun _ _ => True)
    (contending dump_submitted both_approve) [0, 1, 0, 0, 1, 1, 1, 1, 0, 0]).any fun s =>
      creations s.shared.log = 2) = true := by decide +kernel

/-- Both read the pending approval, and each of them starts the dump. -/
theorem dump_started_twice :
    ¬∀ s, Runs (Threads.step Database.exec) (fun _ _ => True)
      (contending dump_submitted both_approve) s →
      creations s.shared.log ≤ 1 := by
  intro h
  obtain ⟨s, hrun, hs⟩ := exists_run_of_exec _ bob_and_carol
  have htwo : creations s.shared.log = 2 := of_decide_eq_true hs
  have hone := h s hrun
  omega

end taurus.ops_approval
