import Taurus.Approval.Concurrent
import Taurus.Approval.Progress

namespace taurus.approval

open taurus.lib taurus.lib.transition taurus.python taurus.engine

variable {e : Engine} {w : World} {i j t : Nat} {a : Approval} {n : NodeExecution} {row : Instance}
  {c : Statement}
  {log : List (Nat × Statement)} {h : Held} {hs : Nat → Held}

theorem NodeExecution.keeps_refl : n.Keeps n := ⟨rfl, fun _ _ hr => hr⟩

namespace Approval

/-- What a node with a key of its own is. -/
def KeysUnique (a : Approval) : Prop := ∀ m ∈ a.nodes, ∀ n ∈ a.nodes, m.id = n.id → m = n

/-- Laid-out nodes have different ids. -/
theorem Laid.keysUnique (h : a.Laid) : a.KeysUnique := by
  intro m hm n hn hid
  obtain ⟨k, hk⟩ := List.mem_iff_getElem?.mp hm
  obtain ⟨l, hl⟩ := List.mem_iff_getElem?.mp hn
  rw [h.ids k m hk, h.ids l n hl] at hid
  subst hid
  exact Option.some.inj (hk.symm.trans hl)

/-- Saving replaces the node of that id and keeps the others. -/
theorem mem_save_node {m : NodeExecution} : m ∈ (a.save_node n).nodes ↔
    (m = n ∧ ∃ k ∈ a.nodes, k.id = n.id) ∨ (m ∈ a.nodes ∧ m.id ≠ n.id) := by
  unfold save_node
  simp only [List.mem_map]
  constructor
  · rintro ⟨k, hk, rfl⟩
    split
    · exact Or.inl ⟨rfl, k, hk, ‹_›⟩
    · exact Or.inr ⟨hk, ‹_›⟩
  · rintro (⟨rfl, k, hk, hid⟩ | ⟨hm, hid⟩)
    · exact ⟨k, hk, if_pos hid⟩
    · exact ⟨m, hm, if_neg hid⟩

/-- Saving keeps the ids different. -/
theorem KeysUnique.save_node (h : a.KeysUnique) : (a.save_node n).KeysUnique := by
  intro k hk m hm hid
  rcases mem_save_node.mp hk with ⟨rfl, -⟩ | ⟨hk, hkid⟩ <;>
    rcases mem_save_node.mp hm with ⟨rfl, -⟩ | ⟨hm, hmid⟩
  · rfl
  · exact absurd hid.symm hmid
  · exact absurd hid hkid
  · exact h k hk m hm hid

end Approval

/-- What a call has in memory is what is stored, as long as nobody has saved it since. What it
has saved is still there. -/
structure Held.Fits (h : Held) (i t : Nat) (a : Approval)
    (log : List (Nat × Statement)) : Prop where
  row : ∀ row, h.row = some row → accesses.fresh t (.row i) log = true → row = a.row
  nodes : ∀ nodes, h.nodes = some nodes →
    ∀ n ∈ nodes, accesses.fresh t (.node i n.id) log = true → n ∈ a.nodes
  granted : h.granted = true → a.row.status = .approved
  saved : ∀ n ∈ h.saved, (t, .save_node i n) ∈ log ∧ ∃ m ∈ a.nodes, n.Keeps m

/-- A decision that was saved is the stored one, and only an approved instance has activated
its subject. -/
structure Approval.Explains (a : Approval) (i : Nat) (log : List (Nat × Statement)) : Prop where
  keys : a.KeysUnique
  decided : ∀ t row, (t, .save_instance i row) ∈ log → row.status ≠ .pending →
    row.status = a.row.status
  activated : ∀ t subject, (t, .save_subject subject) ∈ log → subject.status = .enabled →
    a.row.status = .approved

/-- What links the stored instance, the executed statements and the memories of the calls. -/
def Consistent (i : Nat) (d : Database) (hs : Nat → Held) : Prop :=
  ∃ a, d.world.approvals[i]? = some a ∧ a.Explains i d.log ∧ ∀ t, (hs t).Fits i t a d.log

namespace Held.Fits

/-- What a request has saved stands in the log. -/
theorem saved_logged (hfits : h.Fits i t a log) (hn : n ∈ h.saved) :
    (t, .save_node i n) ∈ (j, c) :: log :=
  List.mem_cons_of_mem _ (hfits.saved n hn).1

/-- What another call only reads leaves the memory as it fits. -/
theorem other (hfits : h.Fits i t a log) (ht : j ≠ t) (hsaves : ∀ o, accesses.saves c o = false) :
    h.Fits i t a ((j, c) :: log) := by
  have hfresh : ∀ o, accesses.fresh t o ((j, c) :: log) = accesses.fresh t o log := by
    intro o
    rw [accesses.fresh_cons_other ht, hsaves, Bool.not_false, Bool.true_and]
  constructor
  · intro row hrow hf
    exact hfits.row row hrow (hfresh _ ▸ hf)
  · intro nodes hnodes n hn hf
    exact hfits.nodes nodes hnodes n hn (hfresh _ ▸ hf)
  · exact hfits.granted
  · exact fun n hn => ⟨hfits.saved_logged hn, (hfits.saved n hn).2⟩

/-- The row of a pending instance is overwritten. -/
theorem save_instance (hfits : h.Fits i t a log) (hpending : a.row.status = .pending)
    (row' : Instance) (hheld : j = t → h.row = none) :
    h.Fits i t { a with row := row' } ((j, .save_instance i row') :: log) := by
  constructor
  · intro row hrow hfresh
    have hsaves : accesses.saves (.save_instance i row') (.row i) = true := decide_eq_true rfl
    rw [hheld (accesses.eq_of_fresh_saved hsaves hfresh)] at hrow
    cases hrow
  · intro nodes hnodes n hn hfresh
    exact hfits.nodes nodes hnodes n hn (accesses.fresh_of_cons rfl hfresh)
  · intro hgranted
    have happroved := hfits.granted hgranted
    rw [hpending] at happroved
    cases happroved
  · exact fun n hn => ⟨hfits.saved_logged hn, (hfits.saved n hn).2⟩

/-- A stored node is overwritten by one that keeps its records. -/
theorem save_node {n₀ : NodeExecution} (hfits : h.Fits i t a log) (hkeys : a.KeysUnique)
    (hn₀ : n₀ ∈ a.nodes) (hkeeps : n₀.Keeps n) (hheld : j = t → h.nodes = none) :
    h.Fits i t (a.save_node n) ((j, .save_node i n) :: log) := by
  constructor
  · intro row hrow hfresh
    exact hfits.row row hrow (accesses.fresh_of_cons rfl hfresh)
  · intro nodes hnodes m hm hfresh
    apply Approval.mem_save_node.mpr
    refine Or.inr ⟨hfits.nodes nodes hnodes m hm (accesses.fresh_of_cons rfl hfresh), fun hid => ?_⟩
    have hsaves : accesses.saves (.save_node i n) (.node i m.id) = true :=
      decide_eq_true (hid ▸ rfl)
    rw [hheld (accesses.eq_of_fresh_saved hsaves hfresh)] at hnodes
    cases hnodes
  · exact hfits.granted
  · intro m hm
    obtain ⟨-, k, hk, hkept⟩ := hfits.saved m hm
    refine ⟨hfits.saved_logged hm, ?_⟩
    by_cases hid : k.id = n.id
    · obtain rfl := hkeys k hk n₀ hn₀ (hid.trans hkeeps.1)
      exact ⟨n, Approval.mem_save_node.mpr (Or.inl ⟨rfl, k, hk, hid⟩), hkept.trans hkeeps⟩
    · exact ⟨k, Approval.mem_save_node.mpr (Or.inr ⟨hk, hid⟩), hkept⟩

end Held.Fits

namespace Approval.Explains

/-- A statement other than the save of a row or of the subject changes nothing here. -/
theorem same {a' : Approval} (h : a.Explains i log) (hkeys : a'.KeysUnique)
    (hstatus : a'.row.status = a.row.status) (hrow : ∀ row, c ≠ .save_instance i row)
    (hsubject : ∀ subject, c ≠ .save_subject subject) :
    a'.Explains i ((j, c) :: log) where
  keys := hkeys
  decided t row hlogged hdecided := by
    obtain heq | hlogged := List.mem_cons.mp hlogged
    · exact absurd (Prod.mk.inj heq).2.symm (hrow row)
    · exact hstatus ▸ h.decided t row hlogged hdecided
  activated t subject hlogged henabled := by
    obtain heq | hlogged := List.mem_cons.mp hlogged
    · exact absurd (Prod.mk.inj heq).2.symm (hsubject subject)
    · exact hstatus ▸ h.activated t subject hlogged henabled

/-- Saving the row of a pending approval keeps the state explained by the log. -/
theorem save_instance (h : a.Explains i log) (hpending : a.row.status = .pending)
    (row' : Instance) :
    Explains { a with row := row' } i ((j, .save_instance i row') :: log) where
  keys := h.keys
  decided t row hlogged hdecided := by
    obtain heq | hlogged := List.mem_cons.mp hlogged
    · cases heq
      rfl
    · exact absurd ((h.decided t row hlogged hdecided).trans hpending) hdecided
  activated t subject hlogged henabled := by
    obtain heq | hlogged := List.mem_cons.mp hlogged
    · cases heq
    · have happroved := h.activated t subject hlogged henabled
      rw [hpending] at happroved
      cases happroved

theorem save_subject {subject : Subject} (h : a.Explains i log)
    (hgranted : subject.status = .enabled → a.row.status = .approved) :
    a.Explains i ((j, .save_subject subject) :: log) where
  keys := h.keys
  decided t row hlogged hdecided := by
    obtain heq | hlogged := List.mem_cons.mp hlogged
    · cases heq
    · exact h.decided t row hlogged hdecided
  activated t subject' hlogged henabled := by
    obtain heq | hlogged := List.mem_cons.mp hlogged
    · cases heq
      exact hgranted henabled
    · exact h.activated t subject' hlogged henabled

end Approval.Explains

/-- A changed approval is found in its place. -/
theorem World.modify_getElem? {change : Approval → Approval} (ha : w.approvals[i]? = some a) :
    (w.modify i change).approvals[i]? = some (change a) := by
  rw [World.modify_eq_set _ ha]
  exact List.getElem?_set_self (List.getElem?_eq_some_iff.mp ha).1

section

variable {d d' : Database}

/-- The requests stay consistent when one of them moves on and the others still fit. -/
theorem consistent_update {w' : World} {h' : Held} (ha : w'.approvals[i]? = some a)
    (hexplains : a.Explains i ((t, c) :: log)) (hself : h'.Fits i t a ((t, c) :: log))
    (hothers : ∀ u, t ≠ u → (hs u).Fits i u a ((t, c) :: log)) :
    Consistent i { world := w', log := (t, c) :: log } (Function.update hs t h') := by
  refine ⟨a, ha, hexplains, fun u => ?_⟩
  by_cases hu : u = t
  · subst hu
    rwa [Function.update_self]
  · rw [Function.update_of_ne hu]
    exact hothers u (Ne.symm hu)

/-- A memory to which a call has added nothing. -/
theorem Held.Fits.kept (hfits : h.Fits i t a log) (hreads : ∀ o, accesses.reads c o = false) :
    h.Fits i t a ((t, c) :: log) where
  row row hrow hf := hfits.row row hrow (accesses.fresh_of_cons (hreads _) hf)
  nodes nodes hnodes n hn hf := hfits.nodes nodes hnodes n hn (accesses.fresh_of_cons (hreads _) hf)
  granted := hfits.granted
  saved n hn := ⟨hfits.saved_logged hn, (hfits.saved n hn).2⟩

/-- Whatever the discipline allows keeps memories and stored objects consistent, as long as no
save overwrites what another call has saved since it was read. -/
theorem consistent_exec {answer : c.Answer} (hfresh : accesses.SavesFresh t c d.log)
    (hd : Consistent i d hs) (hallowed : (discipline i).allowed (hs t) c)
    (hexec : d.exec t c = some (answer, d')) {h' : Held}
    (hnext : (discipline i).next (hs t) c answer h') :
    Consistent i d' (Function.update hs t h') := by
  obtain ⟨a, ha, hexplains, hfits⟩ := hd
  obtain ⟨rfl, rfl⟩ := Prod.mk.inj (Option.some.inj hexec)
  cases c with
  | get_instance j =>
    obtain rfl : j = i := hallowed
    obtain rfl : h' = _ := hnext
    refine consistent_update ha ?_ ?_ fun u hu => (hfits u).other hu fun _ => rfl
    · exact hexplains.same hexplains.keys rfl (fun _ => nofun) fun _ => nofun
    · constructor
      · intro row hrow _
        have hstored : (d.world.approvals[j]?.map (·.row)) = some row := hrow
        rw [ha] at hstored
        exact (Option.some.inj hstored).symm
      · intro nodes hnodes n hn hf
        rw [accesses.fresh_cons_self] at hf
        exact (hfits t).nodes nodes hnodes n hn hf
      · exact (hfits t).granted
      · exact fun n hn => ⟨(hfits t).saved_logged hn, ((hfits t).saved n hn).2⟩
  | node_executions j =>
    obtain rfl : j = i := hallowed
    obtain rfl : h' = _ := hnext
    refine consistent_update ha ?_ ?_ fun u hu => (hfits u).other hu fun _ => rfl
    · exact hexplains.same hexplains.keys rfl (fun _ => nofun) fun _ => nofun
    · constructor
      · intro row hrow hf
        rw [accesses.fresh_cons_self] at hf
        exact (hfits t).row row hrow hf
      · intro nodes hnodes n hn _
        obtain rfl := Option.some.inj hnodes
        have hstored : n ∈ ordered ((d.world.approvals[j]?.map (·.nodes)).getD []) := hn
        rw [ha] at hstored
        exact (List.perm_insertionSort _ _).mem_iff.mp hstored
      · exact (hfits t).granted
      · exact fun n hn => ⟨(hfits t).saved_logged hn, ((hfits t).saved n hn).2⟩
  | save_node j n =>
    obtain ⟨rfl, nodes, hnodes, n₀, hn₀, hkeeps⟩ := hallowed
    obtain rfl : h' = _ := hnext
    have hstored : n₀ ∈ a.nodes :=
      (hfits t).nodes nodes hnodes n₀ hn₀ (hkeeps.1 ▸ hfresh (.node j n.id) (decide_eq_true rfl))
    refine consistent_update (World.modify_getElem? ha) ?_ ?_ fun u hu =>
      (hfits u).save_node hexplains.keys hstored hkeeps fun hc => absurd hc hu
    · exact hexplains.same hexplains.keys.save_node rfl (fun _ => nofun) fun _ => nofun
    · have hforgot : Held.Fits { hs t with nodes := none } j t a d.log :=
        ⟨(hfits t).row, nofun, (hfits t).granted, (hfits t).saved⟩
      have hsaved := hforgot.save_node (j := t) hexplains.keys hstored hkeeps fun _ => rfl
      refine ⟨hsaved.row, hsaved.nodes, hsaved.granted, fun m hm => ?_⟩
      obtain rfl | hm := List.mem_cons.mp hm
      · exact ⟨List.mem_cons_self, m,
          Approval.mem_save_node.mpr (Or.inl ⟨rfl, n₀, hstored, hkeeps.1.symm⟩),
          NodeExecution.keeps_refl⟩
      · exact hsaved.saved m hm
  | save_instance j row =>
    obtain ⟨rfl, row₀, hrow₀, hpending⟩ := hallowed
    obtain rfl : h' = _ := hnext
    obtain rfl := (hfits t).row row₀ hrow₀ (hfresh (.row j) (decide_eq_true rfl))
    refine consistent_update (World.modify_getElem? ha) ?_ ?_ fun u hu =>
      (hfits u).save_instance hpending row fun hc => absurd hc hu
    · exact hexplains.save_instance hpending row
    · have hforgot : Held.Fits { hs t with row := none, granted := false } j t a d.log :=
        ⟨nofun, (hfits t).nodes, nofun, (hfits t).saved⟩
      have hsaved := hforgot.save_instance (j := t) hpending row fun _ => rfl
      exact ⟨hsaved.row, hsaved.nodes, of_decide_eq_true, hsaved.saved⟩
  | get_subject =>
    obtain rfl : h' = _ := hnext
    refine consistent_update ha ?_ ((hfits t).kept fun _ => rfl) fun u hu =>
      (hfits u).other hu fun _ => rfl
    exact hexplains.same hexplains.keys rfl (fun _ => nofun) fun _ => nofun
  | save_subject subject =>
    obtain rfl : h' = _ := hnext
    refine consistent_update ha ?_ ((hfits t).kept fun _ => rfl) fun u hu =>
      (hfits u).other hu fun _ => rfl
    exact hexplains.save_subject fun henabled => (hfits t).granted (hallowed henabled)
  | create_instance row => exact absurd hallowed id
  | create_node j n => exact absurd hallowed id

end

/-- Calls that run at the same time on one database. -/
abbrev Contention : Type := Threads Database Statement Statement.Answer Error

def contending (e : Engine) (w : World) (calls : List Call) : Contention where
  shared := { world := w }
  threads := calls.map (Call.session e)

/-- The call does not save an instance or a node that another call has saved since it read it. -/
def Unraced (s : Contention) (t : Nat) : Prop :=
  ∀ c, s.current t = some c → accesses.SavesFresh t c s.shared.log

/-- No decision is contradicted and no record is lost. -/
structure DecisionsKept (e : Engine) (i : Nat) (calls : List Call) (s : Contention) : Prop where
  refused : (∃ t row, (t, .save_instance i row) ∈ s.shared.log ∧
    (row.status = .rejected ∨ row.status = .cancelled)) →
    (∀ a, s.shared.world.approvals[i]? = some a → a.row.status ≠ .approved) ∧
      ∀ t subject, (t, .save_subject subject) ∈ s.shared.log → subject.status ≠ .enabled
  recorded : ∀ t c f record, calls[t]? = some c → s.threads[t]? = some (.done (.ok ())) →
    c.record e = some (f, record) →
    ∃ n, (t, .save_node i n) ∈ s.shared.log ∧
      ∃ a m, s.shared.world.approvals[i]? = some a ∧ m ∈ a.nodes ∧ m.id = n.id ∧
      record ∈ m.records f

/-- In every interleaving of calls on one instance in which no call overwrites what another one
has saved since it was read, the decisions and the records are kept. -/
theorem decisions_kept {calls : List Call} {s : Contention} (hreachable : Reachable e w)
    (ha : w.approvals[i]? = some a) (hcalls : ∀ c ∈ calls, c.On i)
    (hrun : Runs (Threads.step Database.exec) Unraced (contending e w calls) s) :
    DecisionsKept e i calls s := by
  let Q : Nat → Except Error Unit → Held → Prop := fun t result h =>
    ∀ c, calls[t]? = some c → result = .ok () → ∀ f record, c.record e = some (f, record) →
      Recorded f record h
  have hstart : Threads.ObeyingTo (discipline i) Q (Consistent i) (contending e w calls) := by
    refine ⟨fun _ => {}, ⟨a, ha, ?_, ?_⟩, ?_⟩
    · exact ⟨(hreachable.laid a (List.mem_of_getElem? ha)).keysUnique, nofun, nofun⟩
    · exact fun t => ⟨nofun, nofun, nofun, nofun⟩
    · intro t session hsession
      have hsession : (calls.map (Call.session e))[t]? = some session := hsession
      rw [List.getElem?_map] at hsession
      obtain ⟨c, hc, rfl⟩ := Option.map_eq_some_iff.mp hsession
      refine (obedient_session (hcalls c (List.mem_of_getElem? hc)) {} trivial).mono
        fun result h hends c' hc' hok => ?_
      obtain rfl := Option.some.inj (hc.symm.trans hc')
      subst hok
      exact hends
  have hobeying : Threads.ObeyingTo (discipline i) Q (Consistent i) s := by
    apply Threads.obeyingTo_of_runs _ hrun hstart
    intro s t hs c answer d hunraced hconsistent hcurrent hallowed hexec
    exact ⟨trivial, fun h' => consistent_exec (hunraced c hcurrent) hconsistent hallowed hexec⟩
  constructor
  · rintro ⟨t, row, hlogged, hrefused⟩
    obtain ⟨hs, ⟨a, ha, hexplains, hfits⟩, -⟩ := hobeying
    have hdecided : row.status = a.row.status := by
      apply hexplains.decided t row hlogged
      rcases hrefused with hstatus | hstatus <;> rw [hstatus] <;> nofun
    have hnot : a.row.status ≠ .approved := by
      rw [← hdecided]
      rcases hrefused with hstatus | hstatus <;> rw [hstatus] <;> nofun
    constructor
    · intro a' ha'
      obtain rfl := Option.some.inj (ha.symm.trans ha')
      exact hnot
    · exact fun t subject hsubject henabled =>
        hnot (hexplains.activated t subject hsubject henabled)
  · intro t c f record hc hdone hrecord
    obtain ⟨hs, ⟨a, ha, -, hfits⟩, hends⟩ := hobeying.done hdone
    obtain ⟨n, hn, hin⟩ := hends c hc rfl f record hrecord
    obtain ⟨hlogged, m, hm, hkeeps⟩ := (hfits t).saved n hn
    exact ⟨n, hlogged, a, m, ha, hm, hkeeps.1, hkeeps.2 f record hin⟩

/-- The objects that a statement saves. -/
def Statement.saved : Statement → List Object
  | .save_instance i _ => [.row i]
  | .save_node i n => [.node i n.id]
  | _ => []

/-- The objects an access saves. -/
theorem saves_iff {o : Object} : accesses.saves c o = true ↔ o ∈ c.saved := by
  cases c <;> simp [accesses, Statement.saved]

instance decidableSavesFresh : Decidable (accesses.SavesFresh t c log) :=
  decidable_of_iff (∀ o ∈ c.saved, accesses.fresh t o log = true)
    ⟨fun h o ho => h o (saves_iff.mp ho), fun h o ho => h o (saves_iff.mpr ho)⟩

instance decidableUnraced (s : Contention) (t : Nat) : Decidable (Unraced s t) :=
  match hcurrent : s.current t with
  | none => isTrue fun c hc => by rw [hcurrent] at hc; cases hc
  | some c => decidable_of_iff (accesses.SavesFresh t c s.shared.log)
      ⟨fun h c' hc => by rw [hcurrent] at hc; exact Option.some.inj hc ▸ h, fun h => h c hcurrent⟩

/-! Bob approves while Carol rejects. -/

def author : User := { id := 1, username := "alice", name := "Alice" }

def first_reviewer : User := { id := 2, username := "bob", name := "Bob" }

def second_reviewer : User := { id := 3, username := "carol", name := "Carol" }

def reviewers : Directory where
  users := [author, first_reviewer, second_reviewer]
  ids_nodup := by decide

def either_reviewer : RuleNode where
  node_name := "Review"
  approver_type := .specific_users
  approver_config := { user_ids := [2, 3] }

def one_of_two : Submission where
  rule := some { name := "review", nodes := [either_reviewer] }
  submitter := author

def under_review : World :=
  World.next .script { subject := { status := .enabled, version := "V1.0" } }
  (.start_approval reviewers one_of_two)

def bobs_approval : Call := .approve 0 first_reviewer "" 0

def carols_rejection : Call := .reject 0 second_reviewer "" 0

theorem reachable_under_review : Reachable .script under_review := ⟨_, .head trivial rfl (.refl _)⟩

def either_decides : List Call := [bobs_approval, carols_rejection]

theorem either_decides_on : ∀ c ∈ either_decides, c.On 0 :=
  List.forall_mem_cons.mpr ⟨rfl, List.forall_mem_singleton.mpr rfl⟩

theorem bob_first :
    ((exec (Threads.step Database.exec) Unraced (contending .script under_review either_decides)
    [0, 0, 0, 0, 0, 0, 1]).any
      fun s => s.shared.world.approvals.map (·.row.status) = [.approved]) = true := by
  decide +kernel

theorem bob_first_kept : ∃ s, Runs (Threads.step Database.exec) Unraced
    (contending .script under_review either_decides) s ∧
    s.shared.world.approvals.map (·.row.status) = [.approved] ∧
      DecisionsKept .script 0 either_decides s := by
  obtain ⟨s, hrun, happroved⟩ := exists_run_of_exec _ bob_first
  exact ⟨s, hrun, of_decide_eq_true happroved,
    decisions_kept reachable_under_review rfl either_decides_on hrun⟩

/-- The statement saves instance 0 as rejected. -/
def refuses : Statement → Bool
  | .save_instance 0 row => row.status = .rejected
  | _ => false

/-- An access refuses when it saves the row as rejected. -/
theorem refuses_iff :
    refuses c = true ↔ ∃ row, c = .save_instance 0 row ∧ row.status = .rejected := by
  constructor
  · intro h
    unfold refuses at h
    split at h
    · exact ⟨_, rfl, of_decide_eq_true h⟩
    · cases h
  · rintro ⟨row, rfl, hrow⟩
    exact decide_eq_true hrow

theorem carol_overtaken : ((exec (Threads.step Database.exec) (fun _ _ => True)
    (contending .script under_review either_decides) [0, 0, 1, 1, 1, 1, 0, 0, 0, 0]).any fun s =>
      s.shared.world.approvals.map (·.row.status) = [.approved] ∧
        s.shared.log.any (fun entry => refuses entry.2) = true) = true := by
  decide +kernel

/-- Both read the pending instance. Carol's rejection is stored, and then Bob's approval. -/
theorem carol_contradicted :
    ¬∀ s, Runs (Threads.step Database.exec) (fun _ _ => True)
      (contending .script under_review either_decides) s →
      DecisionsKept .script 0 either_decides s := by
  intro h
  obtain ⟨s, hrun, hs⟩ := exists_run_of_exec _ carol_overtaken
  obtain ⟨happroved, hrefused⟩ := of_decide_eq_true hs
  obtain ⟨⟨t, c⟩, hlogged, hrefuses⟩ := List.any_eq_true.mp hrefused
  obtain ⟨row, rfl, hrejected⟩ := refuses_iff.mp hrefuses
  obtain ⟨a, hstored, hstatus⟩ := List.map_eq_singleton_iff.mp happroved
  have ha : s.shared.world.approvals[0]? = some a := by rw [hstored]; rfl
  exact ((h s hrun).refused ⟨t, row, hlogged, Or.inl hrejected⟩).1 a ha hstatus

end taurus.approval
