import Taurus.Approval.Progress

namespace taurus.approval

open taurus.lib taurus.lib.transition taurus.engine

variable {e : Engine} {w w' : World} {i k : Nat} {a a' : Approval} {n m : NodeExecution}

/-- The calls that work on the candidates and the approvals of a node. -/
def Call.signs : Call → Bool
  | .approve _ _ _ _ | .delegate _ _ _ _ _ _ | .add_sign _ _ _ _ _ _ => true
  | .start_approval _ _ | .reject _ _ _ _ | .cancel _ _ _ => false

/-- The `k`-th node of instance `i`. -/
def World.node? (w : World) (i k : Nat) : Option NodeExecution := w.approvals[i]?.bind (·.nodes[k]?)

theorem World.At.node? (hat : w.At i a n) : w.node? i a.row.current_node_index = some n := by
  simp only [World.node?, hat.stored, Option.bind_some, hat.current]

/-- Where the `k`-th node, a countersign of distinct candidates, stands in its instance. -/
structure Countersigning (k : Nat) (a : Approval) (m : NodeExecution) : Prop where
  node : a.nodes[k]? = some m
  mode : m.approval_mode = .all
  nodup : m.candidate_ids.Nodup
  nonempty : m.candidate_approvers ≠ []
  stage : (a.row.status = .pending ∧ a.row.current_node_index = k ∧ m.Ballot ∧ ¬m.Countersigned) ∨
    ((a.row.status = .pending → k < a.row.current_node_index) ∧
    (m.status = .approved ↔ m.Countersigned))

namespace Countersigning

/-- A countersigning node is approved exactly when all countersigners have signed. -/
theorem agrees (h : Countersigning k a m) : m.status = .approved ↔ m.Countersigned := by
  obtain ⟨_, _, hballot, hmissing⟩ | ⟨_, hagrees⟩ := h.stage
  · simp [hballot.status, hmissing]
  · exact hagrees

/-- While another node is decided, this one stays as it is. -/
theorem put_ne {row : Instance} {n' : NodeExecution} (h : Countersigning k a m)
    (hne : a.row.current_node_index ≠ k)
    (hclosed : (row.status = .pending → k < row.current_node_index) ∧
      (m.status = .approved ↔ m.Countersigned)) :
    Countersigning k (a.put row n') m :=
  ⟨(List.getElem?_set_ne hne).trans h.node, h.mode, h.nodup, h.nonempty, Or.inr hclosed⟩

/-- The node itself is saved. -/
theorem put_self {row : Instance} {n' : NodeExecution} (h : Countersigning k a m)
    (hk : a.row.current_node_index = k) (hmode : n'.approval_mode = .all)
    (hnodup : n'.candidate_ids.Nodup) (hnonempty : n'.candidate_approvers ≠ [])
    (hstage : (row.status = .pending ∧ row.current_node_index = k ∧ n'.Ballot ∧ ¬n'.Countersigned) ∨
      ((row.status = .pending → k < row.current_node_index) ∧
        (n'.status = .approved ↔ n'.Countersigned))) :
    Countersigning k (a.put row n') n' := by
  subst hk
  exact ⟨List.getElem?_set_self (List.getElem?_eq_some_iff.mp h.node).1, hmode, hnodup,
    hnonempty, hstage⟩

end Countersigning

open Approval (Progress)

/-- The node that is being decided is the `k`-th one, or the `k`-th one is closed. -/
theorem Countersigning.cases (h : Countersigning k a m) (hat : a.At n) :
    (a.row.current_node_index = k ∧ n = m ∧ m.Ballot ∧ ¬m.Countersigned) ∨
      (k < a.row.current_node_index ∧ (m.status = .approved ↔ m.Countersigned)) := by
  obtain ⟨_, hk, hballot, hmissing⟩ | ⟨hclosed, hagrees⟩ := h.stage
  · subst hk
    have hn : n = m := Option.some.inj (hat.current.symm.trans h.node)
    exact Or.inl ⟨rfl, hn, hballot, hmissing⟩
  · exact Or.inr ⟨hclosed hat.pending, hagrees⟩

/-- Progress keeps a node of countersigners. -/
theorem Countersigning.progress (h : ∃ m, Countersigning k a m) (hprogress : a.Progress a') :
    ∃ m, Countersigning k a' m := by
  obtain ⟨m, h⟩ := h
  cases hprogress with
  | same => exact ⟨m, h⟩
  | @recorded n user reason now hat hcandidate hfirst hopen =>
    obtain ⟨hk, rfl, hballot, hmissing⟩ | ⟨hk, hagrees⟩ := h.cases hat
    · have hballot' : (n.add_record (user.record .approve reason now)).Ballot :=
        hballot.approve hcandidate hfirst
      have hmissing' :=
        (hballot'.approved_iff_countersigned h.mode h.nodup h.nonempty).not.mp (by simp [hopen])
      exact ⟨_, h.put_self hk h.mode h.nodup h.nonempty
        (Or.inl ⟨hat.pending, hk, hballot', hmissing'⟩)⟩
    · exact ⟨m, h.put_ne (by omega) ⟨fun _ => hk, hagrees⟩⟩
  | @passed n user reason now hat hcandidate hfirst happroved hnext =>
    obtain ⟨hk, rfl, hballot, hmissing⟩ | ⟨hk, hagrees⟩ := h.cases hat
    · have hballot' : (n.add_record (user.record .approve reason now)).Ballot :=
        hballot.approve hcandidate hfirst
      have hall := (hballot'.approved_iff_countersigned h.mode h.nodup h.nonempty).mp happroved
      refine ⟨_, h.put_self hk h.mode h.nodup h.nonempty
        (Or.inr ⟨fun _ => ?_, iff_of_true rfl hall⟩)⟩
      exact hk ▸ Nat.lt_succ_self _
    · refine ⟨m, h.put_ne (by omega) ⟨fun _ => ?_, hagrees⟩⟩
      exact Nat.lt_succ_of_lt hk
  | @granted n user reason now hat hcandidate hfirst happroved hlast =>
    obtain ⟨hk, rfl, hballot, hmissing⟩ | ⟨hk, hagrees⟩ := h.cases hat
    · have hballot' : (n.add_record (user.record .approve reason now)).Ballot :=
        hballot.approve hcandidate hfirst
      have hall := (hballot'.approved_iff_countersigned h.mode h.nodup h.nonempty).mp happroved
      exact ⟨_, h.put_self hk h.mode h.nodup h.nonempty
        (Or.inr ⟨fun hc => (by cases hc), iff_of_true rfl hall⟩)⟩
    · exact ⟨m, h.put_ne (by omega) ⟨fun hc => (by cases hc), hagrees⟩⟩
  | @rejected n user reason now hat hcandidate hfirst =>
    obtain ⟨hk, rfl, hballot, hmissing⟩ | ⟨hk, hagrees⟩ := h.cases hat
    · refine ⟨_, h.put_self hk h.mode h.nodup h.nonempty (Or.inr ⟨fun hc => (by cases hc), ?_⟩)⟩
      apply iff_of_false
      · exact fun hc => by cases hc
      · intro hall
        apply hmissing
        intro id hid
        simpa [NodeExecution.approvers, NodeExecution.add_record, NodeExecution.finish,
          User.record] using hall id hid
    · exact ⟨m, h.put_ne (by omega) ⟨fun hc => (by cases hc), hagrees⟩⟩
  | cancelled hpending =>
    exact ⟨m, h.node, h.mode, h.nodup, h.nonempty, Or.inr ⟨fun hc => (by cases hc), h.agrees⟩⟩
  | @extended n n' hat hextends =>
    obtain ⟨hk, rfl, hballot, hmissing⟩ | ⟨hk, hagrees⟩ := h.cases hat
    · obtain ⟨new, hids, hnew, hfresh⟩ := hextends.candidate_ids
      have hnodup : n'.candidate_ids.Nodup := by
        rw [hids]
        apply List.nodup_append.mpr ⟨h.nodup, hnew, ?_⟩
        rintro id hid _ hid' rfl
        exact hfresh id hid' hid
      have hnonempty : n'.candidate_approvers ≠ [] := by
        intro hc
        have : n'.candidate_ids = [] := by simp [NodeExecution.candidate_ids, hc]
        rw [hids] at this
        have := (List.append_eq_nil_iff.mp this).1
        exact h.nonempty (List.map_eq_nil_iff.mp this)
      refine ⟨n', h.put_self hk (hextends.approval_mode.trans h.mode) hnodup hnonempty
        (Or.inl ⟨hat.pending, hk, hballot.extended hextends,
        fun hall => hmissing fun id hid => ?_⟩)⟩
      rw [← hextends.approvers]
      exact hall id (hids ▸ List.mem_append_left _ hid)
    · exact ⟨m, h.put_ne (by omega) ⟨fun _ => hk, hagrees⟩⟩

/-- With a candidate who stands twice all candidates approve, and the node stays pending. -/
theorem countersigned_pending {size : Nat} (hsize : n.missing.length = size) (hw : w.Laid)
    (hat : w.At i a n) (hballot : n.Ballot) (hmode : n.approval_mode = .all)
    (hrepeated : ¬n.candidate_ids.Nodup) :
    ∃ w' m, Runs (step e) (fun _ c => c.signs = true) w w' ∧
      w'.node? i a.row.current_node_index = some m ∧
      m.status = .pending ∧ m.Countersigned := by
  induction size using Nat.strong_induction_on generalizing w a n with
  | _ size ih =>
    by_cases hall : n.Countersigned
    · exact ⟨w, n, .refl w, hat.node?, hballot.status, hall⟩
    · obtain ⟨id, hid, hlate⟩ : ∃ id ∈ n.candidate_ids, id ∉ n.approvers := by
        unfold NodeExecution.Countersigned at hall
        simpa only [not_forall, exists_prop] using hall
      have hmissing : id ∈ n.missing := NodeExecution.mem_missing.mpr ⟨hid, hlate⟩
      obtain ⟨user, rfl, hpermitted, hfirst⟩ := hballot.permits hmissing
      let n' := n.add_record (user.record .approve "" 0)
      have hballot' : n'.Ballot := hballot.approve hpermitted hfirst
      have hopen : _is_node_approved n' = false := hballot'.unapproved_of_repeated hmode hrepeated
      have hnext : w.next e (.approve i user "" 0) = w.put i a a.row n' := by
        rw [next_approve hat (hw a (List.mem_of_getElem? hat.stored)) hpermitted hfirst,
          if_neg (by simp [n', hopen])]
      have hi := (List.getElem?_eq_some_iff.mp hat.stored).1
      have hk := (List.getElem?_eq_some_iff.mp hat.current).1
      have hat' : (w.put i a a.row n').At i (a.put a.row n') n' :=
        ⟨World.put_getElem? hi, hat.pending, List.getElem?_set_self hk⟩
      have hless : n'.missing.length < size := hsize ▸ NodeExecution.missing_add_approval hmissing
      obtain ⟨w', m, hruns, hm, hstatus, hcounter⟩ :=
        ih _ hless rfl (hnext ▸ laid_next hw _) hat' hballot' hmode hrepeated
      exact ⟨w', m, .head rfl (congrArg some hnext) hruns, hm, hstatus, hcounter⟩

/-- Along every run of approvals, delegations and added signers a countersign node is approved
exactly when all its candidates have approved it, if and only if it begins with candidates of
whom none stands twice. -/
theorem countersigned_iff (hreachable : Reachable e w) (hat : w.At i a n)
    (hmode : n.approval_mode = .all) (hstatus : n.status = .pending)
    (hrecords : n.approval_records = []) :
    (∀ w', Runs (step e) (fun _ c => c.signs = true) w w' →
      ∀ m, w'.node? i a.row.current_node_index = some m →
        (m.status = .approved ↔ m.Countersigned)) ↔
      n.candidate_ids.Nodup ∧ n.candidate_approvers ≠ [] := by
  have hw := hreachable.laid
  have hballot : n.Ballot := .of_fresh hstatus hrecords
  have happrovers : n.approvers = [] := by simp [NodeExecution.approvers, hrecords]
  constructor
  · intro h
    constructor
    · by_contra hrepeated
      obtain ⟨w', m, hruns, hm, hpending, hall⟩ :=
        countersigned_pending rfl hw hat hballot hmode hrepeated
      have happroved := (h w' hruns m hm).mpr hall
      rw [hpending] at happroved
      cases happroved
    · intro hempty
      have hall : n.Countersigned := by
        intro id hid
        simp [NodeExecution.candidate_ids, hempty] at hid
      have happroved := (h w (.refl w) n hat.node?).mpr hall
      rw [hstatus] at happroved
      cases happroved
  · rintro ⟨hnodup, hnonempty⟩ w' hruns m hm
    have hmissing : ¬n.Countersigned := by
      intro hall
      apply hnonempty
      have hids : n.candidate_ids = [] := by
        apply List.eq_nil_iff_forall_not_mem.mpr
        intro id hid
        have := hall id hid
        rw [happrovers] at this
        cases this
      exact List.map_eq_nil_iff.mp hids
    have hstart : Countersigning a.row.current_node_index a n :=
      ⟨hat.current, hmode, hnodup, hnonempty, Or.inl ⟨hat.pending, rfl, hballot, hmissing⟩⟩
    obtain ⟨a', ha', m', hm'⟩ := stored_of_runs hruns hw (P := fun a => ∃ m, Countersigning _ a m)
      Countersigning.progress hat.stored ⟨n, hstart⟩
    have heq : m' = m := by
      have hnode : w'.node? i a.row.current_node_index = some m' := by
        simp only [World.node?, ha', Option.bind_some, hm'.node]
      exact Option.some.inj (hnode.symm.trans hm)
    exact heq ▸ hm'.agrees

/-! A publisher asks two users, or one user twice, to countersign. -/

def alice : User := { id := 1, username := "alice", name := "Alice" }

def bob : User := { id := 2, username := "bob", name := "Bob" }

def carol : User := { id := 3, username := "carol", name := "Carol" }

def staff : Directory where
  users := [alice, bob, carol]
  ids_nodup := by decide

/-- A workflow that is marked as needing approval. -/
def audited : Subject := { status := .enabled, version := "7", need_audit := true }

def countersigned_by (countersign_ids : List Int) : Submission where
  rule := none
  submitter := alice
  override_approvers :=
    some { countersign_ids := countersign_ids.map .int, approval_mode := some "all" }

def countersigning (countersign_ids : List Int) : World :=
  World.next .workflow { subject := audited }
    (.start_approval staff (countersigned_by countersign_ids))

def countersign_node (candidates : List User) : NodeExecution :=
  specific_users "All approvers" .all 1 (candidates.map User.candidate)
    { user_ids := candidates.map (·.id) }

def countersign_approval (candidates : List User) : Approval where
  row := new_instance audited (countersigned_by []) "Custom approval (need_audit / public flow)"
  nodes := [countersign_node candidates]

theorem reachable_countersigning (countersign_ids : List Int) :
    Reachable .workflow (countersigning countersign_ids) :=
  ⟨audited, .head trivial rfl (.refl _)⟩

theorem two_countersigners : (countersigning [2, 3]).At 0 (countersign_approval [bob, carol])
    (countersign_node [bob, carol]) ∧
    ((∀ w', Runs (step .workflow) (fun _ c => c.signs = true) (countersigning [2, 3]) w' →
        ∀ m, w'.node? 0 0 = some m → (m.status = .approved ↔ m.Countersigned)) ↔
      (countersign_node [bob, carol]).candidate_ids.Nodup ∧
        (countersign_node [bob, carol]).candidate_approvers ≠ []) :=
  have hat : (countersigning [2, 3]).At 0 (countersign_approval [bob, carol])
      (countersign_node [bob, carol]) :=
    ⟨rfl, rfl, rfl⟩
  ⟨hat, countersigned_iff (reachable_countersigning [2, 3]) hat rfl rfl rfl⟩

theorem bob_approves :
    ((World.next .workflow (countersigning [2, 2]) (.approve 0 bob "" 0)).node? 0 0).any (fun m =>
    decide (m.candidate_ids = [2, 2] ∧ m.approvers = [2] ∧ m.status = .pending)) = true := by
  decide +kernel

/-- Bob stands twice in the list. He approves, nobody else is a candidate, and the
node stays pending. -/
theorem repeated_countersigner_pending :
    ¬∀ w', Runs (step .workflow) (fun _ c => c.signs = true) (countersigning [2, 2]) w' →
      ∀ m, w'.node? 0 0 = some m → (m.status = .approved ↔ m.Countersigned) := by
  intro h
  obtain ⟨m, hm, hbob⟩ := (Option.any_eq_true _ _).mp bob_approves
  obtain ⟨hids, happrovers, hpending⟩ := of_decide_eq_true hbob
  have hall : m.Countersigned := by
    unfold NodeExecution.Countersigned
    rw [hids, happrovers]
    decide
  have happroved := (h _ (.head rfl rfl (.refl _)) m hm).mpr hall
  rw [hpending] at happroved
  cases happroved

end taurus.approval
