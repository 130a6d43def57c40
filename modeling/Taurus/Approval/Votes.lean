import Mathlib.Data.List.Perm.Subperm
import Mathlib.Data.List.Dedup
import Taurus.Approval.Effects

namespace taurus.approval

open taurus.lib taurus.engine

namespace NodeExecution

variable {n : NodeExecution} {user : User} {reason : String} {now : Time}
  {record : ActionRecord} {e : Engine}

/-- The users with an `approve` record, in the order of the records. -/
def approvers (n : NodeExecution) : List Int :=
  (n.approval_records.filter (·.action = .approve)).map (·.user_id)

/-- Every candidate has approved. -/
def Countersigned (n : NodeExecution) : Prop := ∀ id ∈ n.candidate_ids, id ∈ n.approvers

@[simp] theorem length_candidate_ids : n.candidate_ids.length = n.candidate_approvers.length :=
  List.length_map _

/-- The approvers of a node are its candidates. -/
theorem mem_candidate_ids : _is_user_approver n user = true ↔ user.id ∈ n.candidate_ids := by
  unfold _is_user_approver
  exact List.contains_iff_mem

/-- One approver is enough in the modes `first` and `any`, as many as candidates in
the mode `all`. -/
theorem is_node_approved_iff : _is_node_approved n = true ↔
    match n.approval_mode with
    | .first | .any => n.approvers ≠ []
    | .all => n.candidate_approvers.length ≤ n.approvers.length ∧ n.candidate_approvers ≠ [] := by
  have hcount : n.approval_records.countP (·.action = .approve) = n.approvers.length := by
    unfold approvers
    rw [List.length_map, List.countP_eq_length_filter]
  have happrovers : 1 ≤ n.approvers.length ↔ n.approvers ≠ [] := by
    rw [← List.length_pos_iff]
    exact Iff.rfl
  have hcandidates : 0 < n.candidate_approvers.length ↔ n.candidate_approvers ≠ [] :=
    List.length_pos_iff
  unfold _is_node_approved
  rw [hcount]
  cases n.approval_mode <;> simp [happrovers, hcandidates]

section

variable (n record user reason now)

@[simp] theorem approvers_add_approval :
    (n.add_record (user.record .approve reason now)).approvers = n.approvers ++ [user.id] := by
  simp [approvers, add_record, User.record]

@[simp] theorem approvers_finish (status : NodeStatus) :
    (n.finish status now).approvers = n.approvers := rfl

@[simp] theorem approvers_add_candidates (users : List User) :
    (n.add_candidates users).approvers = n.approvers := rfl

@[simp] theorem candidate_ids_add_record :
    (n.add_record record).candidate_ids = n.candidate_ids := rfl

@[simp] theorem candidate_ids_finish (status : NodeStatus) :
    (n.finish status now).candidate_ids = n.candidate_ids := rfl

/-- Only users who are not candidates yet are added. -/
theorem candidate_ids_add_candidates (users : List User) : (n.add_candidates users).candidate_ids =
    n.candidate_ids ++ (users.map (·.id)).filter (· ∉ n.candidate_ids) := by
  simp only [candidate_ids, add_candidates, List.map_append, List.map_map, List.filter_map]
  rfl

end

/-- What an addition to the candidates leaves as it was. -/
structure Extends (n n' : NodeExecution) : Prop where
  id : n'.id = n.id
  step_order : n'.step_order = n.step_order
  approval_mode : n'.approval_mode = n.approval_mode
  status : n'.status = n.status
  approvers : n'.approvers = n.approvers
  unrejected : (∀ r ∈ n.approval_records, r.action ≠ .reject) →
    ∀ r ∈ n'.approval_records, r.action ≠ .reject
  candidate_ids : ∃ new, n'.candidate_ids = n.candidate_ids ++ new ∧ new.Nodup ∧
    ∀ id ∈ new, id ∉ n.candidate_ids

/-- `n'` has at most one record more, of a delegation or of added signers. -/
structure Logs (n n' : NodeExecution) : Prop where
  id : n'.id = n.id
  step_order : n'.step_order = n.step_order
  approval_mode : n'.approval_mode = n.approval_mode
  status : n'.status = n.status
  candidate_approvers : n'.candidate_approvers = n.candidate_approvers
  records : n'.approval_records = n.approval_records ∨
    ∃ r, n'.approval_records = n.approval_records ++ [r] ∧ r.action.decides = false

/-- A delegation is logged where its engine logs it. -/
theorem logs_add_delegation (hrecord : record.action.decides = false) :
    Logs n (n.add_delegation record e) := by
  cases e with
  | workflow => exact ⟨rfl, rfl, rfl, rfl, rfl, Or.inr ⟨record, rfl, hrecord⟩⟩
  | script => exact ⟨rfl, rfl, rfl, rfl, rfl, Or.inl rfl⟩

theorem logs_add_signature (hrecord : record.action.decides = false) :
    Logs n (n.add_signature record e) := by
  cases e with
  | workflow => exact ⟨rfl, rfl, rfl, rfl, rfl, Or.inr ⟨record, rfl, hrecord⟩⟩
  | script => exact ⟨rfl, rfl, rfl, rfl, rfl, Or.inl rfl⟩

/-- A logged change that adds candidates extends the node. -/
theorem Logs.extends {n' : NodeExecution} (h : Logs n n') {users : List User}
    (hnodup : (users.map (·.id)).Nodup) :
    Extends n (n'.add_candidates users) where
  id := h.id
  step_order := h.step_order
  approval_mode := h.approval_mode
  status := h.status
  approvers := by
    rw [approvers_add_candidates]
    unfold approvers
    obtain hsame | ⟨r, hmore, hr⟩ := h.records
    · rw [hsame]
    · have happrove : r.action ≠ .approve := fun hc => by simp [hc, Action.decides] at hr
      rw [hmore, List.filter_append, List.map_append]
      simp [happrove]
  unrejected := by
    intro hrej r hr
    change r ∈ n'.approval_records at hr
    obtain hsame | ⟨r', hmore, hr'⟩ := h.records
    · exact hrej r (hsame ▸ hr)
    · rw [hmore] at hr
      obtain hr | hr := List.mem_append.mp hr
      · exact hrej r hr
      · obtain rfl := List.mem_singleton.mp hr
        exact fun hc => by simp [hc, Action.decides] at hr'
  candidate_ids := by
    have hids : n'.candidate_ids = n.candidate_ids := by
      unfold NodeExecution.candidate_ids
      rw [h.candidate_approvers]
    refine ⟨(users.map (·.id)).filter (· ∉ n.candidate_ids), ?_, hnodup.filter _, ?_⟩
    · rw [candidate_ids_add_candidates, hids]
    · intro id hid
      simpa using (List.mem_filter.mp hid).2

/-- A delegation extends the node. -/
theorem extends_delegated (to_user : User) :
    Extends n ((n.add_delegation
      (user.record (.delegate to_user.id to_user.username) reason now) e).add_candidates
      [to_user]) :=
  (logs_add_delegation rfl).extends (List.nodup_singleton _)

/-- Adding signers extends the node. -/
theorem extends_extended (dir : Directory) (user_ids recorded : List Int) :
    Extends n ((n.add_signature (user.record (.add_sign recorded) reason now) e).add_candidates
      (dir.users.filter (·.id ∈ user_ids))) :=
  (logs_add_signature rfl).extends (dir.ids_nodup.sublist (List.filter_sublist.map _))

/-- The records of a node that is still to be decided: every approver is a candidate and
approved once, and nobody rejected. -/
structure Ballot (n : NodeExecution) : Prop where
  status : n.status = .pending
  nodup : n.approvers.Nodup
  candidates : n.approvers ⊆ n.candidate_ids
  unrejected : ∀ r ∈ n.approval_records, r.action ≠ .reject

namespace Ballot

/-- A fresh node is a ballot. -/
theorem of_fresh (hstatus : n.status = .pending)
    (hrecords : n.approval_records = []) : n.Ballot := by
  have happrovers : n.approvers = [] := by
    simp only [approvers, hrecords, List.filter_nil, List.map_nil]
  refine ⟨hstatus, ?_, ?_, ?_⟩
  · rw [happrovers]
    exact List.nodup_nil
  · rw [happrovers]
    exact List.nil_subset _
  · intro r hr
    rw [hrecords] at hr
    cases hr

/-- Nobody but the approvers has decided the node. -/
theorem has_decided_iff (h : n.Ballot) : has_decided n user = true ↔ user.id ∈ n.approvers := by
  simp only [has_decided, approvers, List.any_eq_true, List.mem_map, List.mem_filter,
    decide_eq_true_eq]
  constructor
  · rintro ⟨r, hr, hid, hdecides⟩
    refine ⟨r, ⟨hr, ?_⟩, hid⟩
    cases haction : r.action with
    | approve => rfl
    | reject => exact absurd haction (h.unrejected r hr)
    | delegate => simp [haction, Action.decides] at hdecides
    | add_sign => simp [haction, Action.decides] at hdecides
  · rintro ⟨r, ⟨hr, haction⟩, hid⟩
    refine ⟨r, hr, hid, ?_⟩
    rw [haction]
    rfl

/-- A first approval by a candidate keeps the ballot. -/
theorem approve (h : n.Ballot) (hcandidate : _is_user_approver n user = true)
    (hfirst : has_decided n user = false) :
    (n.add_record (user.record .approve reason now)).Ballot := by
  have hnew : user.id ∉ n.approvers := by
    rw [← h.has_decided_iff, hfirst]
    exact Bool.false_ne_true
  refine ⟨h.status, ?_, ?_, ?_⟩
  · rw [approvers_add_approval]
    apply List.nodup_append.mpr ⟨h.nodup, List.nodup_singleton _, ?_⟩
    intro a ha b hb
    obtain rfl := List.mem_singleton.mp hb
    rintro rfl
    exact hnew ha
  · rw [approvers_add_approval, candidate_ids_add_record]
    apply List.append_subset.mpr ⟨h.candidates, ?_⟩
    exact List.cons_subset.mpr ⟨mem_candidate_ids.mp hcandidate, List.nil_subset _⟩
  · intro r hr
    obtain hr | hr := List.mem_append.mp hr
    · exact h.unrejected r hr
    · obtain rfl := List.mem_singleton.mp hr
      exact fun hc => by cases hc

/-- Extending a node keeps the ballot. -/
theorem extended {n' : NodeExecution} (h : n.Ballot) (hext : Extends n n') : n'.Ballot := by
  obtain ⟨new, hids, _, _⟩ := hext.candidate_ids
  refine ⟨hext.status.trans h.status, ?_, ?_, hext.unrejected h.unrejected⟩
  · rw [hext.approvers]
    exact h.nodup
  · rw [hext.approvers, hids]
    exact fun id hid => List.mem_append_left _ (h.candidates hid)

/-- With distinct candidates, counting the approvals asks everybody. -/
theorem approved_iff_countersigned (h : n.Ballot) (hmode : n.approval_mode = .all)
    (hnodup : n.candidate_ids.Nodup) (hne : n.candidate_approvers ≠ []) :
    _is_node_approved n = true ↔ n.Countersigned := by
  have hsub : n.approvers.Subperm n.candidate_ids := h.nodup.subperm h.candidates
  rw [is_node_approved_iff, hmode]
  constructor
  · rintro ⟨hle, _⟩ id hid
    exact (hsub.perm_of_length_le (length_candidate_ids.trans_le hle)).mem_iff.mpr hid
  · intro hall
    have hle := (hnodup.subperm hall).length_le
    rw [length_candidate_ids] at hle
    exact ⟨hle, hne⟩

/-- With a candidate who stands twice the count is never reached. -/
theorem unapproved_of_repeated (h : n.Ballot) (hmode : n.approval_mode = .all)
    (hrepeated : ¬n.candidate_ids.Nodup) :
    _is_node_approved n = false := by
  apply Bool.eq_false_of_not_eq_true
  rw [is_node_approved_iff, hmode]
  rintro ⟨hle, _⟩
  have hdedup : n.approvers ⊆ n.candidate_ids.dedup :=
    fun id hid => List.mem_dedup.mpr (h.candidates hid)
  have hcount := (h.nodup.subperm hdedup).length_le
  have hdup : n.candidate_ids.dedup.length ≠ n.candidate_ids.length := fun heq =>
    hrepeated (List.dedup_eq_self.mp (n.candidate_ids.dedup_sublist.eq_of_length heq))
  have hsub := n.candidate_ids.dedup_sublist.length_le
  rw [length_candidate_ids] at hdup hsub
  omega

end Ballot

/-- The candidates whose approval is missing. -/
def missing (n : NodeExecution) : List Int := n.candidate_ids.filter (· ∉ n.approvers)

/-- A candidate without an approval is missing. -/
theorem mem_missing {id : Int} : id ∈ n.missing ↔ id ∈ n.candidate_ids ∧ id ∉ n.approvers := by
  simp only [missing, List.mem_filter, decide_eq_true_eq]

/-- Each approval leaves fewer missing. -/
theorem missing_add_approval {user : User} (hid : user.id ∈ n.missing) :
    (n.add_record (user.record .approve reason now)).missing.length < n.missing.length := by
  unfold missing
  rw [approvers_add_approval, candidate_ids_add_record]
  have hsplit : n.candidate_ids.filter (fun x => decide (x ∉ n.approvers ++ [user.id])) =
      (n.candidate_ids.filter (fun x => decide (x ∉ n.approvers))).filter (· ≠ user.id) := by
    rw [List.filter_filter]
    apply List.filter_congr
    intro x _
    simp [not_or, and_comm]
  rw [hsplit]
  apply List.length_filter_lt_length_iff_exists.mpr
  exact ⟨user.id, hid, by simp⟩

/-- A candidate whose approval is missing may approve. -/
theorem Ballot.permits {id : Int} (h : n.Ballot) (hid : id ∈ n.missing) :
    ∃ user : User, user.id = id ∧ _is_user_approver n user = true ∧ has_decided n user = false := by
  obtain ⟨hcandidate, hlate⟩ := mem_missing.mp hid
  refine ⟨{ id, username := "", name := "" }, rfl, mem_candidate_ids.mpr hcandidate, ?_⟩
  apply Bool.eq_false_of_not_eq_true
  rw [h.has_decided_iff]
  exact hlate

end NodeExecution

end taurus.approval
