import Mathlib.Data.Finset.Card
import Mathlib.Data.Finset.Dedup
import Taurus.Lib.Transition
import Taurus.OpsApproval.Concurrent
import Taurus.OpsApproval.Events

namespace taurus.ops_approval

open taurus.lib taurus.lib.Thread taurus.lib.transition taurus.python taurus.engine taurus.ops
open taurus.approval (User ActionRecord)

variable {accounts : Accounts} {site : Site} {w w' : World} {i : Nat} {a a' : Approval}
  {user : User} {reason : String}
  {now : Time} {id : Int}

namespace Approval

/-- The users who have approved. -/
def approvers (a : Approval) : List Int :=
  (a.approval_records.filter fun r => r.action = .approve ∧ r.user_id ≠ 0).map (·.user_id)

/-- The approvers are the users of the approve records. -/
theorem mem_approvers :
    id ∈ a.approvers ↔ id ≠ 0 ∧ ∃ r ∈ a.approval_records, r.action = .approve ∧ r.user_id = id := by
  unfold approvers
  simp only [List.mem_map, List.mem_filter, decide_eq_true_eq]
  constructor
  · rintro ⟨r, ⟨hr, haction, hid⟩, rfl⟩
    exact ⟨hid, r, hr, haction, rfl⟩
  · rintro ⟨hid, r, hr, haction, rfl⟩
    exact ⟨r, ⟨hr, haction, hid⟩, rfl⟩

/-- An approve record adds its user. -/
theorem approvers_add_record {record : ActionRecord} : (a.add_record record).approvers =
    a.approvers ++ if record.action = .approve ∧
      record.user_id ≠ 0 then [record.user_id] else [] := by
  unfold approvers add_record
  rw [List.filter_append, List.map_append, List.filter_singleton]
  congr 1
  by_cases h : record.action = .approve ∧ record.user_id ≠ 0 <;> simp [h]

/-- The votes suffice. -/
def Satisfied (a : Approval) : Prop :=
  if a.cids = [] then a.approvers ≠ []
  else
    match a.approval_mode with
    | .all => ∀ id ∈ a.cids, id ∈ a.approvers
    | .any => ∃ id ∈ a.approvers, id ∈ a.cids

/-- Every candidate is a user. -/
def UsersOnly (a : Approval) (users : List User) : Prop :=
  ∀ c ∈ a.candidate_approvers, ∃ u ∈ users, c = { user_id := some u.id }

/-- Candidates that are users have user ids. -/
theorem UsersOnly.candidate_ids {users : List User} (h : a.UsersOnly users) :
    a.candidate_ids = .ok a.cids := by
  unfold Approval.candidate_ids cids
  unfold UsersOnly at h
  revert h
  generalize a.candidate_approvers = candidates
  intro h
  induction candidates with
  | nil => rfl
  | cons c rest ih =>
    obtain ⟨u, -, rfl⟩ := h c List.mem_cons_self
    rw [List.mapM_cons, ih fun c hc => h c (List.mem_cons_of_mem _ hc)]
    rfl

/-- They are known users. -/
theorem UsersOnly.mem_cids {users : List User} (h : a.UsersOnly users) :
    id ∈ a.cids ↔ (∃ u ∈ users, u.id = id) ∧ { user_id := some id } ∈ a.candidate_approvers := by
  unfold cids
  rw [List.mem_filterMap]
  constructor
  · rintro ⟨c, hc, hid⟩
    obtain ⟨u, hu, rfl⟩ := h c hc
    obtain rfl := Option.some.inj hid
    exact ⟨⟨u, hu, rfl⟩, hc⟩
  · rintro ⟨-, hc⟩
    exact ⟨_, hc, rfl⟩

end Approval

/-- Such an approval passes exactly when it is satisfied. -/
theorem Approval.UsersOnly.is_approved_by_mode {users : List User} (h : a.UsersOnly users) :
    ∃ b, _is_approved_by_mode a = .ok b ∧ (b = true ↔ a.Satisfied) := by
  unfold _is_approved_by_mode Satisfied
  rw [h.candidate_ids]
  change ∃ b, (if a.cids.isEmpty then _ else _) = _ ∧ _
  by_cases hnone : a.cids = []
  · rw [hnone]
    refine ⟨_, rfl, ?_⟩
    change Decidable.decide (1 ≤ a.approvers.length) = true ↔ _
    rw [decide_eq_true_iff, if_pos rfl]
    exact List.length_pos_iff
  · rw [if_neg (by simpa using hnone), if_neg hnone]
    cases a.approval_mode with
    | all =>
      refine ⟨_, rfl, ?_⟩
      change (a.cids.all fun id => a.approvers.contains id) = true ↔ _
      simp
    | any =>
      refine ⟨_, rfl, ?_⟩
      change (a.approvers.any fun id => a.cids.contains id) = true ↔ _
      simp

/-- A pending approval waits for votes only: its candidates exist, nobody has rejected it, and
whoever has approved it is a candidate. -/
structure Approval.Open (a : Approval) (accounts : Accounts) : Prop where
  candidates : a.UsersOnly accounts.users
  approver_id : a.approver_id = none
  unrejected : ∀ r ∈ a.approval_records, r.action ≠ .reject
  voters : a.approvers ⊆ a.cids
  unsatisfied : ¬a.Satisfied

namespace Approval.Open

/-- Only the candidates pass. -/
theorem candidate_iff (h : a.Open accounts) :
    _is_user_candidate_approver site a user = true ↔ user.id ∈ a.cids := by
  have hroles : a.candidate_approvers.any (role_hit (site.role user.id)) = false := by
    rw [List.any_eq_false]
    intro c hc
    obtain ⟨u, -, rfl⟩ := h.candidates c hc
    simp [role_hit]
  unfold _is_user_candidate_approver
  rw [hroles, h.approver_id]
  simp

/-- A candidate who has not approved yet may do so. -/
theorem votes (h : a.Open accounts) (hpending : a.status = .pending) (huser : user ∈ accounts.users)
    (hid : user.id ∈ a.cids) (hlate : user.id ∉ a.approvers) : Votes site a user := by
  refine ⟨⟨hpending, h.candidate_iff.mpr hid⟩, ?_⟩
  rw [List.any_eq_false]
  intro r hr hdecided
  obtain ⟨huser_id, hdecides⟩ := of_decide_eq_true hdecided
  have hpos := accounts.id_pos user huser
  have happroves : r.action = .approve := by
    cases haction : r.action with
    | approve => rfl
    | reject => exact absurd haction (h.unrejected r hr)
    | delegate => rw [haction] at hdecides; cases hdecides
    | add_sign => rw [haction] at hdecides; cases hdecides
  exact hlate (Approval.mem_approvers.mpr ⟨by omega, r, hr, happroves, huser_id⟩)

/-- An open approval waits for one of its candidates. -/
theorem exists_late (h : a.Open accounts) (hsome : a.cids ≠ []) :
    ∃ id ∈ a.cids, id ∉ a.approvers := by
  have hopen := h.unsatisfied
  unfold Approval.Satisfied at hopen
  rw [if_neg hsome] at hopen
  cases hmode : a.approval_mode with
  | all => simpa [hmode] using hopen
  | any =>
    rw [hmode] at hopen
    obtain ⟨id, hid⟩ := List.exists_mem_of_ne_nil _ hsome
    exact ⟨id, hid, fun hc => hopen ⟨id, hc, hid⟩⟩

/-- A vote that does not suffice. -/
theorem voted (h : a.Open accounts) (hvotes : Votes site a user)
    (hmore : _is_approved_by_mode (a.add_record (user.record .approve reason now)) = .ok false) :
    (a.add_record (user.record .approve reason now)).Open accounts where
  candidates := h.candidates
  approver_id := h.approver_id
  unrejected := by
    intro r hr
    obtain hr | hr := List.mem_append.mp hr
    · exact h.unrejected r hr
    · rw [List.mem_singleton.mp hr]
      exact fun hc => by cases hc
  voters := by
    rw [Approval.approvers_add_record]
    apply List.append_subset.mpr ⟨h.voters, ?_⟩
    split
    · exact List.cons_subset.mpr ⟨h.candidate_iff.mp hvotes.1.2, List.nil_subset _⟩
    · exact List.nil_subset _
  unsatisfied := by
    have hcandidates : (a.add_record (user.record .approve reason now)).UsersOnly accounts.users :=
      h.candidates
    obtain ⟨b, hb, hsatisfied⟩ := hcandidates.is_approved_by_mode
    rw [hmore] at hb
    obtain rfl := Except.ok.inj hb
    exact fun hc => by cases hsatisfied.mpr hc

/-- Only users who are not candidates yet are added. -/
theorem cids_add_candidates {users : List User} :
    (add_candidates a users).cids = a.cids ++ (users.filter fun u => u.id ∉ a.cids).map (·.id) := by
  unfold add_candidates
  simp only [Approval.cids, List.filterMap_append, List.filterMap_map]
  congr 1
  induction users with
  | nil => rfl
  | cons u rest ih =>
    rw [List.filter_cons]
    split
    · exact congrArg (u.id :: ·) ih
    · exact ih

/-- Added candidates keep the approval open. -/
theorem joined (h : a.Open accounts) (hsite : site.users = accounts.users)
    (hjoined : Joined site user a a') :
    a'.Open accounts ∧ a'.cids ≠ [] := by
  cases hjoined with
  | @mk users record hreviews husers hrecord =>
    have hcids : ((add_candidates a users).add_record record).cids = _ := cids_add_candidates
    have happrove : record.action ≠ .approve := fun hc => by rw [hc] at hrecord; cases hrecord
    have happrovers : ((add_candidates a users).add_record record).approvers = a.approvers := by
      rw [Approval.approvers_add_record, if_neg fun hc => happrove hc.1, List.append_nil]
      rfl
    have hmember : user.id ∈ a.cids := h.candidate_iff.mp hreviews.2
    have hsome : a.cids ≠ [] := List.ne_nil_of_mem hmember
    have hgrown : a.cids ++ (users.filter fun u => u.id ∉ a.cids).map (·.id) ≠ [] :=
      List.append_ne_nil_of_left_ne_nil hsome _
    refine ⟨⟨?_, h.approver_id, ?_, ?_, ?_⟩, hcids ▸ hgrown⟩
    · intro c hc
      obtain hc | hc := List.mem_append.mp hc
      · exact h.candidates c hc
      · obtain ⟨u, hu, rfl⟩ := List.mem_map.mp hc
        exact ⟨u, hsite ▸ husers (List.mem_of_mem_filter hu), rfl⟩
    · intro r hr
      obtain hr | hr := List.mem_append.mp hr
      · exact h.unrejected r hr
      · rw [List.mem_singleton.mp hr]
        exact fun hc => by rw [hc] at hrecord; cases hrecord
    · rw [happrovers, hcids]
      exact fun id hid => List.mem_append_left _ (h.voters hid)
    · have hopen := h.unsatisfied
      unfold Approval.Satisfied at hopen ⊢
      rw [happrovers, hcids, if_neg hgrown]
      rw [if_neg hsome] at hopen
      change ¬match a.approval_mode with | .all => _ | .any => _
      cases hmode : a.approval_mode with
      | all =>
        rw [hmode] at hopen
        exact fun hc => hopen fun id hid => hc id (List.mem_append_left _ hid)
      | any =>
        -- before, nobody can have approved
        rw [hmode] at hopen
        rintro ⟨id, hid, -⟩
        exact hopen ⟨id, hid, h.voters hid⟩

end Approval.Open

/-- Approval `i` is decided, or it waits for votes and has candidates exactly when some were
found for it. -/
def Waiting (accounts : Accounts) (found : Prop) (i : Nat) (w : World) : Prop :=
  ∃ a, w.approvals[i]? = some a ∧ (a.status = .pending → a.Open accounts ∧ (a.cids ≠ [] ↔ found))

/-- A request on approval `i` that finds these users. -/
def Call.Within (accounts : Accounts) (i : Nat) : Call → Prop
  | .execute_command _ _ | .execute_script _ _ | .submit_script_approval _ _ => False
  | .approve site j _ _ _ | .reject site j _ _ _ | .delegate site j _ _ _ _ | .add_sign site j _ _ _ _ | .cancel site j _ _ =>
    j = i ∧ site.users = accounts.users

namespace Waiting

variable {found : Prop}

/-- A decided approval waits for nobody. -/
theorem decided (ha : w.approvals[i]? = some a) (hdecided : a'.status ≠ .pending) :
    Waiting accounts found i (w.put i a') :=
  ⟨a', World.put_getElem? ha, fun hc => absurd hc hdecided⟩

/-- A vote keeps somebody found whom the approval waits for. -/
theorem approve (h : Waiting accounts found i w) :
    Waiting accounts found i (w.next (.approve site i user reason now)) := by
  obtain ⟨a, ha, hopen⟩ := h
  by_cases hvotes : Votes site a user
  · obtain ⟨hopen, hfound⟩ := hopen hvotes.1.1
    rw [after_approve ha hvotes]
    split
    · exact ⟨a, ha, fun _ => ⟨hopen, hfound⟩⟩
    · rename_i hmore
      exact ⟨_, World.put_getElem? ha, fun _ => ⟨hopen.voted hvotes hmore, hfound⟩⟩
    · split
      · exact decided ha fun hc => by cases hc
      · have hadded : ∀ x, (w.add_execution x).approvals[i]? = some a := fun _ => ha
        exact decided (hadded _) fun hc => by cases hc
  · rw [after_approve_of_not_votes fun b hb => Option.some.inj (ha.symm.trans hb) ▸ hvotes]
    exact ⟨a, ha, hopen⟩

theorem reject (h : Waiting accounts found i w) :
    Waiting accounts found i (w.next (.reject site i user reason now)) := by
  obtain ⟨a, ha, hopen⟩ := h
  by_cases hrejects : Reviews site a user ∧ reason ≠ ""
  · rw [after_reject ha hrejects.1 hrejects.2]
    have hstored : ((w.put i (turned_down a user reason now)).refuse a).approvals[i]? =
        some (turned_down a user reason now) := by
      unfold World.refuse
      split <;> exact World.put_getElem? ha
    exact ⟨_, hstored, fun hc => by cases hc⟩
  · rw [after_reject_of_not]
    · exact ⟨a, ha, hopen⟩
    · intro b hb hreviews
      obtain rfl := Option.some.inj (ha.symm.trans hb)
      exact not_not.mp fun hc => hrejects ⟨hreviews, hc⟩

theorem cancel (h : Waiting accounts found i w) :
    Waiting accounts found i (w.next (.cancel site i user now)) := by
  obtain ⟨a, ha, hopen⟩ := h
  by_cases hwithdraws : Withdraws a user site
  · rw [after_cancel ha hwithdraws]
    exact decided ha fun hc => by cases hc
  · rw [after_cancel_of_not fun b hb => Option.some.inj (ha.symm.trans hb) ▸ hwithdraws]
    exact ⟨a, ha, hopen⟩

theorem joined (h : Waiting accounts found i w) (hsite : site.users = accounts.users)
    (hw' : w' = w ∨ ∃ a a', w.approvals[i]? = some a ∧ Joined site user a a' ∧ w' = w.put i a') :
    Waiting accounts found i w' := by
  obtain rfl | ⟨a, a', ha, hjoined, rfl⟩ := hw'
  · exact h
  · obtain ⟨b, hb, hopen⟩ := h
    obtain rfl := Option.some.inj (ha.symm.trans hb)
    have hreviews : Reviews site a user := by cases hjoined; assumption
    obtain ⟨hopen, hfound⟩ := hopen hreviews.1
    obtain ⟨hopen', hsome⟩ := hopen.joined hsite hjoined
    refine ⟨a', World.put_getElem? ha, fun _ => ⟨hopen', iff_of_true hsome (hfound.mp ?_)⟩⟩
    exact List.ne_nil_of_mem (hopen.candidate_iff.mp hreviews.2)

/-- Every request of these users keeps it so. -/
theorem next {c : Call} (h : Waiting accounts found i w) (hc : c.Within accounts i) :
    Waiting accounts found i (w.next c) := by
  cases c with
  | execute_command => exact absurd hc id
  | execute_script => exact absurd hc id
  | submit_script_approval => exact absurd hc id
  | approve site j user reason now =>
    obtain ⟨rfl, -⟩ := hc
    exact approve h
  | reject site j user reason now =>
    obtain ⟨rfl, -⟩ := hc
    exact reject h
  | delegate site j user to_user_id reason now =>
    obtain ⟨rfl, hsite⟩ := hc
    exact joined h hsite after_delegate
  | add_sign site j user user_ids reason now =>
    obtain ⟨rfl, hsite⟩ := hc
    exact joined h hsite after_add_sign
  | cancel site j user now =>
    obtain ⟨rfl, -⟩ := hc
    exact cancel h

end Waiting

def callStep (w : World) (c : Call) : Option World := some (w.next c)

/-- A user who may review approval `i` approves it. -/
def ApprovedBy (accounts : Accounts) (site : Site) (i : Nat) (w : World) (c : Call) : Prop :=
  ∃ a, w.approvals[i]? = some a ∧
  ∃ user ∈ accounts.users, _is_user_candidate_approver site a user = true ∧
    ∃ reason now, c = .approve site i user reason now

/-- The candidates who have not approved. -/
def Approval.late (a : Approval) : Finset Int := a.cids.toFinset \ a.approvers.toFinset

/-- Each vote leaves fewer who are late. -/
theorem late_voted (hid : id ∈ a.cids) (hmissing : id ∉ a.approvers) (hcids : a'.cids = a.cids)
    (happrovers : a'.approvers = a.approvers ++ [id]) : a'.late.card < a.late.card := by
  apply Finset.card_lt_card
  have hlate : id ∈ a.late :=
    Finset.mem_sdiff.mpr ⟨List.mem_toFinset.mpr hid, fun hc => hmissing (List.mem_toFinset.mp hc)⟩
  have hdone : id ∉ a'.late := by
    unfold Approval.late
    rw [happrovers]
    simp
  have hsubset : a'.late ⊆ a.late := by
    unfold Approval.late
    rw [hcids, happrovers]
    apply Finset.sdiff_subset_sdiff Finset.Subset.rfl
    exact fun u hu => List.mem_toFinset.mpr (List.mem_append_left _ (List.mem_toFinset.mp hu))
  exact (Finset.ssubset_iff_of_subset hsubset).mpr ⟨id, hlate, hdone⟩

/-- The votes that are missing can be given, one after another. -/
theorem approvable {late : Nat} (ha : w.approvals[i]? = some a) (hpending : a.status = .pending)
    (hopen : a.Open accounts) (hsome : a.cids ≠ []) (hlate : a.late.card = late) :
    ∃ w', Runs callStep (ApprovedBy accounts site i) w w' ∧
      ∃ a', w'.approvals[i]? = some a' ∧ _is_approved_by_mode a' = .ok true := by
  induction late using Nat.strong_induction_on generalizing w a with
  | _ late ih =>
    obtain ⟨id, hid, hmissing⟩ := hopen.exists_late hsome
    obtain ⟨⟨user, huser, rfl⟩, -⟩ := hopen.candidates.mem_cids.mp hid
    have hvotes : Votes site a user := hopen.votes hpending huser hid hmissing
    have hnext : w.next (.approve site i user "" 0) = _ := after_approve ha hvotes
    have hstep : ApprovedBy accounts site i w (.approve site i user "" 0) :=
      ⟨a, ha, user, huser, hvotes.1.2, "", 0, rfl⟩
    have hcandidates : (a.add_record (user.record .approve "" 0)).UsersOnly accounts.users :=
      hopen.candidates
    obtain ⟨b, hb, -⟩ := hcandidates.is_approved_by_mode
    rw [hb] at hnext
    cases b with
    | true =>
      -- the vote suffices, whatever becomes of the execution
      refine ⟨_, .head hstep rfl (.refl _), ?_⟩
      rw [hnext]
      dsimp only
      split
      · exact ⟨_, World.put_getElem? ha, hb⟩
      · rename_i x _
        have hadded : (w.add_execution x).approvals[i]? = some a := ha
        exact ⟨_, World.put_getElem? hadded, hb⟩
    | false =>
      have hvoted : (a.add_record (user.record .approve "" 0)).Open accounts :=
        hopen.voted hvotes hb
      have hpos := accounts.id_pos user huser
      have happrovers : (a.add_record (user.record .approve "" 0)).approvers =
          a.approvers ++ [user.id] := by
        rw [Approval.approvers_add_record,
          if_pos ⟨rfl, fun hc => by rw [show user.id = 0 from hc] at hpos; omega⟩]
        rfl
      have hfewer := late_voted hid hmissing
        (rfl : (a.add_record (user.record .approve "" 0)).cids = a.cids) happrovers
      have hput : (w.put i (a.add_record (user.record .approve "" 0))).approvals[i]? =
          some (a.add_record (user.record .approve "" 0)) := World.put_getElem? ha
      obtain ⟨w', hruns, ha'⟩ := ih _ (hlate ▸ hfewer) hput hpending hvoted hsome rfl
      have hstored : w.next (.approve site i user "" 0) =
        w.put i (a.add_record (user.record .approve "" 0)) := hnext
      exact ⟨w', .head hstep rfl (hstored ▸ hruns), ha'⟩

namespace Submission

def form : Submission → Form
  | command request => request.toForm
  | script request | script_approval request => request.toForm

variable {sub : Submission} {origin : Origin}

/-- The approval of a request is new, and its candidates are those of the picked users who exist. -/
theorem stored (h : (w.next (sub.call origin)).approvals.length = w.approvals.length + 1) :
    ∃ a, (w.next (sub.call origin)).approvals[w.approvals.length]? = some a ∧ a.status = .pending ∧
      a.approver_id = none ∧
      a.approval_records = [] ∧
        a.candidate_approvers = sub.form.candidate_approvers origin.site := by
  have hchanged : w.next (sub.call origin) ≠ w := by
    intro hc
    rw [hc] at h
    omega
  cases sub with
  | command request =>
    rcases after_execute_command w origin { request with need_audit := true } with ⟨-, hsame⟩ |
      ⟨host, -, hnext⟩
    · exact absurd hsame hchanged
    · obtain ⟨n, hstored⟩ := submitted_eq (hnext ▸ h)
      have hboth := hnext.trans hstored
      exact ⟨_, (congrArg (·.approvals[w.approvals.length]?) hboth).trans List.getElem?_concat_length, rfl, rfl, rfl, rfl⟩
  | script request =>
    rcases after_execute_script w origin { request with need_audit := true } with ⟨-, hsame⟩ |
      ⟨host, -, hnext⟩
    · exact absurd hsame hchanged
    · obtain ⟨n, hstored⟩ := submitted_eq (hnext ▸ h)
      have hboth := hnext.trans hstored
      exact ⟨_, (congrArg (·.approvals[w.approvals.length]?) hboth).trans List.getElem?_concat_length, rfl, rfl, rfl, rfl⟩
  | script_approval request =>
    obtain hsame | ⟨host, n, hnext⟩ := after_submit_script_approval w origin request
    · exact absurd hsame hchanged
    · exact ⟨_, (congrArg (·.approvals[w.approvals.length]?) hnext).trans List.getElem?_concat_length, rfl, rfl, rfl, rfl⟩

/-- Somebody who was picked exists. -/
def Finds (sub : Submission) (accounts : Accounts) : Prop :=
  ∃ u ∈ accounts.users, u.id ∈ sub.form.approver_ids ++ sub.form.countersign_ids

/-- A submission that finds its approvers waits for them. -/
theorem waiting (hsite : origin.site.users = accounts.users)
    (h : (w.next (sub.call origin)).approvals.length = w.approvals.length + 1) :
    Waiting accounts (sub.Finds accounts) w.approvals.length (w.next (sub.call origin)) := by
  obtain ⟨a, ha, -, happrover, hrecords, hcandidates⟩ := stored h
  have hnone : a.approvers = [] := by simp [Approval.approvers, hrecords]
  have hcids : a.cids = (origin.site.users.filter (·.id ∈ sub.form.approver_ids ++
    sub.form.countersign_ids)).map (·.id) := by
    unfold Approval.cids
    rw [hcandidates]
    unfold Form.candidate_approvers
    rw [List.filterMap_map]
    exact congrFun List.filterMap_eq_map' _
  refine ⟨a, ha, fun _ => ⟨⟨?_, happrover, ?_, ?_, ?_⟩, ?_⟩⟩
  · intro c hc
    rw [hcandidates] at hc
    obtain ⟨u, hu, rfl⟩ := List.mem_map.mp hc
    exact ⟨u, hsite ▸ List.mem_of_mem_filter hu, rfl⟩
  · rw [hrecords]
    exact fun r hr => by cases hr
  · rw [hnone]
    exact List.nil_subset _
  · unfold Approval.Satisfied
    rw [hnone]
    split
    · exact not_not.mpr rfl
    · rename_i hsome
      obtain ⟨id, hid⟩ := List.exists_mem_of_ne_nil _ hsome
      cases a.approval_mode with
      | all => exact fun hc => List.not_mem_nil (hc id hid)
      | any => rintro ⟨id, hid, -⟩; cases hid
  · rw [hcids, hsite]
    unfold Finds
    rw [ne_eq, List.map_eq_nil_iff, List.filter_eq_nil_iff]
    push Not
    simp only [decide_eq_true_eq]

end Submission

/-- Approval `i` can be decided: an existing user may review it, and existing users can approve it
until that suffices. -/
def CanBeDecided (accounts : Accounts) (site : Site) (i : Nat) (w : World) : Prop :=
  ∃ a, w.approvals[i]? = some a ∧
  (∃ user ∈ accounts.users, _is_user_candidate_approver site a user = true) ∧
    ∃ w', Runs callStep (ApprovedBy accounts site i) w w' ∧
      ∃ a', w'.approvals[i]? = some a' ∧ _is_approved_by_mode a' = .ok true

/-- However its reviewers act, a pending approval can be decided if and only if somebody who was
picked for it exists. -/
theorem decidable_iff_found {sub : Submission} {origin : Origin}
    (horigin : origin.site.users = accounts.users)
    (hstored : (w.next (sub.call origin)).approvals.length = w.approvals.length + 1)
    (hruns : Runs callStep (fun _ c => c.Within accounts w.approvals.length)
      (w.next (sub.call origin)) w')
    (ha : w'.approvals[w.approvals.length]? = some a) (hpending : a.status = .pending) :
    CanBeDecided accounts site w.approvals.length w' ↔ sub.Finds accounts := by
  have hwaiting := hruns.invariant (I := Waiting accounts (sub.Finds accounts) w.approvals.length)
    (fun s c s' hs hc hstep => Option.some.inj hstep ▸ hs.next hc)
    (Submission.waiting horigin hstored)
  obtain ⟨b, hb, hopen⟩ := hwaiting
  obtain rfl := Option.some.inj (ha.symm.trans hb)
  obtain ⟨hopen, hfound⟩ := hopen hpending
  rw [← hfound]
  constructor
  · rintro ⟨b, hb, ⟨user, -, hcandidate⟩, -⟩
    obtain rfl := Option.some.inj (ha.symm.trans hb)
    exact List.ne_nil_of_mem (hopen.candidate_iff.mp hcandidate)
  · intro hsome
    obtain ⟨id, hid⟩ := List.exists_mem_of_ne_nil _ hsome
    obtain ⟨⟨user, huser, rfl⟩, -⟩ := hopen.candidates.mem_cids.mp hid
    exact ⟨a, ha, ⟨user, huser, hopen.candidate_iff.mpr hid⟩,
      approvable ha hpending hopen hsome rfl⟩

/-! Alice submits a script, for Bob or for a user who does not exist. -/

def shop_accounts : Accounts where
  users := [alice, bob]
  id_pos := by decide

def cleanup (approver_id : Int) : Submission :=
  .script_approval { host_id := "1", script_type := "sh", script_content := "cleanup.sh", approver_ids := [approver_id] }

def cleanup_submitted (approver_id : Int) : World :=
  World.next {} ((cleanup approver_id).call from_alice)

theorem cleanup_by_bob :
    CanBeDecided shop_accounts shop 0 (cleanup_submitted 2) ↔ (cleanup 2).Finds shop_accounts := by
  obtain ⟨a, ha, hpending⟩ : ∃ a, (cleanup_submitted 2).approvals[0]? = some a ∧
    a.status = .pending := ⟨_, rfl, rfl⟩
  have hstored : (World.next {} ((cleanup 2).call from_alice)).approvals.length =
    ({} : World).approvals.length + 1 := rfl
  have horigin : from_alice.site.users = shop_accounts.users := rfl
  exact decidable_iff_found horigin hstored (.refl _) ha hpending

/-- Nobody may review the approval. -/
theorem cleanup_by_nobody :
    ∃ a, (cleanup_submitted 3).approvals[0]? = some a ∧ a.status = .pending ∧
    ∀ user ∈ shop_accounts.users, _is_user_candidate_approver shop a user = false := by
  refine ⟨_, rfl, rfl, ?_⟩
  decide

end taurus.ops_approval
