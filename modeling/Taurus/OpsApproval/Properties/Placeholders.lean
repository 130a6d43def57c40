import Taurus.Lib.Transition
import Taurus.OpsApproval.Events

namespace taurus.ops_approval

open taurus.lib taurus.lib.transition taurus.python taurus.engine taurus.ops
open taurus.approval (User)

variable {w : World} {i j k : Nat} {a a' b : Approval} {x : Execution}

/-- The approval waits for its decision with execution `k` as its placeholder. -/
structure Approval.Holds (a : Approval) (k : Nat) : Prop where
  pending : a.status = .pending
  placeholder : a.ops_execution = some k

namespace World

/-- Execution `k` waits for an approval. -/
def Waits (w : World) (k : Nat) : Prop :=
  ∃ x : Execution, w.executions[k]? = some x ∧ x.status = .APPROVING

/-- Execution `k` is the placeholder of the pending approval `i`. -/
def Holds (w : World) (i k : Nat) : Prop := ∃ a : Approval, w.approvals[i]? = some a ∧ a.Holds k

/-- A stored approval holds what its row names. -/
theorem holds_of_stored (ha : w.approvals[i]? = some a) : w.Holds i k ↔ a.Holds k := by
  refine ⟨?_, fun h => ⟨a, ha, h⟩⟩
  rintro ⟨b, hb, h⟩
  exact Option.some.inj (ha.symm.trans hb) ▸ h

/-- Overwriting an approval lets the same executions wait. -/
theorem waits_put : (w.put i a).Waits k ↔ w.Waits k := Iff.rfl

/-- The overwritten one holds what its new row names. -/
theorem holds_put (ha : w.approvals[i]? = some a) :
    (w.put i a').Holds j k ↔ if j = i then a'.Holds k else w.Holds j k := by
  split
  · subst j
    exact holds_of_stored (put_getElem? ha)
  · rename_i hj
    have hne : (w.put i a').approvals[j]? = w.approvals[j]? := List.getElem?_set_ne (Ne.symm hj)
    unfold Holds
    rw [hne]

/-- A new execution is held by nobody. -/
theorem holds_add_execution : (w.add_execution x).Holds i k ↔ w.Holds i k := Iff.rfl

/-- It waits if it is to be approved. -/
theorem waits_add_execution :
    (w.add_execution x).Waits k ↔ w.Waits k ∨ k = w.executions.length ∧ x.status = .APPROVING := by
  unfold Waits add_execution
  dsimp only
  obtain hk | rfl | hk := Nat.lt_trichotomy k w.executions.length
  · rw [List.getElem?_append_left hk]
    simp [Nat.ne_of_lt hk]
  · rw [List.getElem?_concat_length]
    simp
  · rw [List.getElem?_eq_none (by simp; omega), List.getElem?_eq_none (by omega)]
    simp [Nat.ne_of_gt hk]

/-- A new approval lets nothing new wait. -/
theorem waits_add_approval : (w.add_approval a).Waits k ↔ w.Waits k := Iff.rfl

/-- It holds what its row names. -/
theorem holds_add_approval :
    (w.add_approval a).Holds i k ↔ w.Holds i k ∨ i = w.approvals.length ∧ a.Holds k := by
  unfold Holds add_approval
  dsimp only
  obtain hi | rfl | hi := Nat.lt_trichotomy i w.approvals.length
  · rw [List.getElem?_append_left hi]
    simp [Nat.ne_of_lt hi]
  · rw [List.getElem?_concat_length]
    simp
  · rw [List.getElem?_eq_none (by simp; omega), List.getElem?_eq_none (by omega)]
    simp [Nat.ne_of_gt hi]

/-- A status changes nothing held. -/
theorem holds_set_status {status : OpsStatus} :
    (w.set_status j status).Holds i k ↔ w.Holds i k := Iff.rfl

/-- An execution with another status does not wait. -/
theorem waits_set_status {status : OpsStatus} (hstatus : status ≠ .APPROVING) :
    (w.set_status j status).Waits k ↔ k ≠ j ∧ w.Waits k := by
  unfold Waits set_status
  dsimp only
  rw [List.getElem?_modify]
  cases w.executions[k]? with
  | none => simp
  | some x =>
    by_cases hk : k = j
    · subst hk
      simp [hstatus]
    · simp [hk, Ne.symm hk]

/-- Only approvals whose execution runs are ended with it. -/
theorem holds_sync {status : OpsStatus} : (w.sync j status).Holds i k ↔ w.Holds i k := by
  unfold Holds sync
  dsimp only
  rw [List.getElem?_map]
  cases w.approvals[i]? with
  | none => simp
  | some a =>
    simp only [Option.map_some, Option.some.injEq, exists_eq_left']
    unfold Approval.synced
    split
    · rename_i hrunning
      constructor
      · intro h
        have hended := h.pending
        dsimp only at hended
        split at hended <;> cases hended
      · intro h
        have hpending := h.pending
        rw [hrunning.2] at hpending
        cases hpending
    · rfl

end World

/-- Every execution that waits for an approval is the placeholder of a pending one. -/
def Clean (w : World) : Prop := ∀ k, w.Waits k → ∃ i, w.Holds i k

/-- What the quota counts: only placeholders of pending approvals besides the runs themselves, and
nothing once all approvals are decided and all runs have ended. -/
def QuotaExact (w : World) : Prop :=
  Clean w ∧ ((∀ a ∈ w.approvals, a.status ≠ .pending) →
    (∀ x ∈ w.executions, x.status ≠ .PENDING ∧ x.status ≠ .RUNNING) →
    w.executions.countP (·.live) = 0)

/-- The quota is exact when every waiting execution is held by a pending approval. -/
theorem quotaExact_iff_clean : QuotaExact w ↔ Clean w := by
  refine ⟨fun h => h.1, fun hclean => ⟨hclean, fun hdecided hended => ?_⟩⟩
  apply List.countP_eq_zero.mpr
  intro x hx hlive
  obtain ⟨k, hk⟩ := List.mem_iff_getElem?.mp hx
  have hwaits : x.status = .APPROVING := by
    simpa [Execution.live, (hended x hx).1, (hended x hx).2] using hlive
  obtain ⟨i, a, ha, hholds⟩ := hclean k ⟨x, hk, hwaits⟩
  exact hdecided a (List.mem_of_getElem? ha) hholds.pending

/-- The placeholder of a pending approval waits, and no two of them share one. -/
structure Paired (w : World) : Prop where
  waits : ∀ i k, w.Holds i k → w.Waits k
  unique : ∀ i j k, w.Holds i k → w.Holds j k → i = j

/-- The approval of a request that needs one can be stored: its number of hosts is a number, and
the database does not object to the row. -/
def Form.Approvable (form : Form) (origin : Origin) (host : Host) (execution_type : String)
    (params : Parameters) (k : Nat) :
    Prop :=
  form.need_audit = true → ∃ n, form.hosts_count = .ok n ∧
    origin.full_clean (form.approval origin host execution_type params k n) = .ok ()

/-- The requests that leave no placeholder behind: the approval of an accepted one can be
stored, and neither a vote that completes an approval nor a withdrawal is about an
approval with a placeholder. -/
def KeepsClean (w : World) : Event → Prop
  | .request (.execute_command origin request) => ∀ host, request.Accepted origin w host →
    request.toForm.Approvable origin host "command" (request.params origin) w.executions.length
  | .request (.execute_script origin request) => ∀ host, request.Accepted origin w host →
    request.toForm.Approvable origin host "script" (request.params origin) w.executions.length
  | .request (.approve site i user reason now) =>
    ∀ a, w.approvals[i]? = some a → Completes site a user reason now → a.ops_execution = none
  | .request (.cancel site i user _) =>
    ∀ a, w.approvals[i]? = some a → Withdraws a user site → a.ops_execution = none
  | _ => True

/-- The same executions wait for the same approvals. -/
theorem same_pairs {w' : World} (hwaits : ∀ k, w'.Waits k ↔ w.Waits k)
    (hholds : ∀ i k, w'.Holds i k ↔ w.Holds i k) :
    (Paired w' ↔ Paired w) ∧ (Clean w' ↔ Clean w) := by
  have hpaired : Paired w' ↔ Paired w := by
    constructor
    · intro h
      exact ⟨fun i k => by rw [← hholds, ← hwaits]; exact h.waits i k, fun i j k => by
        rw [← hholds, ← hholds]; exact h.unique i j k⟩
    · intro h
      exact ⟨fun i k => by rw [hholds, hwaits]; exact h.waits i k, fun i j k => by
        rw [hholds, hholds]; exact h.unique i j k⟩
  refine ⟨hpaired, ?_⟩
  unfold Clean
  simp only [hwaits, hholds]

/-- Notes on an approval leave both properties. -/
theorem same_pairs_put_noted (ha : w.approvals[i]? = some a) (hnoted : Noted a a') :
    (Paired (w.put i a') ↔ Paired w) ∧ (Clean (w.put i a') ↔ Clean w) := by
  apply same_pairs (fun _ => World.waits_put)
  intro j k
  rw [World.holds_put ha]
  split
  · subst j
    rw [World.holds_of_stored ha]
    exact ⟨fun hk => ⟨hnoted.status ▸ hk.pending, hnoted.ops_execution ▸ hk.placeholder⟩,
      fun hk => ⟨hnoted.status.trans hk.pending, hnoted.ops_execution.trans hk.placeholder⟩⟩
  · rfl

theorem same_pairs_add_execution (hstatus : x.status ≠ .APPROVING) :
    (Paired (w.add_execution x) ↔ Paired w) ∧ (Clean (w.add_execution x) ↔ Clean w) := by
  apply same_pairs _ fun _ _ => World.holds_add_execution
  intro k
  rw [World.waits_add_execution]
  simp [hstatus]

theorem same_pairs_add_approval (hnone : a.ops_execution = none) :
    (Paired (w.add_approval a) ↔ Paired w) ∧ (Clean (w.add_approval a) ↔ Clean w) := by
  apply same_pairs fun _ => World.waits_add_approval
  intro i k
  rw [World.holds_add_approval]
  refine or_iff_left fun h => ?_
  have hplaceholder := h.2.placeholder
  rw [hnone] at hplaceholder
  cases hplaceholder

/-- A decision keeps the pairs. -/
theorem paired_put_decided (hpaired : Paired w) (ha : w.approvals[i]? = some a)
    (hdecided : a'.status ≠ .pending) :
    Paired (w.put i a') := by
  have hholds : ∀ {j k}, (w.put i a').Holds j k → w.Holds j k := by
    intro j k h
    rw [World.holds_put ha] at h
    split at h
    · exact absurd h.pending hdecided
    · exact h
  exact ⟨fun j k h => hpaired.waits j k (hholds h),
    fun j l k hj hl => hpaired.unique j l k (hholds hj) (hholds hl)⟩

/-- A decision leaves the placeholder of its approval behind, if there is one. -/
theorem clean_put_decided (hpaired : Paired w) (hclean : Clean w) (ha : w.approvals[i]? = some a)
    (hpending : a.status = .pending) (hdecided : a'.status ≠ .pending) :
    Clean (w.put i a') ↔ a.ops_execution = none := by
  constructor
  · intro h
    by_contra hplaceholder
    obtain ⟨k, hk⟩ := Option.ne_none_iff_exists'.mp hplaceholder
    have hholds : w.Holds i k := ⟨a, ha, hpending, hk⟩
    obtain ⟨j, hj⟩ := h k (hpaired.waits i k hholds)
    rw [World.holds_put ha] at hj
    split at hj
    · exact hdecided hj.pending
    · exact ‹j ≠ i› (hpaired.unique j i k hj hholds)
  · intro hnone k hwaits
    obtain ⟨j, hj⟩ := hclean k hwaits
    refine ⟨j, (World.holds_put ha).mpr ?_⟩
    rw [if_neg]
    · exact hj
    · rintro rfl
      have hplaceholder := ((World.holds_of_stored ha).mp hj).placeholder
      rw [hnone] at hplaceholder
      cases hplaceholder

/-- A rejection refuses the placeholder together with the approval. -/
theorem rejected_pairs (hpaired : Paired w) (hclean : Clean w) (ha : w.approvals[i]? = some a)
    (hpending : a.status = .pending) (hdecided : a'.status ≠ .pending) :
    Paired ((w.put i a').refuse a) ∧ Clean ((w.put i a').refuse a) := by
  have hput := paired_put_decided hpaired ha hdecided
  unfold World.refuse
  cases hplaceholder : a.ops_execution with
  | none => exact ⟨hput, (clean_put_decided hpaired hclean ha hpending hdecided).mpr hplaceholder⟩
  | some k =>
    have hholds : w.Holds i k := ⟨a, ha, hpending, hplaceholder⟩
    have hwaits : ∀ l, ((w.put i a').set_status k .REJECTED).Waits l ↔ l ≠ k ∧ w.Waits l :=
      fun l => World.waits_set_status (by decide)
    constructor
    · refine ⟨fun j l h => (hwaits l).mpr ⟨?_, hput.waits j l h⟩, hput.unique⟩
      rintro rfl
      have h : (w.put i a').Holds j l := h
      rw [World.holds_put ha] at h
      split at h
      · exact hdecided h.pending
      · exact ‹j ≠ i› (hpaired.unique j i l h hholds)
    · intro l hl
      obtain ⟨hne, hl⟩ := (hwaits l).mp hl
      obtain ⟨j, hj⟩ := hclean l hl
      refine ⟨j, (World.holds_put ha).mpr ?_⟩
      rw [if_neg]
      · exact hj
      · rintro rfl
        have hplaceholder' := ((World.holds_of_stored ha).mp hj).placeholder
        exact hne (Option.some.inj (hplaceholder'.symm.trans hplaceholder))

/-- A placeholder comes together with the approval that it waits for. -/
theorem waiting_pairs (hpaired : Paired w) (hclean : Clean w) (hx : x.status = .APPROVING)
    (ha : a.Holds w.executions.length) :
    Paired ((w.add_execution x).add_approval a) ∧ Clean ((w.add_execution x).add_approval a) := by
  have hfresh : ∀ i, ¬w.Holds i w.executions.length := by
    intro i h
    obtain ⟨y, hy, -⟩ := hpaired.waits i _ h
    exact absurd (List.getElem?_eq_some_iff.mp hy).1 (Nat.lt_irrefl _)
  have hwaits : ∀ k, ((w.add_execution x).add_approval a).Waits k ↔
      w.Waits k ∨ k = w.executions.length := by
    intro k
    rw [World.waits_add_approval, World.waits_add_execution]
    simp [hx]
  have hholds : ∀ i k, ((w.add_execution x).add_approval a).Holds i k ↔
      w.Holds i k ∨ i = w.approvals.length ∧ k = w.executions.length := by
    intro i k
    rw [World.holds_add_approval, World.holds_add_execution]
    refine or_congr_right (and_congr_right fun _ => ⟨fun h => ?_, fun h => h ▸ ha⟩)
    exact Option.some.inj (h.placeholder.symm.trans ha.placeholder)
  constructor
  · constructor
    · intro i k h
      rw [hwaits]
      obtain h | ⟨-, rfl⟩ := (hholds i k).mp h
      · exact Or.inl (hpaired.waits i k h)
      · exact Or.inr rfl
    · intro i j k hi hj
      rcases (hholds i k).mp hi with hi | ⟨hi, hk⟩ <;> rcases (hholds j k).mp hj with hj | ⟨hj, hk'⟩
      · exact hpaired.unique i j k hi hj
      · exact absurd (hk' ▸ hi) (hfresh i)
      · exact absurd (hk ▸ hj) (hfresh j)
      · exact hi.trans hj.symm
  · intro k hk
    obtain hk | rfl := (hwaits k).mp hk
    · obtain ⟨i, hi⟩ := hclean k hk
      exact ⟨i, (hholds i k).mpr (Or.inl hi)⟩
    · exact ⟨_, (hholds _ _).mpr (Or.inr ⟨rfl, rfl⟩)⟩

/-- A placeholder without an approval waits for ever. -/
theorem orphaned_pairs (hpaired : Paired w) (hx : x.status = .APPROVING) :
    Paired (w.add_execution x) ∧ ¬Clean (w.add_execution x) := by
  refine ⟨⟨fun i k h => ?_, hpaired.unique⟩, fun hclean => ?_⟩
  · exact World.waits_add_execution.mpr (Or.inl (hpaired.waits i k h))
  · obtain ⟨i, h⟩ := hclean w.executions.length (World.waits_add_execution.mpr (Or.inr ⟨rfl, hx⟩))
    obtain ⟨y, hy, -⟩ := hpaired.waits i _ h
    exact absurd (List.getElem?_eq_some_iff.mp hy).1 (Nat.lt_irrefl _)

/-- A submission keeps the pairs; its placeholder is held only if the approval can be stored. -/
theorem submitted_pairs (hpaired : Paired w) (hclean : Clean w) (form : Form)
    (origin : Origin) (host : Host) (execution_type : String) (params : Parameters) :
    Paired (w.submitted form origin host execution_type params) ∧
      (Clean (w.submitted form origin host execution_type params) ↔
        form.Approvable origin host execution_type params w.executions.length) := by
  unfold World.submitted Form.Approvable
  cases haudit : form.need_audit with
  | true =>
    have hwaits : (form.execution origin host execution_type params).status = .APPROVING := by
      simp [Form.execution, haudit]
    obtain ⟨horphaned, hnot⟩ := orphaned_pairs hpaired hwaits
    simp only [if_true, forall_const]
    unfold Form.checked_approval
    cases hcount : form.hosts_count with
    | error err => exact ⟨horphaned, iff_of_false hnot fun ⟨n, hn, _⟩ => by cases hn⟩
    | ok n =>
      simp only [bind, Except.bind]
      cases hrow : origin.full_clean
        (form.approval origin host execution_type params w.executions.length n) with
      | error err =>
        refine ⟨horphaned, iff_of_false hnot fun ⟨m, hm, hstored⟩ => ?_⟩
        rw [← Except.ok.inj hm, hrow] at hstored
        cases hstored
      | ok _ =>
        obtain ⟨hboth, hkept⟩ := waiting_pairs hpaired hclean hwaits
          (a := form.approval origin host execution_type params w.executions.length n) ⟨rfl, rfl⟩
        exact ⟨hboth, iff_of_true hkept ⟨n, rfl, hrow⟩⟩
  | false =>
    have hsame :=
      same_pairs_add_execution (w := w) (x := form.execution origin host execution_type params)
      (by simp [Form.execution, haudit])
    exact ⟨hsame.1.mpr hpaired, iff_of_true (hsame.2.mpr hclean) fun hc => by cases hc⟩

/-- Starts and ends of executions keep both. -/
theorem progress_pairs (status : OpsStatus) :
    (Paired w → Paired (w.progress k status)) ∧ (Clean w → Clean (w.progress k status)) := by
  unfold World.progress
  cases hx : w.executions[k]? with
  | none => exact ⟨id, id⟩
  | some x =>
    dsimp only
    split
    · rename_i hruns
      have hstatus : status ≠ .APPROVING := by
        rintro rfl
        rcases hruns.2 with hc | hc <;> cases hc
      have hnot : ¬w.Waits k := by
        rintro ⟨y, hy, hwaits⟩
        obtain rfl := Option.some.inj (hx.symm.trans hy)
        rcases hruns.1 with hc | hc <;> rw [hc] at hwaits <;> cases hwaits
      have hwaits : ∀ l, (w.set_status k status).Waits l ↔ w.Waits l := by
        intro l
        rw [World.waits_set_status hstatus]
        refine and_iff_right_of_imp fun hl => ?_
        rintro rfl
        exact hnot hl
      split
      · have hsynced : ∀ l, ((w.set_status k status).sync k status).Waits l ↔ w.Waits l := hwaits
        have hsame := same_pairs hsynced fun _ _ => World.holds_sync
        exact ⟨hsame.1.mpr, hsame.2.mpr⟩
      · have hsame := same_pairs hwaits fun _ _ => World.holds_set_status
        exact ⟨hsame.1.mpr, hsame.2.mpr⟩
    · exact ⟨id, id⟩

theorem joined_pairs {site : Site} {user : User} {w' : World} (hpaired : Paired w)
    (hclean : Clean w) (h : w' = w ∨ ∃ a a', w.approvals[i]? = some a ∧ Joined site user a a' ∧
      w' = w.put i a') : Paired w' ∧ Clean w' := by
  obtain rfl | ⟨a, a', ha, hjoined, rfl⟩ := h
  · exact ⟨hpaired, hclean⟩
  · have hsame := same_pairs_put_noted ha hjoined.noted
    exact ⟨hsame.1.mpr hpaired, hsame.2.mpr hclean⟩

/-- A vote keeps the pairs, and the placeholders clean exactly if it completes no
approval that has one. -/
theorem approve_pairs {site : Site} {user : User} {reason : String} {now : Time}
    (hpaired : Paired w) (hclean : Clean w) :
    Paired (w.next (.approve site i user reason now)) ∧
      (Clean (w.next (.approve site i user reason now)) ↔
        KeepsClean w (.request (.approve site i user reason now))) := by
  by_cases hvotes : ∃ a, w.approvals[i]? = some a ∧ Votes site a user
  · obtain ⟨a, ha, hvotes⟩ := hvotes
    have hpending : a.status = .pending := hvotes.1.1
    have hkeeps : KeepsClean w (.request (.approve site i user reason now)) ↔
        (Completes site a user reason now → a.ops_execution = none) := by
      refine ⟨fun h => h a ha, fun h b hb => ?_⟩
      obtain rfl := Option.some.inj (ha.symm.trans hb)
      exact h
    rw [hkeeps, after_approve ha hvotes]
    cases hmode : _is_approved_by_mode (a.add_record (user.record .approve reason now)) with
    | error err => exact ⟨hpaired, iff_of_true hclean fun hc => by cases hmode.symm.trans hc.2⟩
    | ok approved =>
      cases approved with
      | false =>
        have hnoted : Noted a (a.add_record (user.record .approve reason now)) :=
          ⟨rfl, rfl, rfl, rfl⟩
        have hsame := same_pairs_put_noted ha hnoted
        exact ⟨hsame.1.mpr hpaired,
          iff_of_true (hsame.2.mpr hclean) fun hc => by cases hmode.symm.trans hc.2⟩
      | true =>
        have hcompletes : Completes site a user reason now := ⟨hvotes, hmode⟩
        rw [forall_prop_of_true hcompletes]
        dsimp only
        cases hlaunch : launch site w (granted a user reason now) user with
        | error err =>
          have hdecided : ({ granted a user reason now with status := .failed } : Approval).status ≠ .pending := fun hc => by cases hc
          exact ⟨paired_put_decided hpaired ha hdecided,
            clean_put_decided hpaired hclean ha hpending hdecided⟩
        | ok x =>
          obtain ⟨host, -, -, rfl⟩ := launch_row hlaunch
          have hsame :=
            same_pairs_add_execution (w := w)
              (x := approved_execution (granted a user reason now) host user)
            (by simp [approved_execution])
          have hdecided : (launched
            (granted a user reason now) w.executions.length).status ≠ .pending := by
            simp [launched]
          exact ⟨paired_put_decided (hsame.1.mpr hpaired) ha hdecided,
            clean_put_decided (hsame.1.mpr hpaired) (hsame.2.mpr hclean) ha hpending hdecided⟩
  · have hnot : ∀ a, w.approvals[i]? = some a → ¬Votes site a user :=
      fun a ha hc => hvotes ⟨a, ha, hc⟩
    rw [after_approve_of_not_votes hnot]
    exact ⟨hpaired, iff_of_true hclean fun a ha hc => absurd hc.1 (hnot a ha)⟩

/-- A rejection keeps both: it refuses the placeholder. -/
theorem reject_pairs {site : Site} {user : User} {reason : String} {now : Time} (hpaired : Paired w)
    (hclean : Clean w) :
    Paired (w.next (.reject site i user reason now)) ∧
      Clean (w.next (.reject site i user reason now)) := by
  by_cases h : ∃ a, w.approvals[i]? = some a ∧ Reviews site a user ∧ reason ≠ ""
  · obtain ⟨a, ha, hreviews, hreason⟩ := h
    rw [after_reject ha hreviews hreason]
    exact rejected_pairs hpaired hclean ha hreviews.1 (by simp [turned_down, Approval.decide])
  · rw [after_reject_of_not fun a ha hreviews => by_contra
      fun hreason => h ⟨a, ha, hreviews, hreason⟩]
    exact ⟨hpaired, hclean⟩

/-- A withdrawal leaves its placeholder waiting. -/
theorem cancel_pairs {site : Site} {user : User} {now : Time} (hpaired : Paired w)
    (hclean : Clean w) :
    Paired (w.next (.cancel site i user now)) ∧
      (Clean (w.next (.cancel site i user now)) ↔
        KeepsClean w (.request (.cancel site i user now))) := by
  by_cases h : ∃ a, w.approvals[i]? = some a ∧ Withdraws a user site
  · obtain ⟨a, ha, hwithdraws⟩ := h
    have hkeeps : KeepsClean w (.request (.cancel site i user now)) ↔ a.ops_execution = none := by
      refine ⟨fun hc => hc a ha hwithdraws, fun hc b hb _ => ?_⟩
      obtain rfl := Option.some.inj (ha.symm.trans hb)
      exact hc
    rw [hkeeps, after_cancel ha hwithdraws]
    have hdecided : ({ a with status := .cancelled, finish_time := some now } : Approval).status ≠ .pending := fun hc => by cases hc
    exact ⟨paired_put_decided hpaired ha hdecided,
      clean_put_decided hpaired hclean ha hwithdraws.1 hdecided⟩
  · have hnot : ∀ a, w.approvals[i]? = some a → ¬Withdraws a user site :=
      fun a ha hc => h ⟨a, ha, hc⟩
    rw [after_cancel_of_not hnot]
    exact ⟨hpaired, iff_of_true hclean fun a ha hc => absurd hc (hnot a ha)⟩

/-- What one event does to the placeholders. -/
theorem react_pairs (hpaired : Paired w) (hclean : Clean w) (event : Event) :
    Paired (w.react event) ∧ (Clean (w.react event) ↔ KeepsClean w event) := by
  have hkept : ∀ {w' : World}, Paired w' ∧ Clean w' → Paired w' ∧ (Clean w' ↔ True) :=
    fun h => ⟨h.1, iff_of_true h.2 trivial⟩
  cases event with
  | progress k status =>
    exact hkept ⟨(progress_pairs status).1 hpaired, (progress_pairs status).2 hclean⟩
  | request c =>
    cases c with
    | execute_command origin request =>
      change Paired (w.next _) ∧ (Clean (w.next _) ↔ _)
      rcases after_execute_command w origin request with ⟨hrefused, heq⟩ |
        ⟨host, haccepted, heq⟩ <;> rw [heq]
      · exact ⟨hpaired, iff_of_true hclean fun host h => absurd h (hrefused host)⟩
      · obtain ⟨hboth, hiff⟩ := submitted_pairs hpaired hclean request.toForm origin host "command"
          (request.params origin)
        refine ⟨hboth, hiff.trans ⟨fun h host' h' => ?_, fun h => h host haccepted⟩⟩
        obtain rfl := Option.some.inj (haccepted.found.symm.trans h'.found)
        exact h
    | execute_script origin request =>
      change Paired (w.next _) ∧ (Clean (w.next _) ↔ _)
      rcases after_execute_script w origin request with ⟨hrefused, heq⟩ | ⟨host, haccepted, heq⟩ <;>
        rw [heq]
      · exact ⟨hpaired, iff_of_true hclean fun host h => absurd h (hrefused host)⟩
      · obtain ⟨hboth, hiff⟩ := submitted_pairs hpaired hclean request.toForm origin host "script"
          (request.params origin)
        refine ⟨hboth, hiff.trans ⟨fun h host' h' => ?_, fun h => h host haccepted⟩⟩
        obtain rfl := Option.some.inj (haccepted.found.symm.trans h'.found)
        exact h
    | submit_script_approval origin request =>
      apply hkept
      change Paired (w.next _) ∧ Clean (w.next _)
      rcases after_submit_script_approval w origin request with heq | ⟨host, n, heq⟩ <;> rw [heq]
      · exact ⟨hpaired, hclean⟩
      · have hsame :=
          same_pairs_add_approval (w := w) (a := request.script_approval origin host n) rfl
        exact ⟨hsame.1.mpr hpaired, hsame.2.mpr hclean⟩
    | approve site i user reason now => exact approve_pairs hpaired hclean
    | reject site i user reason now => exact hkept (reject_pairs hpaired hclean)
    | delegate site i user to_user_id reason now =>
      exact hkept (joined_pairs hpaired hclean after_delegate)
    | add_sign site i user user_ids reason now =>
      exact hkept (joined_pairs hpaired hclean after_add_sign)
    | cancel site i user now => exact cancel_pairs hpaired hclean

/-- Empty tables have both. -/
theorem empty_pairs : Paired {} ∧ Clean {} := by
  have hnone : ∀ i k, ¬({} : World).Holds i k := by
    rintro i k ⟨a, ha, -⟩
    cases ha
  refine ⟨⟨fun i k h => absurd h (hnone i k), fun i j k h => absurd h (hnone i k)⟩, ?_⟩
  rintro k ⟨x, hx, -⟩
  cases hx

/-- From empty tables on, the quota counts exactly what it should in every state of a run, if and
only if no step of the run leaves a placeholder behind. -/
theorem quota_exact_iff (events : List Event) :
    Along World.react (fun w event => QuotaExact (w.react event)) {} events ↔
      Along World.react KeepsClean {} events := by
  refine Along.iff_of_invariant (J := fun w => Paired w ∧ Clean w) ?_ ?_ empty_pairs
  · rintro w event ⟨hpaired, hclean⟩ hexact
    exact ⟨(react_pairs hpaired hclean event).1, quotaExact_iff_clean.mp hexact⟩
  · rintro w event ⟨hpaired, hclean⟩
    rw [quotaExact_iff_clean]
    exact (react_pairs hpaired hclean event).2

/-! Alice submits a command, and Bob approves it. -/

def uptime : CommandRequest :=
  { host_id := "1", command := "uptime", need_audit := true, approver_ids := [2] }

def approved_command : List Event :=
  [.request (.execute_command from_alice uptime), .request (.approve shop 0 bob "" 0)]

theorem approved_command_statuses :
    let w := (({} : World).react (.request (.execute_command from_alice uptime))).react
      (.request (.approve shop 0 bob "" 0))
    w.executions.map (·.status) = [.APPROVING, .PENDING] ∧
        w.approvals.map (·.status) = [.executing] := by
  decide +kernel

/-- The command's placeholder is still there when its approval has been decided. -/
theorem placeholder_outlives_approval :
    ¬Along World.react (fun w event => QuotaExact (w.react event)) {} approved_command := by
  rintro ⟨-, ⟨hclean, -⟩, -⟩
  obtain ⟨hexecutions, happrovals⟩ := approved_command_statuses
  obtain ⟨x, xs, hstored, hwaits, -⟩ := List.map_eq_cons_iff.mp hexecutions
  obtain ⟨i, a, ha, hholds⟩ := hclean 0 ⟨x, by rw [hstored]; rfl, hwaits⟩
  have hstatus : a.status ∈ [ApprovalStatus.executing] :=
    happrovals ▸ List.mem_map_of_mem (List.mem_of_getElem? ha)
  rw [List.mem_singleton, hholds.pending] at hstatus
  cases hstatus

end taurus.ops_approval
