import Taurus.Approval.Progress

namespace taurus.approval

open taurus.lib taurus.lib.transition taurus.engine

variable {w w' : World} {i j : Nat} {a : Approval}

/-- What happens to a script: a call of its approval engine, or a change of its content, which
gives it another version. -/
inductive ScriptEvent where
  | call (c : Call)
  | edit (script : Subject)

def ScriptEvent.step (w : World) : ScriptEvent → Option World
  | .call c => some (w.next .script c)
  | .edit script =>
    if script.version ≠ w.subject.version then some { w with subject := script } else none

/-- A submission is started and the content is changed only while no submission is pending. -/
def OneAtATime (w : World) : ScriptEvent → Prop
  | .call c => c.starts = true → ∀ i, ¬w.Pending i
  | .edit _ => ∀ i, ¬w.Pending i

/-- The pending instance is the only one, and was submitted for the current version. -/
def Current (w : World) : Prop :=
  ∀ i a, w.approvals[i]? = some a → a.row.status = .pending →
    a.row.version = w.subject.version ∧ ∀ j, w.Pending j → j = i

/-- A request keeps the submitted version current while one review runs at a time. -/
theorem current_call (hw : w.Laid) (hcurrent : Current w) {c : Call} (hc : OneAtATime w (.call c)) :
    Current (w.next .script c) := by
  have hpending : ∀ {j}, (w.next .script c).Pending j → w.Pending j ∨
      j = w.approvals.length ∧ ∀ i, ¬w.Pending i := by
    rintro j ⟨b, hb, hpending⟩
    obtain ⟨a, ha, hprogress⟩ | ⟨hj, dir, sub, p, rfl, _⟩ := stored_or_started hw hb
    · exact Or.inl ⟨a, ha, hprogress.row.2 hpending⟩
    · exact Or.inr ⟨hj, hc rfl⟩
  intro i b hb hpendingB
  rw [next_version hw]
  obtain ⟨a, ha, hprogress⟩ | ⟨hi, dir, sub, p, rfl, hplan, rfl⟩ := stored_or_started hw hb
  · obtain ⟨hversion, honly⟩ := hcurrent i a ha (hprogress.row.2 hpendingB)
    refine ⟨hprogress.row.1.trans hversion, fun j hj => ?_⟩
    obtain hj | ⟨_, hnone⟩ := hpending hj
    · exact honly j hj
    · exact absurd ⟨a, ha, hprogress.row.2 hpendingB⟩ (hnone i)
  · refine ⟨rfl, fun j hj => ?_⟩
    obtain hj | ⟨hj, _⟩ := hpending hj
    · exact absurd hj (hc rfl j)
    · exact hj.trans hi.symm

theorem current_step {event : ScriptEvent} (h : w.Laid ∧ Current w) (hevent : OneAtATime w event)
    (hstep : event.step w = some w') : w'.Laid ∧ Current w' := by
  obtain ⟨hw, hcurrent⟩ := h
  cases event with
  | call c =>
    obtain rfl := Option.some.inj hstep
    exact ⟨laid_next hw c, current_call hw hcurrent hevent⟩
  | edit script =>
    obtain ⟨_, hsome⟩ := Option.ite_none_right_eq_some.mp hstep
    obtain rfl := Option.some.inj hsome
    exact ⟨hw, fun i a ha hpending => absurd ⟨a, ha, hpending⟩ (hevent i)⟩

/-- An approval that completes the review of instance `i` and so activates the script. -/
def Activates (w w' : World) (i : Nat) : Prop :=
  w.Pending i ∧ ∃ a, w'.approvals[i]? = some a ∧ a.row.status = .approved

/-- An approval that activates a version enables the script. -/
theorem enabled_of_activates {approver : User} {reason : String} {now : Time} (hw : w.Laid)
    (h : Activates w (w.next .script (.approve i approver reason now)) i) :
    (w.next .script (.approve i approver reason now)).subject.status = .enabled := by
  obtain ⟨⟨a, ha, hpending⟩, b, hb, happroved⟩ := h
  have hlt := (List.getElem?_eq_some_iff.mp ha).1
  have hrow : ∀ {a' : Approval} {row : Instance} {n n' : NodeExecution}, w.At i a' n →
      (w.put i a' row n').approvals[i]? = some b → row.status = .approved := by
    intro a' row n n' hat hput
    rw [World.put_getElem? hlt] at hput
    obtain rfl := Option.some.inj hput
    exact happroved
  have heffect := effect (e := .script) hw (.approve i approver reason now)
  generalize w.next .script (.approve i approver reason now) = w' at heffect hb
  cases heffect with
  | stopped =>
    obtain rfl := Option.some.inj (ha.symm.trans hb)
    rw [hpending] at happroved
    cases happroved
  | recorded hat =>
    have := hrow hat hb
    rw [hat.pending] at this
    cases this
  | passed hat =>
    have := hrow hat hb
    rw [Instance.move_to, hat.pending] at this
    cases this
  | granted => rfl

/-- As long as submissions come one at a time, an approval activates the script only with the
version that was submitted, and leaves no other submission pending. -/
theorem approved_version_current {script : Subject}
    (hruns : Runs (fun w event => ScriptEvent.step w event) OneAtATime { subject := script } w)
    {i : Nat} {approver : User} {reason : String} {now : Time}
    (hactivates : Activates w (w.next .script (.approve i approver reason now)) i) :
    (w.next .script (.approve i approver reason now)).subject.status = .enabled ∧
      (∃ a, (w.next .script (.approve i approver reason now)).approvals[i]? = some a ∧
        a.row.status = .approved ∧
        a.row.version = (w.next .script (.approve i approver reason now)).subject.version) ∧
      ∀ j, ¬(w.next .script (.approve i approver reason now)).Pending j := by
  have hempty : ({ subject := script } : World).Laid ∧ Current { subject := script } :=
    ⟨fun a ha => (by cases ha), fun i a ha => (by cases ha)⟩
  obtain ⟨hw, hcurrent⟩ := hruns.invariant (I := fun w => w.Laid ∧ Current w)
    (fun _ _ _ h hevent hstep => current_step h hevent hstep) hempty
  have henabled := enabled_of_activates hw hactivates
  obtain ⟨⟨a, ha, hpending⟩, b, hb, happroved⟩ := hactivates
  obtain ⟨hversion, honly⟩ := hcurrent i a ha hpending
  have hlt := (List.getElem?_eq_some_iff.mp ha).1
  refine ⟨henabled, ?_, ?_⟩
  · refine ⟨b, hb, happroved, ?_⟩
    rw [next_version hw]
    obtain ⟨a', ha', hprogress⟩ | ⟨hi, _⟩ := stored_or_started hw hb
    · obtain rfl := Option.some.inj (ha.symm.trans ha')
      exact hprogress.row.1.trans hversion
    · omega
  · rintro j ⟨d, hd, hpendingD⟩
    obtain ⟨a', ha', hprogress⟩ | ⟨_, _, _, _, hcall, _⟩ := stored_or_started hw hd
    · obtain rfl := honly j ⟨a', ha', hprogress.row.2 hpendingD⟩
      obtain rfl := Option.some.inj (hb.symm.trans hd)
      rw [happroved] at hpendingD
      cases hpendingD
    · cases hcall

/-! A script is submitted, changed and approved. -/

def approver : User := { id := 9, username := "root", name := "Root", is_superuser := true }

def approvers_only : Directory where
  users := [approver]
  ids_nodup := by decide

def first_version : Subject := { status := .enabled, version := "V1.0", need_audit := true }

def second_version : Subject := { status := .enabled, version := "V2.0", need_audit := true }

def submission : ScriptEvent :=
  .call (.start_approval approvers_only { rule := none, submitter := approver })

def submitted_script : World := World.next .script { subject := first_version }
  (.start_approval approvers_only { rule := none, submitter := approver })

theorem submitted_once_activates :
    (submitted_script.next .script (.approve 0 approver "" 0)).subject.status = .enabled := by
  have hruns : Runs (fun w event => ScriptEvent.step w event) OneAtATime
      { subject := first_version } submitted_script :=
    .head (a := submission) (fun _ i ⟨a, ha, _⟩ => by cases ha) rfl (.refl _)
  exact (approved_version_current hruns ⟨⟨_, rfl, rfl⟩, _, rfl, rfl⟩).1

/-- The content was changed while the submission was pending: the approval of the first version
activates the second one. -/
theorem stale_version_activated :
    ∃ w a, Runs (fun w event => ScriptEvent.step w event) (fun _ _ => True)
      { subject := first_version } w ∧
      Activates w (w.next .script (.approve 0 approver "" 0)) 0 ∧
      (w.next .script (.approve 0 approver "" 0)).approvals[0]? = some a ∧
      (w.next .script (.approve 0 approver "" 0)).subject.status = .enabled ∧
      a.row.version ≠ (w.next .script (.approve 0 approver "" 0)).subject.version := by
  refine ⟨{ submitted_script with subject := second_version }, _, ?_,
    ⟨⟨_, rfl, rfl⟩, _, rfl, rfl⟩, rfl, rfl, ?_⟩
  swap
  · change "V1.0" ≠ "V2.0"
    decide
  refine .head (a := submission) trivial rfl
    (.head (a := .edit second_version) trivial ?_ (.refl _))
  have hchanged : second_version.version ≠ submitted_script.subject.version := by
    change "V2.0" ≠ "V1.0"
    decide
  simp only [ScriptEvent.step]
  exact if_pos hchanged

end taurus.approval
