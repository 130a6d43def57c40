import Taurus.Approval.Votes
import Taurus.Lib.Transition

namespace taurus.approval

open taurus.lib taurus.lib.transition taurus.engine

variable {e : Engine} {w w' : World} {i : Nat} {a a' : Approval} {n : NodeExecution}

namespace Approval

/-- The approval after its row and its current node were saved. -/
def put (a : Approval) (row : Instance) (n : NodeExecution) : Approval :=
  { row, nodes := a.nodes.set a.row.current_node_index n }

/-- The instance is pending at the node `n`. -/
structure At (a : Approval) (n : NodeExecution) : Prop where
  pending : a.row.status = .pending
  current : a.nodes[a.row.current_node_index]? = some n

/-- What one call can do to one stored instance. -/
inductive Progress (a : Approval) : Approval → Prop where
  | same : Progress a a
  | recorded {n : NodeExecution} {user : User} {reason : String} {now : Time} (hat : a.At n)
      (hcandidate : _is_user_approver n user = true) (hfirst : has_decided n user = false)
      (hopen : _is_node_approved (n.add_record (user.record .approve reason now)) = false) :
      Progress a (a.put a.row (n.add_record (user.record .approve reason now)))
  | passed {n : NodeExecution} {user : User} {reason : String} {now : Time} (hat : a.At n)
      (hcandidate : _is_user_approver n user = true) (hfirst : has_decided n user = false)
      (happroved : _is_node_approved (n.add_record (user.record .approve reason now)) = true)
      (hnext : a.row.current_node_index + 1 < a.nodes.length) :
      Progress a (a.put (a.row.move_to (a.row.current_node_index + 1))
        ((n.add_record (user.record .approve reason now)).finish .approved now))
  | granted {n : NodeExecution} {user : User} {reason : String} {now : Time} (hat : a.At n)
      (hcandidate : _is_user_approver n user = true) (hfirst : has_decided n user = false)
      (happroved : _is_node_approved (n.add_record (user.record .approve reason now)) = true)
      (hlast : a.nodes.length = a.row.current_node_index + 1) :
      Progress a (a.put (a.row.finish .approved now)
        ((n.add_record (user.record .approve reason now)).finish .approved now))
  | rejected {n : NodeExecution} {user : User} {reason : String} {now : Time} (hat : a.At n)
      (hcandidate : _is_user_approver n user = true) (hfirst : has_decided n user = false) :
      Progress a (a.put (a.row.finish .rejected now)
        ((n.add_record (user.record .reject reason now)).finish .rejected now))
  | cancelled {now : Time} (hpending : a.row.status = .pending) :
      Progress a { a with row := a.row.finish .cancelled now }
  | extended {n n' : NodeExecution} (hat : a.At n) (hextends : n.Extends n') :
    Progress a (a.put a.row n')

end Approval

open Approval (Progress)

/-- The current node of the state is that of its approval. -/
theorem World.At.local (hat : w.At i a n) : a.At n := ⟨hat.pending, hat.current⟩

theorem World.put_getElem? {row : Instance} (hi : i < w.approvals.length) :
    (w.put i a row n).approvals[i]? = some (a.put row n) := List.getElem?_set_self hi

/-- Every stored instance makes one step of progress, and no instance is lost. -/
theorem progress (hw : w.Laid) (c : Call) (ha : w.approvals[i]? = some a) :
    ∃ a', (w.next e c).approvals[i]? = some a' ∧ a.Progress a' := by
  have hi : i < w.approvals.length := (List.getElem?_eq_some_iff.mp ha).1
  have hset : ∀ {j : Nat} {b b' : Approval}, w.approvals[j]? = some b → b.Progress b' →
      ∃ a', (w.approvals.set j b')[i]? = some a' ∧ a.Progress a' := by
    intro j b b' hb hprogress
    by_cases hj : j = i
    · subst hj
      obtain rfl := Option.some.inj (ha.symm.trans hb)
      exact ⟨b', List.getElem?_set_self hi, hprogress⟩
    · exact ⟨a, (List.getElem?_set_ne hj).trans ha, .same⟩
  have hadd : ∀ (row : Instance) (nodes : List NodeExecution),
      ∃ a', (w.add row nodes).approvals[i]? = some a' ∧ a.Progress a' := fun row nodes =>
    ⟨a, (List.getElem?_append_left hi).trans ha, .same⟩
  have heffect := effect (e := e) hw c
  generalize w.next e c = w' at heffect
  cases heffect with
  | stopped => exact ⟨a, ha, .same⟩
  | recorded hat hcandidate hfirst hopen =>
    exact hset hat.stored (.recorded hat.local hcandidate hfirst hopen)
  | passed hat hcandidate hfirst happroved hnext =>
    exact hset hat.stored (.passed hat.local hcandidate hfirst happroved hnext)
  | granted hat hcandidate hfirst happroved hlast =>
    exact hset hat.stored (.granted hat.local hcandidate hfirst happroved hlast)
  | rejected hat hcandidate hfirst => exact hset hat.stored (.rejected hat.local hcandidate hfirst)
  | cancelled hstored hpending => exact hset hstored (.cancelled hpending)
  | delegated hat => exact hset hat.stored (.extended hat.local (NodeExecution.extends_delegated _))
  | extended hat =>
    exact hset hat.stored (.extended hat.local (NodeExecution.extends_extended _ _ _))
  | not_needed => exact ⟨a, ha, .same⟩
  | started => exact hadd _ _
  | broken => exact hadd _ _

/-- Every instance after a call was there before or is the one that the call starts. -/
theorem stored_or_started (hw : w.Laid) {c : Call} (ha' : (w.next e c).approvals[i]? = some a') :
    (∃ a, w.approvals[i]? = some a ∧ a.Progress a') ∨
      i = w.approvals.length ∧ ∃ dir sub p, c = .start_approval dir sub ∧
        plan e dir w.subject sub = some p ∧
        a' = { row := new_instance w.subject sub p.rule_name, nodes := created 0 p.nodes } := by
  by_cases hi : i < w.approvals.length
  · have ha := List.getElem?_eq_getElem hi
    obtain ⟨b, hb, hprogress⟩ := progress (e := e) hw c ha
    obtain rfl := Option.some.inj (hb.symm.trans ha')
    exact Or.inl ⟨_, ha, hprogress⟩
  · have hset : ∀ {j : Nat} {b : Approval}, (w.approvals.set j b)[i]? ≠ some a' := by
      intro j b hc
      have hlt := (List.getElem?_eq_some_iff.mp hc).1
      rw [List.length_set] at hlt
      exact hi hlt
    have hadd : ∀ {row : Instance} {nodes : List NodeExecution},
      (w.add row nodes).approvals[i]? = some a' →
        i = w.approvals.length ∧ a' = { row, nodes } := by
      intro row nodes hc
      have hc : (w.approvals ++ [({ row, nodes } : Approval)])[i]? = some a' := hc
      have hlt := (List.getElem?_eq_some_iff.mp hc).1
      rw [List.length_append, List.length_singleton] at hlt
      obtain rfl : i = w.approvals.length := by omega
      rw [List.getElem?_concat_length] at hc
      exact ⟨rfl, (Option.some.inj hc).symm⟩
    have hold : w.approvals[i]? ≠ some a' := fun hc => hi (List.getElem?_eq_some_iff.mp hc).1
    have heffect := effect (e := e) hw c
    generalize w.next e c = w' at heffect ha'
    cases heffect with
    | stopped => exact absurd ha' hold
    | recorded => exact absurd ha' hset
    | passed => exact absurd ha' hset
    | granted => exact absurd ha' hset
    | rejected => exact absurd ha' hset
    | cancelled => exact absurd ha' hset
    | delegated => exact absurd ha' hset
    | extended => exact absurd ha' hset
    | not_needed => exact absurd ha' hold
    | started hplan => exact Or.inr ⟨(hadd ha').1, _, _, _, rfl, hplan, (hadd ha').2⟩
    | broken hplan => exact Or.inr ⟨(hadd ha').1, _, _, _, rfl, hplan, (hadd ha').2⟩

/-- A decided instance stays decided, and its version stays. -/
theorem Approval.Progress.row (h : a.Progress a') :
    a'.row.version = a.row.version ∧ (a'.row.status = .pending → a.row.status = .pending) := by
  cases h with
  | same => exact ⟨rfl, id⟩
  | recorded hat => exact ⟨rfl, id⟩
  | passed hat => exact ⟨rfl, id⟩
  | granted hat => exact ⟨rfl, fun _ => hat.pending⟩
  | rejected hat => exact ⟨rfl, fun _ => hat.pending⟩
  | cancelled hpending => exact ⟨rfl, fun _ => hpending⟩
  | extended hat => exact ⟨rfl, id⟩

/-- No call changes the version of the subject. -/
theorem next_version (hw : w.Laid) (c : Call) :
    (w.next e c).subject.version = w.subject.version := by
  have heffect := effect (e := e) hw c
  generalize w.next e c = w' at heffect
  cases heffect <;> rfl

/-- A call changes nothing of the subject but its status. -/
theorem next_subject (hw : w.Laid) (c : Call) :
    ∃ status, (w.next e c).subject = { w.subject with status } := by
  have heffect := effect (e := e) hw c
  generalize w.next e c = w' at heffect
  cases heffect <;> exact ⟨_, rfl⟩

/-- Instance `i` is pending. -/
def World.Pending (w : World) (i : Nat) : Prop :=
  ∃ a, w.approvals[i]? = some a ∧ a.row.status = .pending

/-- One call as a step that always goes through. -/
def step (e : Engine) (w : World) (c : Call) : Option World := some (w.next e c)

/-- Runs keep the approvals laid out. -/
theorem laid_of_runs {C : World → Call → Prop} (h : Runs (step e) C w w') (hw : w.Laid) : w'.Laid :=
  h.invariant (I := World.Laid) (fun _ _ _ hlaid _ hstep =>
    Option.some.inj hstep ▸ laid_next hlaid _) hw

/-- The rule for one instance: what its progress keeps holds of it along every run. -/
theorem stored_of_runs {C : World → Call → Prop} {P : Approval → Prop}
    (h : Runs (step e) C w w') (hw : w.Laid) (hP : ∀ {a a'}, P a → a.Progress a' → P a')
    (ha : w.approvals[i]? = some a) (hPa : P a) :
    ∃ a', w'.approvals[i]? = some a' ∧ P a' := by
  have hinv :=
    h.invariant (I := fun w => w.Laid ∧ ∃ a, w.approvals[i]? = some a ∧ P a) ?_ ⟨hw, a, ha, hPa⟩
  · exact hinv.2
  · rintro s c s' ⟨hlaid, b, hb, hPb⟩ _ hstep
    obtain rfl := Option.some.inj hstep
    obtain ⟨b', hb', hprogress⟩ := progress hlaid c hb
    exact ⟨laid_next hlaid c, b', hb', hP hPb hprogress⟩

/-- The states that calls reach from a subject without instances. -/
def Reachable (e : Engine) (w : World) : Prop :=
  ∃ subject, Runs (step e) (fun _ _ => True) { subject, approvals := [] } w

/-- Reachable approvals are laid out. -/
theorem Reachable.laid (h : Reachable e w) : w.Laid := by
  obtain ⟨subject, hruns⟩ := h
  exact laid_of_runs hruns fun a ha => by cases ha

end taurus.approval
