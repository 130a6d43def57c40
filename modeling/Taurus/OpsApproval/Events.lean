import Taurus.OpsApproval.Effects

namespace taurus.ops_approval

open taurus.lib taurus.lib.Thread taurus.ops
open taurus.approval (User)

variable {w : World} {i : Nat} {a : Approval}

/-- The approval after execution `k` has ended. -/
def Approval.synced (k : Nat) (status : OpsStatus) (a : Approval) : Approval :=
  if a.ops_execution = some k ∧ a.status = .executing then
    { a with status := if status = .SUCCESS then .done else .failed }
  else a

/-- The approvals of a script execution that has ended. -/
def World.sync (w : World) (k : Nat) (status : OpsStatus) : World :=
  { w with approvals := w.approvals.map (Approval.synced k status) }

/-- The executor starts an execution or ends it. -/
def World.progress (w : World) (k : Nat) (status : OpsStatus) : World :=
  match w.executions[k]? with
  | some x =>
    if (x.status = .PENDING ∨ x.status = .RUNNING) ∧
      (status = .RUNNING ∨ status.terminal = true) then
      if x.execution_type = "script" ∧ (status = .SUCCESS ∨ status = .FAILED) then
        (w.set_status k status).sync k status
      else w.set_status k status
    else w
  | none => w

/-- What happens to the two tables. -/
inductive Event where
  | request (c : Call)
  | progress (k : Nat) (status : OpsStatus)

def World.react (w : World) : Event → World
  | .request c => w.next c
  | .progress k status => w.progress k status

/-- The approval `i` keeps what it is about. -/
def World.KeepsTarget (w : World) (i : Nat) (params : Parameters)
    (execution_type : String) : Prop :=
  ∃ a, w.approvals[i]? = some a ∧ a.params = params ∧ a.execution_type = execution_type

namespace World.KeepsTarget

variable {params : Parameters} {execution_type : String}

/-- Saved columns are not what the approval is about. -/
theorem save (row : Approval) (update_fields : List Field) :
    (a.save row update_fields).params = a.params ∧
      (a.save row update_fields).execution_type = a.execution_type := by
  unfold Approval.save
  induction update_fields generalizing a with
  | nil => exact ⟨rfl, rfl⟩
  | cons field rest ih =>
    obtain ⟨hparams, htype⟩ := ih (a := a.take row field)
    rw [List.foldl_cons, hparams, htype]
    cases field <;> exact ⟨rfl, rfl⟩

/-- No access of a request changes it. -/
theorem exec (h : w.KeepsTarget i params execution_type) (c : Statement) :
    (World.exec c w).2.KeepsTarget i params execution_type := by
  obtain ⟨a, ha, hparams, htype⟩ := h
  cases c with
  | count_live => exact ⟨a, ha, hparams, htype⟩
  | create_execution execution => exact ⟨a, ha, hparams, htype⟩
  | set_execution_status k status => exact ⟨a, ha, hparams, htype⟩
  | create_approval row =>
    exact ⟨a, (List.getElem?_append_left (List.getElem?_eq_some_iff.mp ha).1).trans ha,
      hparams, htype⟩
  | get_approval j => exact ⟨a, ha, hparams, htype⟩
  | save_approval j row update_fields =>
    by_cases hj : j = i
    · subst hj
      have hstored : (World.exec (.save_approval j row update_fields) w).2.approvals[j]? =
          some (a.save row update_fields) := by
        change (w.modify_approval j _).approvals[j]? = _
        rw [modify_approval_eq_put _ ha]
        exact put_getElem? ha
      exact ⟨_, hstored, (save row update_fields).1.trans hparams,
        (save row update_fields).2.trans htype⟩
    · refine ⟨a, ?_, hparams, htype⟩
      change (w.approvals.modify j _)[i]? = some a
      rwa [List.getElem?_modify_ne _ _ hj]

/-- Every event keeps what an approval is about. -/
theorem react (h : w.KeepsTarget i params execution_type) (event : Event) :
    (w.react event).KeepsTarget i params execution_type := by
  cases event with
  | request c =>
    exact complete_invariant World.exec (I := fun w => w.KeepsTarget i params execution_type)
      (fun c _ hs => exec hs c) c.session h
  | progress k status =>
    obtain ⟨a, ha, hparams, htype⟩ := h
    change (w.progress k status).KeepsTarget i params execution_type
    unfold World.progress
    split
    · split
      · split
        · have hstored : (w.approvals.map (Approval.synced k status))[i]? =
              some (a.synced k status) := by
            rw [List.getElem?_map, ha]
            rfl
          refine ⟨_, hstored, ?_⟩
          unfold Approval.synced
          split <;> exact ⟨hparams, htype⟩
        · exact ⟨a, ha, hparams, htype⟩
      · exact ⟨a, ha, hparams, htype⟩
    · exact ⟨a, ha, hparams, htype⟩

end World.KeepsTarget

/-! A site with one host and two users. -/

def alice : User := { id := 1, username := "alice", name := "Alice" }

def bob : User := { id := 2, username := "bob", name := "Bob" }

def web_host : Host := { pk := 1, host_ip := "10.0.0.1", online_status := 1 }

def shop : Site where
  users := [alice, bob]
  _get_host_by_id _ := some web_host
  host _ := some web_host

/-- A cipher that keeps the text as it is. -/
def identity_cipher : Fernet where
  encrypt _ plain := plain
  decrypt := some
  decrypt_encrypt _ _ := rfl

def from_alice : Origin := { site := shop, user := alice, fernet := identity_cipher }

end taurus.ops_approval
