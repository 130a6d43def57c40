import Mathlib.Data.List.Basic

namespace taurus.lib.memo

variable {τ β γ : Type}

/-- A request for a remembered value at some time, which may insist on a new evaluation. -/
structure Read (τ : Type) where
  now : τ
  fresh : Bool

/-- The time of the evaluation that answers a request. -/
def evaluated (last : Option τ) (r : Read τ) : τ := if r.fresh then r.now else last.getD r.now

/-- The time of the last evaluation after a sequence of requests. -/
def last_evaluation (reads : List (Read τ)) : Option τ :=
  reads.foldl (fun last r => some (evaluated last r)) none

/-- Answer a request, and what is remembered afterwards. -/
def serve (eval : τ → β) (memo : Option β) (r : Read τ) : β × Option β :=
  match memo with
  | some b => if r.fresh then (eval r.now, some (eval r.now)) else (b, some b)
  | none => (eval r.now, some (eval r.now))

/-- What is remembered after a sequence of requests. -/
def serve_all (eval : τ → β) (reads : List (Read τ)) : Option β :=
  reads.foldl (fun memo r => (serve eval memo r).2) none

theorem serve_of_last (eval : τ → β) (last : Option τ) (r : Read τ) :
    serve eval (last.map eval) r = (eval (evaluated last r), some (eval (evaluated last r))) := by
  unfold serve evaluated
  cases last with
  | none => cases r.fresh <;> rfl
  | some t => cases r.fresh <;> rfl

/-- What is remembered is the value at the last evaluation. -/
theorem serve_all_eq (eval : τ → β) (reads : List (Read τ)) :
    serve_all eval reads = (last_evaluation reads).map eval := by
  unfold serve_all last_evaluation
  suffices h : ∀ last : Option τ, reads.foldl (fun memo r => (serve eval memo r).2)
    (last.map eval) =
      (reads.foldl (fun last r => some (evaluated last r)) last).map eval from h none
  induction reads with
  | nil => exact fun _ => rfl
  | cons r rest ih =>
    intro last
    rw [List.foldl_cons, List.foldl_cons, serve_of_last]
    exact ih (some (evaluated last r))

/-- A request is answered by the value at its evaluation, which may be long past. -/
theorem serve_all_answer (eval : τ → β) (reads : List (Read τ)) (r : Read τ) :
    (serve eval (serve_all eval reads) r).1 = eval (evaluated (last_evaluation reads) r) := by
  rw [serve_all_eq, serve_of_last]

end taurus.lib.memo
