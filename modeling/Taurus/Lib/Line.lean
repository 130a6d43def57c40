import Mathlib.Data.List.Infix

namespace taurus.lib.line

variable {α : Type}

/-- What happens to a waiting line: someone joins it at its end or goes to its front, or some at the
front are served. -/
inductive Move (α : Type) where
  | join (x : α)
  | jump (x : α)
  | serve (n : Nat)

/-- Those who wait, the next one first, and those who were served, in order. -/
structure Line (α : Type) where
  waiting : List α := []
  served : List α := []

namespace Line

def step (l : Line α) : Move α → Line α
  | .join x => { l with waiting := l.waiting ++ [x] }
  | .jump x => { l with waiting := x :: l.waiting }
  | .serve n => { waiting := l.waiting.drop n, served := l.served ++ l.waiting.take n }

def run (l : Line α) (moves : List (Move α)) : Line α := moves.foldl step l

@[simp] theorem run_cons (l : Line α) (move : Move α) (moves : List (Move α)) :
    l.run (move :: moves) = (l.step move).run moves := rfl

theorem run_append (l : Line α) (moves moves' : List (Move α)) :
    l.run (moves ++ moves') = (l.run moves).run moves' :=
  List.foldl_append

end Line

/-- Those who joined, in order. -/
def joined : List (Move α) → List α
  | [] => []
  | .join x :: moves => x :: joined moves
  | _ :: moves => joined moves

/-- At any time no more were served than went to the front before, beside `credit` others. -/
def Overtaking : Nat → List (Move α) → Prop
  | _, [] => True
  | credit, .join _ :: moves => Overtaking credit moves
  | credit, .jump _ :: moves => Overtaking (credit + 1) moves
  | credit, .serve n :: moves => n ≤ credit ∧ Overtaking (credit - n) moves

theorem Overtaking.mono {moves : List (Move α)} {credit credit' : Nat} (h : Overtaking credit moves)
    (hle : credit ≤ credit') :
    Overtaking credit' moves := by
  induction moves generalizing credit credit' with
  | nil => trivial
  | cons move moves ih =>
    cases move with
    | join x => exact ih h hle
    | jump x => exact ih h (Nat.succ_le_succ hle)
    | serve n => exact ⟨h.1.trans hle, ih h.2 (Nat.sub_le_sub_right hle n)⟩

end taurus.lib.line
