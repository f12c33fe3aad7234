/-
  Parley.Polling.Schedule
  ────────────────────────────────
  **WHOSE TURN IT IS.**

  A schedule holds what each task does in its next turn.  The order of the turns
  is laid down by a relay (`Parley.Polling.Relay`); a task that has not had a
  turn begins with its first.
-/
import Parley.Polling.Activity

namespace Parley.Polling

/-- What is left to do of a task. -/
def Activity.rest : Activity ε σ Unit → Run ε σ Unit
  | ended () => pure ()
  | waiting go => go

/-- Whether an activity is at its end. -/
def Activity.isEnded : Activity ε σ α → Bool
  | ended _ => true
  | waiting _ => false

/-- The tasks that have had a turn, each with what it does in the next one. -/
structure Schedule (ε σ : Type) where
  stage : Stage ε σ
  tasks : List (Nat × Run ε σ Unit) := []

namespace Schedule

/-- What a task does in its next turn. -/
def next (s : Schedule ε σ) (start : σ → Nat → Run ε σ Unit) (n : Nat) : Run ε σ Unit :=
  (s.tasks.lookup n).getD (start s.stage.state n)

/-- Give the task whose turn it is its turn: its number, whether it is at its end then, and the
schedule. -/
def turn? (s : Schedule ε σ) (start : σ → Nat → Run ε σ Unit) :
    Option (Nat × Bool × Schedule ε σ) :=
  match s.stage.relay.next? with
  | none => none
  | some (n, relay) =>
    match s.next start n
      { s.stage with relay := relay, place := [n], credit := Run.creditPerTurn } with
    | none => none
    | some (a, stage) =>
      some (n, a.isEnded,
        ⟨{ stage with relay := stage.relay.turnOver n }, (n, a.rest) :: s.tasks.filter (·.1 ≠ n)⟩)

/-- Give tasks their turns until one of them is at its end, and at most so many turns. -/
def runUntil (start : σ → Nat → Run ε σ Unit) (task : Nat) : Nat → Schedule ε σ → Option σ
  | 0, _ => none
  | k + 1, s =>
    match s.turn? start with
    | none => none
    | some (n, isOver, s) =>
      if isOver ∧ n = task then some s.stage.state else s.runUntil start task k

end Schedule

end Parley.Polling
