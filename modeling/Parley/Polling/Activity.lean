/-
  Parley.Polling.Activity
  ────────────────────────────────
  **ACTIVITIES THAT WAIT.**

  An activity acts on a state until it is at its end or has to wait: for an
  instant, for an event, for another turn, or until it is called by its place.
  What it does afterwards is kept as data, so other activities may act on the
  state in between.  Activities are put together one after the other (`Run`, a
  monad).

  What activities share is had on credit.  A turn of a task begins with some
  credit, whatever is obtained takes one of it, and who has none left waits for
  another turn.  Who has got hold of something keeps it while waiting for credit.
-/
import Parley.Polling.Relay

namespace Parley.Polling

/-! ## §1. Activities. -/

/-- What an activity waits for. -/
inductive Wait (ε : Type) where
  | instant (time : Nat)
  | event (name : ε)
  | turn
deriving DecidableEq, Repr

/-- What activities act on: a state that is theirs, the relay of their turns, the place of the one
that acts, and the credit that is left of the turn. -/
structure Stage (ε σ : Type) where
  state : σ
  relay : Relay ε := {}
  place : Place := []
  credit : Nat := 0

/-- An activity at its end, or waiting and what it does when it is called. -/
inductive Activity (ε σ α : Type) where
  | ended (result : α)
  | waiting (go : Stage ε σ → Option (Activity ε σ α × Stage ε σ))

/-- What an activity does up to its end or its next wait; it may fail. -/
def Run (ε σ α : Type) : Type := Stage ε σ → Option (Activity ε σ α × Stage ε σ)

/-! ## §2. One after the other. -/

mutual

/-- An activity, and what follows its end. -/
def Activity.andThen (f : α → Run ε σ β) :
    Activity ε σ α → Stage ε σ → Option (Activity ε σ β × Stage ε σ)
  | .ended a, s => f a s
  | .waiting go, s => some (.waiting (fun s => andThenOption f (go s)), s)

/-- The same after an activity that may have failed. -/
def andThenOption (f : α → Run ε σ β) :
    Option (Activity ε σ α × Stage ε σ) → Option (Activity ε σ β × Stage ε σ)
  | none => none
  | some p => andThenPair f p

/-- The same for an activity with the stage that it left. -/
def andThenPair (f : α → Run ε σ β) :
    Activity ε σ α × Stage ε σ → Option (Activity ε σ β × Stage ε σ)
  | (a, s) => Activity.andThen f a s

end

namespace Run

instance : Inhabited (Run ε σ α) := ⟨fun _ => none⟩

instance : Monad (Run ε σ) where
  pure a := fun s => some (.ended a, s)
  bind run f := fun s => andThenOption f (run s)

/-! ## §3. Single actions. -/

/-- Act on the state without a wait. -/
def act (f : σ → Option (α × σ)) : Run ε σ α := fun s =>
  (f s.state).map fun p => (.ended p.1, { s with state := p.2 })

/-- The place of the activity that acts. -/
def here : Run ε σ Place := fun s => some (.ended s.place, s)

/-- The time. -/
def now : Run ε σ Nat := fun s => some (.ended s.relay.now, s)

/-- Call a place. -/
def call (p : Place) : Run ε σ Unit := fun s =>
  some (.ended (), { s with relay := s.relay.call p })

/-- Call those that wait for an event. -/
def happen [DecidableEq ε] (event : ε) : Run ε σ Unit := fun s =>
  some (.ended (), { s with relay := s.relay.happen event })

/-- The relay in which a place waits for one thing more. -/
def waitFor (p : Place) (r : Relay ε) : Wait ε → Relay ε
  | .instant t => r.sleepUntil p t
  | .event e => r.attend p e
  | .turn => r.yield p

/-- Wait for one of several things, or to be called. -/
def wait (waits : List (Wait ε)) : Run ε σ Unit := fun s =>
  some (.waiting fun s => some (.ended (), s),
    { s with relay := waits.foldl (waitFor s.place) s.relay })

/-- What comes after a wait sees the state as it is by then. -/
example :
    let run : Run Unit Nat Nat := do
      act fun n => some ((), n + 1)
      wait [.instant 7]
      act fun n => some (n, n)
    (match run { state := 5, place := [3] } with
      | some (.waiting go, s) =>
        match go { s with state := 40 } with
        | some (.ended n, _) => (n, s.state, s.relay.preview 1)
        | _ => (0, 0, [])
      | _ => (0, 0, [])) = (40, 6, [3]) := by rfl

/-! ## §4. Again and again. -/

/-- How often an activity repeats itself at most; none comes near it. -/
def enough : Nat := Nat.pow 10 18

/-- Repeat a step until it gives a result. -/
def iterate (step : β → Run ε σ (β ⊕ α)) : Nat → β → Run ε σ α
  | 0, _ => fun _ => none
  | n + 1, b => do
    match ← step b with
    | .inl b => iterate step n b
    | .inr a => return a

/-- Wait as long as something is so; who changes that calls the place. -/
def waitWhile (busy : σ → Bool) : Run ε σ Unit :=
  iterate (fun () => do
    if ← act fun s => some (busy s, s) then
      wait []
      return .inl ()
    else return .inr ()) enough ()

/-! ## §5. On credit. -/

/-- The credit of a turn. -/
def creditPerTurn : Nat := 128

/-- Begin a piece of work with full credit, as a turn begins. -/
def refresh : Run ε σ Unit := fun s => some (.ended (), { s with credit := creditPerTurn })

/-- The credit that is left. -/
def credit : Run ε σ Nat := fun s => some (.ended s.credit, s)

/-- Take one off the credit. -/
def spend : Run ε σ Unit := fun s => some (.ended (), { s with credit := s.credit - 1 })

/-- Wait for a turn in which there is credit. -/
def afford : Run ε σ Unit :=
  iterate (fun () => do
    if (← credit) = 0 then
      wait [.turn]
      return .inl ()
    else return .inr ()) enough ()

/-- Pay for something, as soon as there is credit. -/
def pay : Run ε σ Unit := do
  afford
  spend

/-- Act on the state if that can be done by now. -/
def attempt (f : Stage ε σ → Option (α × σ)) : Run ε σ (Option α) := fun s =>
  match f s with
  | none => some (.ended none, s)
  | some (a, t) => some (.ended (some a), { s with state := t })

/-- Obtain something, as soon as it can be had and there is credit for it. -/
def obtain (waits : List (Wait ε)) (f : Stage ε σ → Option (α × σ)) : Run ε σ α :=
  iterate (fun () => do
    afford
    match ← attempt f with
    | some a =>
      spend
      return .inr a
    | none =>
      wait waits
      return .inl ()) enough ()

/-- Without credit an activity waits for another turn, and it does not pay for what it cannot have
yet. -/
example :
    let run : Run Unit Nat Nat := obtain [.instant 7] fun s =>
      if s.state = 0 then none else some (s.state, 0)
    (match run { state := 5, place := [3] } with
      | some (.waiting _, s) => (s.state, s.relay.again)
      | _ => (0, [])) = (5, [[3]])
    ∧ (match run { state := 5, place := [3], credit := 2 } with
      | some (.ended n, s) => (n, s.state, s.credit)
      | _ => (0, 0, 0)) = (5, 0, 1)
    ∧ (match run { state := 0, place := [3], credit := 2 } with
      | some (.waiting _, s) => (s.relay.asleep, s.credit)
      | _ => ([], 0)) = ([(7, [3])], 2) := by
  refine ⟨rfl, rfl, rfl⟩

end Run

end Parley.Polling
