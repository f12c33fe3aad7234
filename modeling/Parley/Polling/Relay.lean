/-
  Parley.Polling.Relay
  ────────────────────────────────
  **ACTIVITIES THAT TAKE TURNS.**

  Activities run side by side, one at a time and each up to a point where it
  gives its turn up.  Each has a place: a task has a number of its own, and the
  members of a batch are numbered within the activity that works the batch off.

      task 4                     [4]
      member 1 of its batch      [1, 4]

  An activity goes on when it is called.  Who calls a member calls the
  activity around it, too, which then gives the member its turn.  Those that are
  called have their turns in the order of the calls.

  Tasks have their turns in rounds.  One task leads: it begins a round, and has
  no turn within one.  A round is over when no other task is called, or after a
  number of turns.  Those that only wanted another turn are called then, the
  last of them first.  If there is none and no task is called either, time
  passes up to the first instant for which an activity sleeps; those that sleep
  for one instant are called in the order in which they fell asleep.
-/

namespace Parley.Polling

/-- Where an activity is: the numbers that lead to it, its own first. -/
abbrev Place := List Nat

/-- The number of turns in a round. -/
def roundLength : Nat := 61

/-- The places that are called, in order; those that want another turn, the last first; those that
sleep, each for an instant; those that wait for an event; the number of turns left in the round; and
the time. -/
structure Relay (ε : Type) where
  leader : Nat := 0
  called : List Place := []
  again : List Place := []
  asleep : List (Nat × Place) := []
  attentive : List (ε × Place) := []
  left : Nat := 0
  now : Nat := 0
deriving Repr

namespace Relay

/-! ## §1. Giving a turn up. -/

/-- Want another turn. -/
def yield (r : Relay ε) (p : Place) : Relay ε :=
  { r with again := p :: r.again }

/-- Sleep until an instant. -/
def sleepUntil (r : Relay ε) (p : Place) (instant : Nat) : Relay ε :=
  { r with asleep := r.asleep ++ [(instant, p)] }

/-- Wait for an event. -/
def attend (r : Relay ε) (p : Place) (event : ε) : Relay ε :=
  { r with attentive := r.attentive ++ [(event, p)] }

/-! ## §2. Calls. -/

/-- The relay in which a place waits for nothing. -/
def forget (r : Relay ε) (p : Place) : Relay ε :=
  { r with
    asleep := r.asleep.filter (·.2 ≠ p)
    attentive := r.attentive.filter (·.2 ≠ p) }

/-- Call a new activity, whose turn is asked for by the one around it. -/
def enroll (r : Relay ε) (p : Place) : Relay ε :=
  { r with called := r.called ++ [p] }

/-- Call a place and those around it, up to one that is called already. -/
def call (r : Relay ε) : Place → Relay ε
  | [] => r
  | k :: outer =>
    let r := r.forget (k :: outer)
    if (k :: outer) ∈ r.called then r else (r.enroll (k :: outer)).call outer

/-- Call those that wait for an event. -/
def happen [DecidableEq ε] (r : Relay ε) (event : ε) : Relay ε :=
  (r.attentive.filter (·.1 = event)).foldl (fun r (_, p) => r.call p) r

/-- The numbers of those that are called directly within a place. -/
def within (r : Relay ε) (outer : Place) : List Nat :=
  r.called.filterMap fun
    | [] => none
    | k :: rest => if rest = outer then some k else none

/-- The relay when a call has been answered. -/
def answered (r : Relay ε) (p : Place) : Relay ε :=
  { r with called := r.called.erase p }

/-! ## §3. The turns of the tasks. -/

/-- The first instant for which an activity sleeps. -/
def firstDue : List (Nat × Place) → Option Nat
  | [] => none
  | (t, _) :: rest =>
    match firstDue rest with
    | none => some t
    | some u => some (min t u)

/-- Let time pass up to the first instant for which an activity sleeps. -/
def pass (r : Relay ε) : Relay ε :=
  match firstDue r.asleep with
  | none => r
  | some t =>
    (r.asleep.filter (·.1 ≤ t)).foldl (fun r (_, p) => r.call p) { r with now := max r.now t }

/-- Begin a round. -/
def renew (r : Relay ε) : Relay ε :=
  let r := if !r.again.isEmpty then r.again.foldl call { r with again := [] }
    else if (r.within []).isEmpty then r.pass
    else r
  { r with left := roundLength }

/-- The task whose turn it is within the round. -/
def inRound? (r : Relay ε) : Option (Nat × Relay ε) :=
  if r.left = 0 then none
  else ((r.within []).find? (· ≠ r.leader)).map fun n =>
    (n, { r.answered [n] with left := r.left - 1 })

/-- The task whose turn it is; none if all wait for something that is no instant. -/
def next? (r : Relay ε) : Option (Nat × Relay ε) :=
  match r.inRound? with
  | some turn => some turn
  | none =>
    let r := r.renew
    if r.leader ∈ r.within [] then some (r.leader, r.answered [r.leader]) else r.inRound?

/-- The relay after a turn of a task.  If it was called within its turn, it comes after all others
that were called then. -/
def turnOver (r : Relay ε) (n : Nat) : Relay ε :=
  if [n] ∈ r.called then (r.answered [n]).enroll [n] else r

/-- The tasks that have the next turns, up to a number of them. -/
def preview (r : Relay ε) : Nat → List Nat
  | 0 => []
  | k + 1 =>
    match r.next? with
    | none => []
    | some (n, r) => n :: r.preview k

/-- The last that wants another turn is the first to have it, sleepers wake in order, and the leader
has its turn between two rounds. -/
example :
    ((({ called := [[1]] } : Relay Unit).yield [2]).yield [3]).preview 4 = [1, 3, 2]
    ∧ ((({} : Relay Unit).sleepUntil [4] 20).sleepUntil [5] 10).preview 4 = [5, 4]
    ∧ ((({} : Relay Unit).sleepUntil [4] 10).sleepUntil [5] 10).preview 4 = [4, 5]
    ∧ (((({ called := [[2]] } : Relay Unit).call [0]).yield [3]).call [4]).preview 5 = [0, 2, 4, 3]
    ∧ (((({ called := [[2]] } : Relay Unit).call [5]).call [4]).turnOver 5).preview 4 = [2, 4, 5]
    ∧ (({ called := [[2]] } : Relay Unit).call [1, 3]).within [3] = [1]
    ∧ (({ called := [[2]] } : Relay Unit).call [1, 3]).preview 3 = [2, 3] := by
  decide

end Relay

end Parley.Polling
