/-
  Parley.Listener.Subscriber
  ────────────────────────────────
  **A LISTENER AND ITS QUEUE.**

  Every listener has a queue of its own, of bounded length, and handles what is
  in it one by one.  A callback that fails or panics is done with, and the
  listener goes on.  Who finds no room waits in line.  When the listener takes
  something out of its queue, the place goes to the first in line, who puts its
  own thing there later; only if nobody waits does the place become free.

  A mark in the queue tells who put it there that all before it is handled.
-/
import Parley.Listener.Announcement

namespace Parley.Listener

/-- How a callback ends. -/
inductive Reaction where
  | done
  | failed
  | panicked
deriving DecidableEq, Repr, Inhabited

/-- What is put into a queue. -/
inductive Delivery (τ : Type) where
  | news (announcement : Announcement)
  | mark (asker : τ)
deriving DecidableEq, Repr

/-- A listener: the number of free places in its queue, the queue, oldest first, those who wait for
a place, and the callbacks started so far. -/
structure Subscriber (τ : Type) where
  react : Announcement → Reaction
  free : Nat
  queue : List (Delivery τ) := []
  waiting : List τ := []
  started : List (Announcement × Reaction) := []

namespace Subscriber

/-! ## §1. Into the queue. -/

/-- Put something into the queue, on a place that was kept for it. -/
def put (s : Subscriber τ) (d : Delivery τ) : Subscriber τ :=
  { s with queue := s.queue ++ [d] }

/-- Take a free place. -/
def reserve? (s : Subscriber τ) : Option (Subscriber τ) :=
  match s.free with
  | 0 => none
  | free + 1 => some { s with free := free }

/-- Put something into the queue if there is a free place. -/
def offer? (s : Subscriber τ) (d : Delivery τ) : Option (Subscriber τ) :=
  s.reserve?.map (·.put d)

/-- Wait for a place. -/
def standInLine (s : Subscriber τ) (who : τ) : Subscriber τ :=
  { s with waiting := s.waiting ++ [who] }

/-- Come for a place: take a free one, or else wait. -/
def arrive (s : Subscriber τ) (who : τ) : Subscriber τ :=
  s.reserve?.getD (s.standInLine who)

/-! ## §2. Out of the queue. -/

/-- Give a place away: to whom, if somebody waits. -/
def vacate (s : Subscriber τ) : Option τ × Subscriber τ :=
  match s.waiting with
  | [] => (none, { s with free := s.free + 1 })
  | who :: others => (some who, { s with waiting := others })

/-- What a listener did: what it took out of its queue, and who got the place. -/
structure Taken (τ : Type) where
  delivery : Delivery τ
  next : Option τ

/-- Take the oldest thing out of the queue, and start the callback for it. -/
def take? (s : Subscriber τ) : Option (Taken τ × Subscriber τ) :=
  match s.queue with
  | [] => none
  | d :: rest =>
    let (next, s) := vacate { s with queue := rest }
    match d with
    | .news a => some (⟨d, next⟩, { s with started := s.started ++ [(a, s.react a)] })
    | .mark _ => some (⟨d, next⟩, s)

/-- Take so many things out of the queue. -/
def handle : Nat → Subscriber τ → Subscriber τ
  | 0, s => s
  | n + 1, s =>
    match s.take? with
    | none => s
    | some (_, s) => handle n s

/-- Handle all that is in the queue. -/
def drain (s : Subscriber τ) : Subscriber τ :=
  s.handle s.queue.length

/-- Two places: the third announcement waits until the first is handled. -/
example (a : Announcement) :
    let s : Subscriber Nat := { react := fun _ => .done, free := 2 }
    let full := ((s.offer? (.news a)).bind (·.offer? (.mark 8))).getD s
    (full.offer? (.news a)).isNone = true
    ∧ (full.standInLine 9).take?.bind (·.1.next) = some 9
    ∧ full.drain.free = 2
    ∧ (full.standInLine 9).drain.free = 1
    ∧ (full.standInLine 9).drain.started = [(a, .done)] := by
  refine ⟨rfl, rfl, rfl, rfl, rfl⟩

end Subscriber

end Parley.Listener
