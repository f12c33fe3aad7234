/-
  Parley.Listener.Delivery
  ────────────────────────────────
  **DELIVERING ANNOUNCEMENTS.**

  An announcement goes to every listener, in the order in which they were
  registered.  It waits until there is room in a queue, and a flush until the
  queues are empty.  No listener stops another one.
-/
import Parley.Listener.Subscriber

namespace Parley.Listener

/-- The listeners of an engine, in the order they were registered. -/
structure Audience (τ : Type) where
  subscribers : List (Subscriber τ)

namespace Audience

/-- Listeners whose callbacks end as given; a queue has room for one announcement at least. -/
def new (capacity : Nat) (reactions : List (Announcement → Reaction)) : Audience τ :=
  ⟨reactions.map fun react => { react := react, free := max capacity 1 }⟩

/-- The number of listeners. -/
def size (o : Audience τ) : Nat :=
  o.subscribers.length

/-- Put an announcement into a queue; a listener whose queue is full handles it first. -/
def deliver (a : Announcement) (s : Subscriber τ) : Subscriber τ :=
  match s.offer? (.news a) with
  | some s => s
  | none => (s.drain.offer? (.news a)).getD s

/-- Announce a transition to every listener. -/
def notify (o : Audience τ) (a : Announcement) : Audience τ :=
  ⟨o.subscribers.map (deliver a)⟩

/-- Wait until every listener has handled all that was announced. -/
def flush (o : Audience τ) : Audience τ :=
  ⟨o.subscribers.map (·.drain)⟩

end Audience

end Parley.Listener
