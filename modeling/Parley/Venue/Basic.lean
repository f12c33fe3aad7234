/-
  Parley.Venue.Basic
  ────────────────────────────────
  **ENGINES SIDE BY SIDE.**

  Several engines live in one venue.  They share the clock and the supply of
  ids, and each has a store, of its own or together with others.

  What happens in a venue is done by tasks that take turns: task zero leads, each
  listener of an engine is a task, and so is each polling loop.

  To get into a store or into a listener's queue takes two steps.  First there
  has to be room: many may read a store, and who changes it is alone in it
  (`Parley.Polling.Gate`).  Then it is paid for (`Parley.Polling.Activity`), and a
  task that did much in its turn has no credit left.  Others have their turns
  until it has its next one, and find the room taken that it has not left.
-/
import Parley.Engine.Tick
import Parley.Listener.Delivery
import Parley.Polling.Gate
import Parley.Polling.Gathering
import Parley.Polling.Switchboard

namespace Parley

open Parley.Polling
open Parley.Listener

/-! ## §1. Who is there. -/

/-- An engine's polling loop for a role. -/
abbrev Loop := Nat × Role

/-- An engine in a venue: how long its loops wait when there is no work, the number of its store,
its listeners, and the number of the first listener's task. -/
structure Resident where
  engine : Engine
  iterationWait : Nat
  store : Nat
  audience : Audience Place
  firstTask : Nat

/-- What a task does. -/
inductive Task where
  | leading
  | listening (resident listener : Nat)
  | polling (loop : Loop) (seen : Nat)
deriving DecidableEq, Repr

/-- What activities wait for. -/
inductive Event where
  | ended (task : Nat)
  | signalled (loop : Loop)
  | answered (asker : Place)
deriving DecidableEq, Repr

/-- A store, and the gate to it. -/
structure Depot where
  ledger : Ledger := .empty
  gate : Gate Place := {}

/-- Engines, stores, the clock, the supply of ids, tasks and loops, and what else there is beside
these. -/
structure Venue (ρ : Type) where
  residents : List Resident := []
  stores : List Depot := []
  now : Instant
  supply : IdSupply := .counted
  tasks : List Task := [.leading]
  loops : Switchboard Loop := {}
  beside : ρ

/-- What is done in a venue. -/
abbrev Act (ρ : Type) := Run Event (Venue ρ)

namespace Venue

/-- The venue with one engine more, which uses a store that is there or a new one. -/
def withResident (v : Venue ρ) (engine : Engine) (iterationWait : Nat) (store : Option Nat)
    (audience : Audience Place) : Venue ρ :=
  { v with
    residents := v.residents
      ++ [⟨engine, iterationWait, store.getD v.stores.length, audience, v.tasks.length⟩]
    stores := if store.isNone then v.stores ++ [{}] else v.stores
    tasks := v.tasks
      ++ (List.range audience.size).map (Task.listening v.residents.length) }

/-- The store of an engine. -/
def store? (v : Venue ρ) (i : Nat) : Option Depot :=
  v.residents[i]?.bind fun r => v.stores[r.store]?

/-- Change the store of an engine, if it can be done. -/
def onStore (v : Venue ρ) (i : Nat) (f : Depot → Option (α × Depot)) : Option (α × Venue ρ) := do
  let r ← v.residents[i]?
  let (a, d) ← f (← v.stores[r.store]?)
  return (a, { v with stores := v.stores.set r.store d })

/-- Change a listener of an engine, if it can be done. -/
def onListener (v : Venue ρ) (i k : Nat)
    (f : Subscriber Place → Option (α × Subscriber Place)) : Option (α × Venue ρ) := do
  let r ← v.residents[i]?
  let (a, l) ← f (← r.audience.subscribers[k]?)
  return (a, { v with
    residents := v.residents.set i { r with audience := ⟨r.audience.subscribers.set k l⟩ } })

/-- A listener of an engine. -/
def listener? (v : Venue ρ) (i k : Nat) : Option (Subscriber Place) :=
  v.residents[i]?.bind fun r => r.audience.subscribers[k]?

/-- Whether something waits in the queue of a listener. -/
def isQueued (v : Venue ρ) (i k : Nat) (d : Delivery Place) : Bool :=
  (v.listener? i k).any (d ∈ ·.queue)

end Venue

namespace Act

/-! ## §2. Single actions. -/

/-- The venue as it is. -/
def look : Act ρ (Venue ρ) := Run.act fun v => some (v, v)

/-- Change the venue. -/
def change (f : Venue ρ → Venue ρ) : Act ρ Unit := Run.act fun v => some ((), f v)

/-- Something that has to be there. -/
def required (a : Option α) : Act ρ α := Run.act fun v => a.map fun a => (a, v)

/-- An engine with all that belongs to it. -/
def resident (i : Nat) : Act ρ Resident := do required (← look).residents[i]?

/-- Let time pass. -/
def sleep (ms : Nat) : Act ρ Unit := do
  let due := (← Run.now) + ms
  Run.obtain [.instant due] fun s => if due ≤ s.relay.now then some ((), s.state) else none

/-! ## §3. Listeners. -/

/-- Put something into a listener's queue when there is a place for it. -/
def post (i k : Nat) (d : Delivery Place) : Act ρ Unit := do
  let here ← Run.here
  Run.act (·.onListener i k fun l => some ((), l.arrive here))
  Run.waitWhile fun v => (v.listener? i k).any (·.waiting.contains here)
  Run.pay
  Run.act (·.onListener i k fun l => some ((), l.put d))
  Run.call [(← resident i).firstTask + k]

/-- Announce a transition to the listeners of an engine. -/
def announce (i : Nat) (news : Announcement) : Act ρ Unit := do
  for k in List.range (← resident i).audience.size do post i k (.news news)

/-- Wait until the listeners of an engine have handled all that was announced. -/
def flush (i : Nat) : Act ρ Unit := do
  let here ← Run.here
  for k in List.range (← resident i).audience.size do
    post i k (.mark here)
    Run.obtain [.event (.answered here)] fun s =>
      if s.state.isQueued i k (.mark here) then none else some ((), s.state)

/-- Handle what comes into a listener's queue. -/
def listen (i k : Nat) : Act ρ Unit :=
  Run.iterate (fun () => do
    let taken ← Run.obtain [] fun s => s.state.onListener i k (·.take?)
    match taken.next with
    | some who => Run.call who
    | none => pure ()
    match taken.delivery with
    | .mark asker => Run.happen (.answered asker)
    | .news _ => pure ()
    return .inl ()) Run.enough ()

/-! ## §4. Stores. -/

/-- Do something with the store of an engine, if it can be done. -/
def visit (i : Nat) (p : Pass) (f : Ledger → Option (α × Ledger)) : Act ρ α := do
  let here ← Run.here
  Run.act (·.onStore i fun d => some ((), { d with gate := d.gate.arrive here p }))
  Run.waitWhile fun v => (v.store? i).any (·.gate.isInLine here)
  Run.pay
  let (a, others) ← Run.act (·.onStore i fun d => do
    let (a, l) ← f d.ledger
    return ((a, (d.gate.leave p).1), ⟨l, (d.gate.leave p).2⟩))
  for who in others do Run.call who
  return a

/-! ## §5. Access. -/

/-- How the operations of an engine get at the world.  Where a lease without an end is judged, the run
breaks down. -/
def access (i : Nat) : Access (Act ρ) where
  now := return (← look).now
  advance ms := change fun v => { v with now := v.now.addMillis ms }
  drawId := do
    let supply := (← look).supply
    change fun v => { v with supply := supply.draw }
    return supply.next
  read f := visit i .shared fun l => some (f l, l)
  use judged f := do
    let asked := (← look).now
    visit i .alone fun l => if judged l then some (f asked l) else none
  announce news := announce i news

/-- Handle several records side by side. -/
def gather (limit : Nat) : Batch.Gather (Act ρ) := fun members =>
  Gathering.finish { limit := limit, ahead := members }

/-- A tick of a role of an engine, given what is done when an engine sends a message. -/
def runRole (send : Nat → Flight → Act ρ Reply) (i : Nat) (role : Role) : Act ρ Nat := do
  (← resident i).engine.runRole ⟨access i, send i, gather⟩ role

end Act

end Parley
