/-
  Parley.Venue.Loop
  ────────────────────────────────
  **POLLING LOOPS IN A VENUE.**

  A loop of an engine runs ticks of one role: the next one at once when the last
  one found work, and otherwise after a wait.  Starting a loop that runs does
  nothing; who stops one waits until it has ended.
-/
import Parley.Polling.Poller
import Parley.Polling.Schedule
import Parley.Venue.Basic

namespace Parley

open Parley.Polling

namespace Act

/-! ## §1. Start and stop. -/

/-- Start a loop, unless it runs. -/
def startLoop (loop : Loop) : Act ρ Unit := do
  Run.pay
  let v ← look
  unless v.loops.isRunning loop do
    let task := v.tasks.length
    let loops := v.loops.start loop task
    change fun v => { v with
      loops := loops
      tasks := v.tasks ++ [.polling loop (loops.count loop)] }
    Run.happen (.signalled loop)
    Run.call [task]

/-- Stop a loop, and wait until it has ended. -/
def stopLoop (loop : Loop) : Act ρ Unit := do
  change fun v => { v with loops := v.loops.stop loop }
  Run.happen (.signalled loop)
  Run.pay
  let task := (← look).loops.task? loop
  change fun v => { v with loops := v.loops.takeOver loop }
  match task with
  | none => return ()
  | some n => Run.obtain [.event (.ended n)] fun s =>
      if s.state.loops.hasEnded n then some ((), s.state) else none

/-- Start the loops of an engine, stop them after some time, and wait for its listeners. -/
def runFor (i ms : Nat) : Act ρ Unit := do
  startLoop (i, .consumer)
  startLoop (i, .provider)
  sleep ms
  stopLoop (i, .consumer)
  stopLoop (i, .provider)
  flush i

/-! ## §2. The tasks. -/

/-- End a task. -/
def leave : Act ρ Unit := do
  let task := (← Run.here).headD 0
  change fun v => { v with loops := v.loops.ended task }
  Run.happen (.ended task)

/-- Wait for the next iteration of a loop, or for a signal more than it has seen. -/
def idle (loop : Loop) (seen : Nat) : Act ρ Unit := do
  let due := (← Run.now) + effectiveWait (← resident loop.1).iterationWait
  Run.obtain [.instant due, .event (.signalled loop)] fun s =>
    if due ≤ s.relay.now ∨ s.state.loops.count loop ≠ seen then some ((), s.state) else none

/-- Run a loop that has seen some signals until one says to stop. -/
def poll (send : Nat → Flight → Act ρ Reply) (loop : Loop) (seen : Nat) : Act ρ Unit :=
  Run.iterate (fun seen => do
    if (← look).loops.isOff loop then
      leave
      return .inr ()
    else if 0 < (← runRole send loop.1 loop.2) then
      Run.wait [.turn]
      return .inl seen
    else
      idle loop seen
      return .inl ((← look).loops.count loop)) Run.enough seen

/-- What a task does from its first turn on. -/
def ofTask (send : Nat → Flight → Act ρ Reply) (lead : Act ρ Unit) (v : Venue ρ) (task : Nat) :
    Act ρ Unit :=
  match v.tasks[task]? with
  | some (.listening i k) => listen i k
  | some (.polling loop seen) => poll send loop seen
  | _ => lead

end Act

/-- Let the tasks of a venue take turns until the one that leads is at its end.  It does one thing
after the other, each with full credit. -/
def Venue.run (v : Venue ρ) (send : Nat → Flight → Act ρ Reply) (deeds : List (Act ρ Unit)) :
    Option (Venue ρ) :=
  let called := (List.range v.tasks.length).map fun n => [n]
  let lead : Act ρ Unit := deeds.forM fun deed => do
    Run.refresh
    deed
  Schedule.runUntil (Act.ofTask send lead) 0 Run.enough
    { stage := { state := v, relay := { called := called } } }

end Parley
