/-
  Parley.Proofs.Polling.Station
  ────────────────────────────────
  **A LOOP AND ITS CALLER.**

  A poller says when its loop is due, and no more.  At a station it can be seen how
  that comes about.  The caller is a task that follows a script, and each start of
  the loop makes one more task.  One of them acts at a time.

      the caller   keeps its turn until it waits: for an instant, or for a task to
                   end, which is what a stop does
      a loop       when it is up it looks at the last signal: it ends, or it calls
                   all jobs; it stays up if that did something, and otherwise it
                   sleeps until an instant, or until there are more signals than it
                   has seen
      time         passes when nobody can go on, up to the first instant for which
                   somebody sleeps

  Signals and the tasks in charge are kept on a switchboard
  (`Parley.Polling.Switchboard`); there is always somebody who can send signals.
  Where several can go on it is left open who does.

  Main result: `steps`, what a move can do.
-/
import Parley.Polling.Switchboard
import Parley.Proofs.Polling.Timetable

namespace Parley.Polling

/-! ## §1. Stations. -/

/-- Where a loop's task is, and how many signals it has seen. -/
inductive Spell where
  | up (seen : Nat)
  | asleep (instant seen : Nat)
  | ended
deriving DecidableEq, Repr

/-- Whether the caller waits, and for what. -/
inductive Caller where
  | free
  | asleep (instant : Nat)
  | awaiting (task : Nat)
deriving DecidableEq, Repr

/-- The wait after an idle iteration, the jobs and the time; the loop's tasks; the caller with the
rest of its script; and what has happened, the last first. -/
structure Station where
  wait : Nat
  jobs : List Scripted
  now : Nat
  loops : Switchboard Unit := {}
  tasks : List Spell := []
  caller : Caller := .free
  ahead : List Instruction
  past : List Incident := []
deriving Repr

namespace Station

/-- A poller at the beginning of a script. -/
def opening (p : Poller) (script : List Instruction) : Station where
  wait := p.wait
  jobs := p.jobs
  now := p.now
  ahead := script

/-- The script as far as the caller was told it. -/
def behind (s : Station) : List Instruction :=
  (toldIn s.past).reverse

/-- What a loop's task does when it has its turn: it looks at the last signal, gets up because its
instant has come, or gets up because of a signal. -/
inductive Turn where
  | look
  | clock
  | heed
deriving DecidableEq, Repr

/-- What can happen at a station. -/
inductive Move where
  | caller
  | loop (task : Nat) (turn : Turn)
  | pass
deriving DecidableEq, Repr

/-! ## §2. Moves. -/

/-- The caller does what comes next in its script. -/
def tell (s : Station) : Instruction → Station
  | .runOnce => { s with jobs := (iterate s.jobs).2 }
  | .start =>
    if s.loops.isRunning () then s
    else
      let loops := s.loops.start () s.tasks.length
      { s with loops := loops, tasks := s.tasks ++ [.up (loops.count ())] }
  | .sleep ms => { s with caller := .asleep (s.now + ms) }
  | .stop =>
    { s with
      loops := (s.loops.stop ()).takeOver ()
      caller :=
        match s.loops.task? () with
        | none => .free
        | some n => .awaiting n }

/-- The caller goes on. -/
def goOn? (s : Station) : Option Station :=
  match s.caller with
  | .free =>
    match s.ahead with
    | [] => none
    | i :: later => some ({ s with ahead := later, past := .told i s.now :: s.past }.tell i)
  | .asleep instant => if instant ≤ s.now then some { s with caller := .free } else none
  | .awaiting n => if s.loops.hasEnded n then some { s with caller := .free } else none

/-- A loop calls all jobs. -/
def poll (s : Station) (n seen : Nat) : Station :=
  { s with
    jobs := (iterate s.jobs).2
    tasks := s.tasks.set n
      (if 0 < (iterate s.jobs).1 then .up seen else .asleep (s.now + s.wait) seen)
    past := .polled s.now (iterate s.jobs).1 :: s.past }

/-- A loop's task goes on. -/
def turn? (s : Station) (n : Nat) : Turn → Option Station
  | .look =>
    match s.tasks[n]? with
    | some (.up seen) =>
      if s.loops.isOff () then
        some { s with loops := s.loops.ended n, tasks := s.tasks.set n .ended }
      else some (s.poll n seen)
    | _ => none
  | .clock =>
    match s.tasks[n]? with
    | some (.asleep instant seen) =>
      if instant ≤ s.now then some { s with tasks := s.tasks.set n (.up seen) } else none
    | _ => none
  | .heed =>
    match s.tasks[n]? with
    | some (.asleep _ seen) =>
      if seen = s.loops.count () then none
      else some { s with tasks := s.tasks.set n (.up (s.loops.count ())) }
    | _ => none

/-- Whether a loop's task can go on. -/
def isCalled (s : Station) : Spell → Bool
  | .up _ => true
  | .asleep instant seen => instant ≤ s.now || seen ≠ s.loops.count ()
  | .ended => false

/-- Whether nobody can go on. -/
def isStill (s : Station) : Bool :=
  s.goOn?.isNone && s.tasks.all fun spell => !s.isCalled spell

/-- The instants for which somebody sleeps. -/
def instants (s : Station) : List Nat :=
  (match s.caller with
    | .asleep instant => [instant]
    | _ => [])
  ++ s.tasks.filterMap fun
    | .asleep instant _ => some instant
    | _ => none

/-- Time passes. -/
def pass? (s : Station) : Option Station :=
  if s.isStill then s.instants.min?.map fun instant => { s with now := instant } else none

/-- A move, if it can be made: while the caller does not wait it has the turn. -/
def step (s : Station) : Move → Option Station
  | .caller => s.goOn?
  | .loop n turn => if s.caller = .free then none else s.turn? n turn
  | .pass => if s.caller = .free then none else s.pass?

/-- Moves, one after the other. -/
def run (s : Station) : List Move → Option Station
  | [] => some s
  | move :: later => (s.step move).bind (·.run later)

/-- What a move can do. -/
inductive Steps (s : Station) : Station → Prop
  | told (i : Instruction) (later : List Instruction) (hcaller : s.caller = .free)
      (hahead : s.ahead = i :: later) :
      Steps s ({ s with ahead := later, past := .told i s.now :: s.past }.tell i)
  | woken (instant : Nat) (hcaller : s.caller = .asleep instant) (hle : instant ≤ s.now) :
      Steps s { s with caller := .free }
  | joined (n : Nat) (hcaller : s.caller = .awaiting n) (hended : s.loops.hasEnded n = true) :
      Steps s { s with caller := .free }
  | left (n seen : Nat) (hcaller : s.caller ≠ .free) (hspell : s.tasks[n]? = some (.up seen))
      (hoff : s.loops.isOff () = true) :
      Steps s { s with loops := s.loops.ended n, tasks := s.tasks.set n .ended }
  | polled (n seen : Nat) (hcaller : s.caller ≠ .free) (hspell : s.tasks[n]? = some (.up seen))
      (hon : s.loops.isOff () = false) : Steps s (s.poll n seen)
  | timed (n instant seen : Nat) (hcaller : s.caller ≠ .free)
      (hspell : s.tasks[n]? = some (.asleep instant seen)) (hle : instant ≤ s.now) :
      Steps s { s with tasks := s.tasks.set n (.up seen) }
  | heeded (n instant seen : Nat) (hcaller : s.caller ≠ .free)
      (hspell : s.tasks[n]? = some (.asleep instant seen)) (hnew : seen ≠ s.loops.count ()) :
      Steps s { s with tasks := s.tasks.set n (.up (s.loops.count ())) }
  | passed (instant : Nat) (hcaller : s.caller ≠ .free) (hstill : s.isStill = true)
      (hfirst : s.instants.min? = some instant) : Steps s { s with now := instant }

variable {s s' : Station} {move : Move}

theorem ahead_tell (s : Station) (i : Instruction) : (s.tell i).ahead = s.ahead := by
  cases i with
  | runOnce => rfl
  | start =>
    show (if s.loops.isRunning () then s else _).ahead = s.ahead
    split <;> rfl
  | sleep ms => rfl
  | stop => rfl

theorem past_tell (s : Station) (i : Instruction) : (s.tell i).past = s.past := by
  cases i with
  | runOnce => rfl
  | start =>
    show (if s.loops.isRunning () then s else _).past = s.past
    split <;> rfl
  | sleep ms => rfl
  | stop => rfl

theorem steps_goOn (hstep : s.goOn? = some s') : Steps s s' := by
  unfold goOn? at hstep
  split at hstep
  · rename_i hcaller
    split at hstep
    · cases hstep
    · rename_i i later hahead
      obtain rfl := Option.some.inj hstep
      exact .told i later hcaller hahead
  · rename_i instant hcaller
    split at hstep
    · rename_i hle
      obtain rfl := Option.some.inj hstep
      exact .woken instant hcaller hle
    · cases hstep
  · rename_i n hcaller
    split at hstep
    · rename_i hended
      obtain rfl := Option.some.inj hstep
      exact .joined n hcaller hended
    · cases hstep

theorem steps_turn {n : Nat} {turn : Turn} (hcaller : s.caller ≠ .free)
    (hstep : s.turn? n turn = some s') : Steps s s' := by
  cases turn with
  | look =>
    dsimp only [turn?] at hstep
    split at hstep
    · rename_i seen hspell
      split at hstep
      · rename_i hoff
        obtain rfl := Option.some.inj hstep
        exact .left n seen hcaller hspell hoff
      · rename_i hon
        obtain rfl := Option.some.inj hstep
        exact .polled n seen hcaller hspell (Bool.not_eq_true _ ▸ hon)
    · cases hstep
  | clock =>
    dsimp only [turn?] at hstep
    split at hstep
    · rename_i instant seen hspell
      split at hstep
      · rename_i hle
        obtain rfl := Option.some.inj hstep
        exact .timed n instant seen hcaller hspell hle
      · cases hstep
    · cases hstep
  | heed =>
    dsimp only [turn?] at hstep
    split at hstep
    · rename_i instant seen hspell
      split at hstep
      · cases hstep
      · rename_i hnew
        obtain rfl := Option.some.inj hstep
        exact .heeded n instant seen hcaller hspell hnew
    · cases hstep

/-- Time passes up to the first instant for which somebody sleeps. -/
theorem pass_eq_some (hstep : s.step .pass = some s') :
    s.caller ≠ .free ∧ s.isStill = true
      ∧ ∃ instant, s.instants.min? = some instant ∧ { s with now := instant } = s' := by
  dsimp only [step, pass?] at hstep
  split at hstep
  · cases hstep
  · rename_i hcaller
    split at hstep
    · rename_i hstill
      exact ⟨hcaller, hstill, Option.map_eq_some_iff.mp hstep⟩
    · cases hstep

theorem steps (hstep : s.step move = some s') : Steps s s' := by
  cases move with
  | caller => exact steps_goOn hstep
  | loop n turn =>
    dsimp only [step] at hstep
    split at hstep
    · cases hstep
    · rename_i hcaller
      exact steps_turn hcaller hstep
  | pass =>
    obtain ⟨hcaller, hstill, instant, hfirst, rfl⟩ := pass_eq_some hstep
    exact .passed instant hcaller hstill hfirst

end Station

end Parley.Polling
