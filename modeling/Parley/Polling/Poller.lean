/-
  Parley.Polling.Poller
  ────────────────────────────────
  **THE POLLING LOOP.**

  A poller calls its jobs in turn.  Its loop is due at an instant: an iteration
  that did something makes it due at once again, an idle one after the wait.
  Time passes only while the caller sleeps, and the loop runs only then.

  Jobs are scripted: each has a list of counts that it gives call by call, and
  gives zero from then on.  So a loop that is always busy does not exist.

  Counts are added up in a machine word.  What becomes of a sum that does not fit
  depends on how the program was built; here it starts over from zero.
-/

namespace Parley.Polling

/-! ## §1. Scripted jobs. -/

/-- A job: the counts still to come, and the number of calls so far. -/
structure Scripted where
  ahead : List Nat
  calls : Nat := 0
deriving DecidableEq, Repr

/-- Call a job. -/
def Scripted.call (s : Scripted) : Nat × Scripted :=
  (s.ahead.headD 0, ⟨s.ahead.tail, s.calls + 1⟩)

/-- The number of values of a machine word. -/
def wordSize : Nat := 18446744073709551616

/-- Call every job once and add their counts up. -/
def iterate : List Scripted → Nat × List Scripted
  | [] => (0, [])
  | s :: rest =>
    let (count, s) := s.call
    let (sum, rest) := iterate rest
    ((count + sum) % wordSize, s :: rest)

/-- The number of counts still to come. -/
def remaining : List Scripted → Nat
  | [] => 0
  | s :: rest => s.ahead.length + remaining rest

/-- An iteration leaves no more counts than there were. -/
theorem remaining_iterate_le (jobs : List Scripted) :
    remaining (iterate jobs).2 ≤ remaining jobs := by
  induction jobs with
  | nil => exact Nat.le_refl _
  | cons s rest ih =>
    simp only [remaining, iterate, Scripted.call, List.length_tail] at ih ⊢
    omega

/-- An iteration that did something used up a count. -/
theorem remaining_iterate_lt {jobs : List Scripted} (h : 0 < (iterate jobs).1) :
    remaining (iterate jobs).2 < remaining jobs := by
  induction jobs with
  | nil => simp [iterate] at h
  | cons s rest ih =>
    have hle := remaining_iterate_le rest
    simp only [remaining, iterate, Scripted.call, List.length_tail] at h ih hle ⊢
    -- What starts over from zero was more than that.
    have hsum := Nat.lt_of_lt_of_le h (Nat.mod_le _ _)
    cases hs : s.ahead with
    | nil =>
      rw [hs] at hsum
      simp only [List.headD_nil, Nat.zero_add] at hsum
      have := ih hsum
      simpa using this
    | cons n ns =>
      simp only [List.length_cons]
      omega

/-! ## §2. The loop. -/

/-- The wait after an idle iteration; a loop without a wait would never let time pass. -/
def effectiveWait (wait : Nat) : Nat :=
  max wait 1

/-- Run a loop that is due at an instant up to another one: when it is due then, and its jobs. -/
def runUntil (wait horizon due : Nat) (jobs : List Scripted) : Nat × List Scripted :=
  if due < horizon then
    if 0 < (iterate jobs).1 then runUntil wait horizon due (iterate jobs).2
    else runUntil wait horizon (due + effectiveWait wait) (iterate jobs).2
  else (due, jobs)
termination_by (horizon - due, remaining jobs)
decreasing_by
  · exact Prod.Lex.right _ (remaining_iterate_lt (by assumption))
  · refine Prod.Lex.left _ _ ?_
    unfold effectiveWait
    omega

/-! ## §3. Pollers. -/

/-- A poller: its jobs, the time, and when its loop is due if it runs. -/
structure Poller where
  name : String
  wait : Nat
  jobs : List Scripted
  now : Nat := 0
  due : Option Nat := none
deriving DecidableEq, Repr

namespace Poller

/-- Whether the loop runs. -/
def isRunning (p : Poller) : Bool :=
  p.due.isSome

/-- Call every job once, outside the loop. -/
def runOnce (p : Poller) : Nat × Poller :=
  let (sum, jobs) := iterate p.jobs
  (sum, { p with jobs := jobs })

/-- Start the loop; a running loop goes on as before. -/
def start (p : Poller) : Poller :=
  match p.due with
  | some _ => p
  | none => { p with due := some p.now }

/-- Stop the loop. -/
def stop (p : Poller) : Poller :=
  { p with due := none }

/-- Let time pass. -/
def sleep (p : Poller) (ms : Nat) : Poller :=
  match p.due with
  | none => { p with now := p.now + ms }
  | some due =>
    let (due, jobs) := runUntil p.wait (p.now + ms) due p.jobs
    { p with now := p.now + ms, due := some due, jobs := jobs }

end Poller

end Parley.Polling
