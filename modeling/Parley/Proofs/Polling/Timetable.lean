/-
  Parley.Proofs.Polling.Timetable
  ────────────────────────────────
  **WHEN A LOOP POLLS.**

  What happens to a poller is that it is told something, and that its loop polls:
  an iteration that comes to a sum at a time.  All that is written down, the last
  first, and it says when the next iteration is due: at once after a start, unless
  the loop ran already; at once after an iteration that did something; after the
  wait after an idle one; never after a stop.

  A loop is on time if each of its iterations came when it was due.  Then it keeps
  to a timetable (`IsOnTime.timetable`), which says the same of iterations that
  follow upon each other; and if none is overdue, none is missing
  (`isUpToDate_of_lt`).
-/
import Parley.Proofs.Polling.Script

namespace Parley.Polling

/-! ## §1. What happened. -/

/-- Something that happened: the caller told something, or the loop called all jobs. -/
inductive Incident where
  | told (i : Instruction) (time : Nat)
  | polled (time sum : Nat)
deriving DecidableEq, Repr

/-- The time of what happened. -/
def Incident.time : Incident → Nat
  | .told _ time => time
  | .polled time _ => time

/-- What the caller was told, the last first. -/
def toldIn : List Incident → List Instruction
  | [] => []
  | .told i _ :: before => i :: toldIn before
  | .polled _ _ :: before => toldIn before

/-- When the loop is due after all that, the last of it first. -/
def dueAfter (wait : Nat) : List Incident → Option Nat
  | [] => none
  | .polled time sum :: _ => some (if 0 < sum then time else time + wait)
  | .told .start time :: before => some ((dueAfter wait before).getD time)
  | .told .stop _ :: _ => none
  | .told _ _ :: before => dueAfter wait before

/-- Whether the loop was started and not stopped since. -/
def isOnAfter : List Incident → Bool
  | [] => false
  | .told .start _ :: _ => true
  | .told .stop _ :: _ => false
  | _ :: before => isOnAfter before

/-- How often each job was called. -/
def callsIn : List Incident → Nat
  | [] => 0
  | .told .runOnce _ :: before => callsIn before + 1
  | .told _ _ :: before => callsIn before
  | .polled _ _ :: before => callsIn before + 1

/-- Whether every iteration came when it was due. -/
def IsOnTime (wait : Nat) : List Incident → Prop
  | [] => True
  | .polled time _ :: before => dueAfter wait before = some time ∧ IsOnTime wait before
  | .told _ _ :: before => IsOnTime wait before

/-! ## §2. Timetables. -/

/-- Whether the loop neither polled nor was stopped. -/
def IsQuiet (past : List Incident) : Prop :=
  ∀ incident ∈ past, ∃ i time, incident = .told i time ∧ i ≠ .stop

/-- The loop polls after a start only, and not after a stop; first at the time of the start, and then
at the time of the iteration before if that did something, and a wait later if it did nothing. -/
structure Timetable (wait : Nat) (past : List Incident) : Prop where
  on : ∀ later time sum before, past = later ++ .polled time sum :: before →
    isOnAfter before = true
  first : ∀ later time sum between start before,
    past = later ++ .polled time sum :: (between ++ .told .start start :: before) →
    IsQuiet between → isOnAfter before = false → time = start
  next : ∀ later time sum between time' sum' before,
    past = later ++ .polled time sum :: (between ++ .polled time' sum' :: before) →
    IsQuiet between → time = if 0 < sum' then time' else time' + wait

/-- As long as it was not stopped, a loop has polled since it was started, the last iteration did
nothing, and the wait after it is not over yet. -/
structure IsUpToDate (wait now : Nat) (past : List Incident) : Prop where
  polled : ∀ between start before, past = between ++ .told .start start :: before →
    isOnAfter before = false → ¬ IsQuiet between
  idle : ∀ between time sum before, past = between ++ .polled time sum :: before →
    IsQuiet between → sum = 0 ∧ now < time + wait

variable {wait : Nat}

theorem IsOnTime.of_append {later before : List Incident} (h : IsOnTime wait (later ++ before)) :
    IsOnTime wait before := by
  induction later with
  | nil => exact h
  | cons incident later ih =>
    cases incident with
    | told i time => exact ih h
    | polled time sum => exact ih h.2

/-- The loop is on exactly if it is due at some time. -/
theorem IsOnTime.isSome_dueAfter {past : List Incident} (h : IsOnTime wait past) :
    (dueAfter wait past).isSome = isOnAfter past := by
  induction past with
  | nil => rfl
  | cons incident before ih =>
    cases incident with
    | told i time =>
      cases i with
      | start => rfl
      | stop => rfl
      | runOnce => exact ih h
      | sleep ms => exact ih h
    | polled time sum =>
      -- It came when it was due, so the loop was on before.
      show true = isOnAfter before
      rw [← ih h.2, h.1]
      rfl

/-- Being told something that is no stop makes no difference to a loop that is on. -/
theorem dueAfter_quiet {between before : List Incident} {due : Nat} (hquiet : IsQuiet between)
    (h : dueAfter wait before = some due) : dueAfter wait (between ++ before) = some due := by
  induction between with
  | nil => exact h
  | cons incident between ih =>
    obtain ⟨i, time, rfl, hi⟩ := hquiet _ List.mem_cons_self
    have hrest := ih fun x hx => hquiet x (List.mem_cons_of_mem _ hx)
    cases i with
    | runOnce => exact hrest
    | sleep ms => exact hrest
    | start =>
      show some ((dueAfter wait (between ++ before)).getD time) = some due
      rw [hrest]
      rfl
    | stop => exact absurd rfl hi

/-- A loop that was off is due at the time of its start, until it polls. -/
theorem IsOnTime.dueAfter_start {between before : List Incident} {start : Nat}
    (h : IsOnTime wait (between ++ .told .start start :: before)) (hquiet : IsQuiet between)
    (hoff : isOnAfter before = false) :
    dueAfter wait (between ++ .told .start start :: before) = some start := by
  have hbefore : IsOnTime wait before := h.of_append
  have hnone : dueAfter wait before = none := by
    rw [← Option.not_isSome_iff_eq_none, hbefore.isSome_dueAfter, hoff]
    exact Bool.false_ne_true
  refine dueAfter_quiet hquiet ?_
  show some ((dueAfter wait before).getD start) = some start
  rw [hnone]
  rfl

theorem IsOnTime.timetable {past : List Incident} (h : IsOnTime wait past) :
    Timetable wait past where
  on := by
    rintro later time sum before rfl
    obtain ⟨hdue, hbefore⟩ := h.of_append
    rw [← hbefore.isSome_dueAfter, hdue]
    rfl
  first := by
    rintro later time sum between start before rfl hquiet hoff
    obtain ⟨hdue, hbetween⟩ := h.of_append
    have hstart := hbetween.dueAfter_start hquiet hoff
    exact Option.some.inj (hdue.symm.trans hstart)
  next := by
    rintro later time sum between time' sum' before rfl hquiet
    obtain ⟨hdue, -⟩ := h.of_append
    exact Option.some.inj (hdue.symm.trans (dueAfter_quiet hquiet rfl))

/-- If nothing that happened is yet to come, and what is due is, then no iteration is missing. -/
theorem isUpToDate_of_lt {now : Nat} {past : List Incident} (h : IsOnTime wait past)
    (hdated : ∀ incident ∈ past, incident.time ≤ now)
    (hdue : ∀ due, dueAfter wait past = some due → now < due) : IsUpToDate wait now past where
  polled := by
    rintro between start before rfl hoff hquiet
    have hafter := hdue start (h.dueAfter_start hquiet hoff)
    have hbefore : start ≤ now := hdated (.told .start start) (by simp)
    omega
  idle := by
    rintro between time sum before rfl hquiet
    have hafter := hdue _ (dueAfter_quiet hquiet rfl)
    have hbefore : time ≤ now := hdated (.polled time sum) (by simp)
    split at hafter
    · omega
    · omega

end Parley.Polling
