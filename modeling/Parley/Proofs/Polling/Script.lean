/-
  Parley.Proofs.Polling.Script
  ────────────────────────────────
  **WHAT A POLLER IS TOLD.**

  A caller tells a poller one thing after the other: to call its jobs once, to
  start its loop, to let time pass, to stop the loop.

      runUntil_runUntil     a loop that runs up to an instant and on to a later one
      follow_sleeps         sleeps in a row are one sleep
      follow_start_again    who starts a loop that runs does nothing

  A sleep may end at the very instant at which the loop is due; scripts in which
  none does are untied.  Both changes to a script keep it untied.
-/
import Mathlib.Algebra.Order.Ring.Nat
import Parley.Polling.Poller

namespace Parley.Polling

/-! ## §1. Scripts. -/

/-- What a poller can be told. -/
inductive Instruction where
  | runOnce
  | start
  | sleep (ms : Nat)
  | stop
deriving DecidableEq, Repr

/-- The time that passes while an instruction is carried out. -/
def Instruction.duration : Instruction → Nat
  | .sleep ms => ms
  | _ => 0

namespace Poller

/-- A poller as it is when it is new, with a job for each stream of counts. -/
def new (name : String) (wait : Nat) (streams : List (List Nat)) : Poller where
  name := name
  wait := wait
  jobs := streams.map fun ahead => { ahead := ahead }

/-- The poller when it was told something. -/
def obey (p : Poller) : Instruction → Poller
  | .runOnce => p.runOnce.2
  | .start => p.start
  | .sleep ms => p.sleep ms
  | .stop => p.stop

/-- The poller at the end of a script. -/
def follow (p : Poller) (script : List Instruction) : Poller :=
  script.foldl obey p

/-- Whether no sleep ends at the instant at which the loop is due. -/
def IsUntied (p : Poller) : List Instruction → Prop
  | [] => True
  | .sleep ms :: later => (p.sleep ms).due ≠ some (p.sleep ms).now ∧ (p.sleep ms).IsUntied later
  | i :: later => (p.obey i).IsUntied later

end Poller

/-! ## §2. The loop. -/

variable {wait horizon due : Nat} {jobs : List Scripted}

theorem effectiveWait_of_pos (hwait : 0 < wait) : effectiveWait wait = wait :=
  Nat.max_eq_left hwait

theorem runUntil_of_le (h : horizon ≤ due) : runUntil wait horizon due jobs = (due, jobs) := by
  rw [runUntil, if_neg (Nat.not_lt.mpr h)]

theorem runUntil_busy (hdue : due < horizon) (hbusy : 0 < (iterate jobs).1) :
    runUntil wait horizon due jobs = runUntil wait horizon due (iterate jobs).2 := by
  rw [runUntil, if_pos hdue, if_pos hbusy]

theorem runUntil_idle (hdue : due < horizon) (hidle : ¬ 0 < (iterate jobs).1) :
    runUntil wait horizon due jobs
      = runUntil wait horizon (due + effectiveWait wait) (iterate jobs).2 := by
  rw [runUntil, if_pos hdue, if_neg hidle]

/-- What has run up to an instant may run on to a later one. -/
theorem runUntil_runUntil {middle : Nat} (hle : middle ≤ horizon) :
    runUntil wait horizon (runUntil wait middle due jobs).1 (runUntil wait middle due jobs).2
      = runUntil wait horizon due jobs := by
  -- What is due before the earlier instant is due before the later one, too.
  fun_induction runUntil wait middle due jobs with
  | case1 due jobs hdue hbusy ih =>
    rw [ih, runUntil_busy (Nat.lt_of_lt_of_le hdue hle) hbusy]
  | case2 due jobs hdue hidle ih =>
    rw [ih, runUntil_idle (Nat.lt_of_lt_of_le hdue hle) hidle]
  | case3 due jobs hover => rfl

/-- Each job is called once more. -/
theorem calls_iterate {k : Nat} (h : ∀ job ∈ jobs, job.calls = k) :
    ∀ job ∈ (iterate jobs).2, job.calls = k + 1 := by
  induction jobs with
  | nil =>
    intro job hjob
    exact absurd hjob List.not_mem_nil
  | cons first rest ih =>
    intro job hjob
    cases hjob with
    | head =>
      show first.calls + 1 = k + 1
      rw [h first List.mem_cons_self]
    | tail _ hjob => exact ih (fun job hjob => h job (List.mem_cons_of_mem _ hjob)) job hjob

/-! ## §3. Time, and sleeps in a row. -/

namespace Poller

variable (p : Poller)

theorem sleep_sleep (first second : Nat) :
    (p.sleep first).sleep second = p.sleep (first + second) := by
  unfold sleep
  cases hdue : p.due with
  | none => simp only [Nat.add_assoc]
  | some due =>
    simp only [Nat.add_assoc]
    rw [runUntil_runUntil (by omega)]

theorem follow_append (script later : List Instruction) :
    p.follow (script ++ later) = (p.follow script).follow later :=
  List.foldl_append

theorem wait_obey (i : Instruction) : (p.obey i).wait = p.wait := by
  cases i with
  | runOnce => rfl
  | start =>
    show p.start.wait = p.wait
    unfold start
    split <;> rfl
  | sleep ms =>
    show (p.sleep ms).wait = p.wait
    unfold sleep
    split <;> rfl
  | stop => rfl

theorem now_obey (i : Instruction) : (p.obey i).now = p.now + i.duration := by
  cases i with
  | runOnce => rfl
  | start =>
    show p.start.now = p.now
    unfold start
    split <;> rfl
  | sleep ms =>
    show (p.sleep ms).now = p.now + ms
    unfold sleep
    split <;> rfl
  | stop => rfl

theorem wait_follow (script : List Instruction) : (p.follow script).wait = p.wait := by
  induction script generalizing p with
  | nil => rfl
  | cons i script ih => exact (ih (p.obey i)).trans (p.wait_obey i)

theorem now_follow (script : List Instruction) :
    (p.follow script).now = p.now + (script.map Instruction.duration).sum := by
  induction script generalizing p with
  | nil => rfl
  | cons i script ih =>
    show ((p.obey i).follow script).now = _
    rw [ih, now_obey, List.map_cons, List.sum_cons, Nat.add_assoc]

theorem follow_sleeps (ms : Nat) (more : List Nat) :
    p.follow ((ms :: more).map .sleep) = p.sleep (ms :: more).sum := by
  -- The first sleep is taken together with the second at the end.
  induction more generalizing p ms with
  | nil => rfl
  | cons next more ih =>
    show (p.sleep ms).follow ((next :: more).map .sleep) = p.sleep (ms + (next :: more).sum)
    rw [ih, sleep_sleep]

/-! ## §4. Untied scripts. -/

theorem isUntied_append (script later : List Instruction) :
    p.IsUntied (script ++ later) ↔ p.IsUntied script ∧ (p.follow script).IsUntied later := by
  induction script generalizing p with
  | nil => simp [IsUntied, follow]
  | cons i script ih =>
    cases i with
    | sleep ms =>
      show (_ ∧ (p.sleep ms).IsUntied (script ++ later)) ↔ (_ ∧ _) ∧ _
      rw [ih, and_assoc]
      rfl
    | runOnce => exact ih _
    | start => exact ih _
    | stop => exact ih _

/-- A sleep that takes as long as several ends when the last of them does. -/
theorem IsUntied.sleeps {p : Poller} {ms : Nat} {more : List Nat}
    (h : p.IsUntied ((ms :: more).map .sleep)) : p.IsUntied [.sleep (ms :: more).sum] := by
  induction more generalizing p ms with
  | nil => exact h
  | cons next more ih =>
    obtain ⟨hlast, -⟩ := ih h.2
    rw [sleep_sleep] at hlast
    exact ⟨hlast, trivial⟩

/-- A sleep in the place of several leaves the rest of a script untied. -/
theorem IsUntied.joined {p : Poller} {before after : List Instruction} {ms : Nat} {more : List Nat}
    (h : p.IsUntied (before ++ (ms :: more).map .sleep ++ after)) :
    p.IsUntied (before ++ .sleep (ms :: more).sum :: after) := by
  obtain ⟨hsleeps, hafter⟩ := (p.isUntied_append _ after).mp h
  obtain ⟨hbefore, hsleeps⟩ := (p.isUntied_append before _).mp hsleeps
  rw [follow_append, follow_sleeps] at hafter
  exact (p.isUntied_append before _).mpr ⟨hbefore, hsleeps.sleeps.1, hafter⟩

/-- At the end of the script it makes no difference. -/
theorem follow_joined (before after : List Instruction) (ms : Nat) (more : List Nat) :
    p.follow (before ++ .sleep (ms :: more).sum :: after)
      = p.follow (before ++ (ms :: more).map .sleep ++ after) := by
  rw [follow_append, follow_append, follow_append, follow_sleeps]
  rfl

/-! ## §5. A second start. -/

variable {p}

theorem start_of_isRunning (h : p.isRunning = true) : p.start = p := by
  obtain ⟨due, hdue⟩ := Option.isSome_iff_exists.mp h
  unfold start
  rw [hdue]

theorem isRunning_start (p : Poller) : p.start.isRunning = true := by
  unfold start
  cases hdue : p.due with
  | none => rfl
  | some due => simp [isRunning, hdue]

/-- A loop runs until it is stopped. -/
theorem isRunning_obey {i : Instruction} (hi : i ≠ .stop) (h : p.isRunning = true) :
    (p.obey i).isRunning = true := by
  cases i with
  | runOnce => exact h
  | start => exact isRunning_start p
  | sleep ms =>
    obtain ⟨due, hdue⟩ := Option.isSome_iff_exists.mp h
    show (p.sleep ms).isRunning = true
    simp [sleep, isRunning, hdue]
  | stop => exact absurd rfl hi

theorem isRunning_follow {script : List Instruction} (hscript : .stop ∉ script)
    (h : p.isRunning = true) : (p.follow script).isRunning = true := by
  induction script generalizing p with
  | nil => exact h
  | cons i script ih =>
    obtain ⟨hi, hscript⟩ := not_or.mp (mt List.mem_cons.mpr hscript)
    exact ih hscript (isRunning_obey (Ne.symm hi) h)

/-- When a loop was started and not stopped since, another start changes nothing. -/
theorem obey_start_again {before between : List Instruction} (hbetween : .stop ∉ between) :
    (p.follow (before ++ .start :: between)).obey .start
      = p.follow (before ++ .start :: between) := by
  have hrunning : (p.follow (before ++ .start :: between)).isRunning = true := by
    rw [follow_append]
    show ((p.follow before).start.follow between).isRunning = true
    exact isRunning_follow hbetween (isRunning_start _)
  exact start_of_isRunning hrunning

theorem follow_start_again (before after : List Instruction) {between : List Instruction}
    (hbetween : .stop ∉ between) :
    p.follow (before ++ .start :: between ++ .start :: after)
      = p.follow (before ++ .start :: between ++ after) := by
  rw [follow_append, follow_append _ _ after]
  show ((p.follow (before ++ .start :: between)).obey .start).follow after = _
  rw [obey_start_again hbetween]

theorem IsUntied.without_start {before between after : List Instruction}
    (hbetween : .stop ∉ between)
    (h : p.IsUntied (before ++ .start :: between ++ .start :: after)) :
    p.IsUntied (before ++ .start :: between ++ after) := by
  obtain ⟨hbefore, hafter⟩ := (p.isUntied_append _ _).mp h
  refine (p.isUntied_append _ _).mpr ⟨hbefore, ?_⟩
  have hagain : ((p.follow (before ++ .start :: between)).obey .start).IsUntied after := hafter
  rwa [obey_start_again hbetween] at hagain

end Poller

end Parley.Polling
