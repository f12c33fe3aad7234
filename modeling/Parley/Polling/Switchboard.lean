/-
  Parley.Polling.Switchboard
  ────────────────────────────────
  **STARTING AND STOPPING LOOPS.**

  A loop is started and stopped by signals.  It stops when the last signal to it
  says so, and looks at it between two iterations only.  A loop that waits also
  notices when there are more signals than it has seen.

  A loop is in charge of a task.  Who stops the loop takes the task over, and
  waits until it has ended.
-/

namespace Parley.Polling

/-- The loops with their tasks, the tasks that have ended, and the signals, the last first: whether
to stop. -/
structure Switchboard (κ : Type) where
  inCharge : List (κ × Nat) := []
  finished : List Nat := []
  signals : List (κ × Bool) := []
deriving Repr

namespace Switchboard

variable {κ : Type} [DecidableEq κ]

/-- The task of a loop, unless somebody has taken it over. -/
def task? (b : Switchboard κ) (loop : κ) : Option Nat :=
  b.inCharge.lookup loop

/-- Whether a task has ended. -/
def hasEnded (b : Switchboard κ) (task : Nat) : Bool :=
  b.finished.contains task

/-- Whether a loop has a task that has not ended. -/
def isRunning (b : Switchboard κ) (loop : κ) : Bool :=
  match b.task? loop with
  | some task => !b.hasEnded task
  | none => false

/-- The signals to a loop. -/
def signalsTo (b : Switchboard κ) (loop : κ) : List Bool :=
  (b.signals.filter (·.1 = loop)).map (·.2)

/-- The number of signals to a loop. -/
def count (b : Switchboard κ) (loop : κ) : Nat :=
  (b.signalsTo loop).length

/-- Whether a loop is to stop. -/
def isOff (b : Switchboard κ) (loop : κ) : Bool :=
  (b.signalsTo loop).head? = some true

/-- Take the task of a loop over. -/
def takeOver (b : Switchboard κ) (loop : κ) : Switchboard κ :=
  { b with inCharge := b.inCharge.filter (·.1 ≠ loop) }

/-- Start a loop as a task. -/
def start (b : Switchboard κ) (loop : κ) (task : Nat) : Switchboard κ :=
  { b.takeOver loop with
    inCharge := (b.takeOver loop).inCharge ++ [(loop, task)]
    signals := (loop, false) :: b.signals }

/-- Tell a loop to stop. -/
def stop (b : Switchboard κ) (loop : κ) : Switchboard κ :=
  { b with signals := (loop, true) :: b.signals }

/-- The switchboard when a task has ended. -/
def ended (b : Switchboard κ) (task : Nat) : Switchboard κ :=
  { b with finished := task :: b.finished }

/-- A loop that was stopped and started again goes on; a stopped loop runs until its task ends. -/
example :
    let b : Switchboard Nat := {}
    let on := b.start 1 7
    (on.stop 1).isOff 1 = true
    ∧ (on.stop 1).isRunning 1 = true
    ∧ ((on.stop 1).ended 7).isRunning 1 = false
    ∧ ((on.stop 1).takeOver 1).task? 1 = none
    ∧ ((on.stop 1).start 1 8).isOff 1 = false
    ∧ ((on.stop 1).start 1 8).task? 1 = some 8
    ∧ ((on.stop 2).count 1, (on.stop 2).task? 1) = (1, some 7) := by
  decide

/-! What an operation makes of the last signal, of the number of signals, of the task in charge, and
of the tasks that have ended. -/

variable (b : Switchboard κ) (loop : κ) (task n : Nat)

@[simp] theorem count_start : (b.start loop task).count loop = b.count loop + 1 := by
  simp [count, signalsTo, start]

@[simp] theorem count_stop : (b.stop loop).count loop = b.count loop + 1 := by
  simp [count, signalsTo, stop]

@[simp] theorem count_takeOver : (b.takeOver loop).count loop = b.count loop := rfl

@[simp] theorem isOff_start : (b.start loop task).isOff loop = false := by
  simp [isOff, signalsTo, start]

@[simp] theorem isOff_stop : (b.stop loop).isOff loop = true := by
  simp [isOff, signalsTo, stop]

@[simp] theorem isOff_takeOver : (b.takeOver loop).isOff loop = b.isOff loop := rfl

@[simp] theorem task?_takeOver : (b.takeOver loop).task? loop = none := by
  refine List.lookup_eq_none_iff.mpr fun p hp => ?_
  have hne : p.1 ≠ loop := of_decide_eq_true (List.mem_filter.mp hp).2
  exact bne_iff_ne.mpr hne.symm

@[simp] theorem task?_start : (b.start loop task).task? loop = some task := by
  have hnone : ((b.takeOver loop).inCharge).lookup loop = none := b.task?_takeOver loop
  simp [task?, start, List.lookup_append, hnone]

@[simp] theorem hasEnded_start : (b.start loop task).hasEnded n = b.hasEnded n := rfl

omit [DecidableEq κ] in
@[simp] theorem hasEnded_stop : (b.stop loop).hasEnded n = b.hasEnded n := rfl

@[simp] theorem hasEnded_takeOver : (b.takeOver loop).hasEnded n = b.hasEnded n := rfl

omit [DecidableEq κ] in
theorem hasEnded_ended_iff : (b.ended task).hasEnded n = true ↔ n = task ∨ b.hasEnded n = true := by
  simp [hasEnded, ended]

end Switchboard

end Parley.Polling
