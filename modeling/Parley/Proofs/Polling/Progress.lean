/-
  Parley.Proofs.Polling.Progress
  ────────────────────────────────
  **A CALLER GETS THROUGH ITS SCRIPT.**

  A caller follows a script in which no sleep ends at the very instant at which the
  loop is due.  Whatever goes on first where several can, the station stands for the
  poller at the same point of the script (`Follows.run`).  Each move takes something
  off what is left to do (`work_steps`), and while the script is not over there is a
  move (`Inv.over_of_stuck`); so the script comes to its end (`Follows.exists_end`).
-/
import Parley.Proofs.Polling.Standing

namespace Parley.Polling

namespace Station

variable {s s' : Station} {p : Poller} {script : List Instruction} {n : Nat}

/-! ## §1. Runs. -/

/-- The station stands for the poller that was told the script as far as the caller was. -/
structure Follows (p : Poller) (script : List Instruction) (s : Station) : Prop where
  script : script = s.behind ++ s.ahead
  inv : Inv (p.follow s.behind) s

theorem Inv.wait_pos (hinv : Inv (p.follow script) s) (hwait : 0 < p.wait) : 0 < s.wait := by
  rw [hinv.wait, Poller.wait_follow]
  exact hwait

theorem Follows.opening (name : String) (wait : Nat) (streams : List (List Nat))
    (script : List Instruction) :
    Follows (.new name wait streams) script (opening (.new name wait streams) script) := by
  refine ⟨rfl, rfl, fun k hk => ?_, fun job hjob => ?_, fun x hx => ?_, trivial, ?_⟩
  · cases hk
  · obtain ⟨ahead, -, rfl⟩ := List.mem_map.mp hjob
    rfl
  · cases hx
  · exact .off rfl ⟨rfl, ⟨0, rfl⟩, rfl⟩ rfl rfl

theorem behind_tell {i : Instruction} {later : List Instruction} :
    behind (({ s with ahead := later, past := .told i s.now :: s.past } : Station).tell i)
      = s.behind ++ [i] := by
  unfold behind
  rw [past_tell]
  exact List.reverse_cons

theorem Follows.steps (hwait : 0 < p.wait) (huntied : p.IsUntied script) (h : Follows p script s)
    (hsteps : Steps s s') : Follows p script s' := by
  obtain ⟨hscript, hinv⟩ := h
  cases hsteps with
  | told i later hcaller hahead =>
    refine ⟨?_, ?_⟩
    · rw [ahead_tell, behind_tell, List.append_assoc, hscript, hahead]
      rfl
    · rw [hscript, hahead] at huntied
      have hrest := ((p.isUntied_append s.behind (i :: later)).mp huntied).2
      have hnext := (((p.follow s.behind).isUntied_append [i] later).mp hrest).1
      rw [behind_tell, Poller.follow_append]
      exact hinv.told hcaller hnext
  | woken instant hcaller hle => exact ⟨hscript, hinv.woken hcaller hle⟩
  | joined n hcaller hended => exact ⟨hscript, hinv.joined hcaller hended⟩
  | left n seen hcaller hspell hoff => exact ⟨hscript, hinv.left hspell hoff⟩
  | polled n seen hcaller hspell hon =>
    exact ⟨hscript, hinv.polled (hinv.wait_pos hwait) hcaller hspell hon⟩
  | timed n instant seen hcaller hspell hle => exact ⟨hscript, hinv.timed hspell hle⟩
  | heeded n instant seen hcaller hspell hnew => exact ⟨hscript, hinv.heeded hspell hnew⟩
  | passed instant hcaller hstill hfirst => exact ⟨hscript, hinv.passed hcaller hstill hfirst⟩

theorem Follows.run (hwait : 0 < p.wait) (huntied : p.IsUntied script) {moves : List Move}
    (h : Follows p script s) (hrun : s.run moves = some s') : Follows p script s' := by
  induction moves generalizing s with
  | nil =>
    obtain rfl := Option.some.inj hrun
    exact h
  | cons move later ih =>
    obtain ⟨s₁, hstep, hrun⟩ := Option.bind_eq_some_iff.mp hrun
    exact ih (h.steps hwait huntied (Station.steps hstep)) hrun

/-! ## §2. What is left to do. -/

/-- The time that is to pass. -/
def timeLeft (s : Station) : Nat :=
  (match s.caller with
    | .asleep instant => instant - s.now
    | _ => 0)
  + (s.ahead.map Instruction.duration).sum

/-- The turns that a loop's task takes before it sleeps for an instant that is yet to come, if it does
not find any work. -/
def unrest (s : Station) : Spell → Nat
  | .up _ => 1
  | .asleep instant seen => if s.isCalled (.asleep instant seen) then 2 else 0
  | .ended => 0

/-- What is left of the caller: its script, and the wait in which it is.  To be told something is a move
and may leave a wait, which is a move, and an unrest of two; so may time that passes, less the wait. -/
def callerWork (s : Station) : Nat :=
  4 * s.ahead.length + (if s.caller = .free then 0 else 1) + 3 * s.timeLeft

/-- A bound on the moves that are yet to be made. -/
def work (s : Station) : Nat :=
  s.callerWork + remaining s.jobs + (s.tasks.map s.unrest).sum

theorem unrest_le (s : Station) (spell : Spell) : s.unrest spell ≤ 2 := by
  cases spell with
  | up seen => exact Nat.le_succ 1
  | asleep instant seen =>
    show (if _ then 2 else 0) ≤ 2
    split <;> omega
  | ended => exact Nat.zero_le 2

theorem sum_unrest_of_last {spell : Spell} (h : IsLast s.tasks n spell) :
    (s.tasks.map s.unrest).sum = s.unrest spell := by
  rw [h]
  simp [unrest]

theorem sum_unrest_of_ended (h : s.tasks = List.replicate n .ended) :
    (s.tasks.map s.unrest).sum = 0 := by
  rw [h]
  simp [unrest]

/-- The tasks are over, or all but the last of them are. -/
theorem Inv.ended_or_isLast (hinv : Inv p s) :
    (∃ n, s.tasks = List.replicate n .ended) ∨ ∃ n spell, IsLast s.tasks n spell := by
  cases hinv.stands with
  | off hgoal hloop hdue hjobs => exact .inl hloop.ended
  | on n due hgoal hloop hdue hjobs huntied =>
    obtain ⟨hlast, -⟩ | ⟨hlast, -⟩ := hloop.spell
    · exact .inr ⟨n, _, hlast⟩
    · exact .inr ⟨n, _, hlast⟩
  | leaving n hwaits hnow hloop hdue hjobs =>
    obtain ⟨spell, hlast, -⟩ := hloop.spell
    exact .inr ⟨n, spell, hlast⟩

/-- One task at most is restless. -/
theorem Inv.sum_unrest_le (hinv : Inv p s) : (s.tasks.map s.unrest).sum ≤ 2 := by
  obtain ⟨n, hended⟩ | ⟨n, spell, hlast⟩ := hinv.ended_or_isLast
  · rw [sum_unrest_of_ended hended]
    omega
  · rw [sum_unrest_of_last hlast]
    exact unrest_le s spell

/-- A task that is not over is the last one. -/
theorem Inv.isLast (hinv : Inv p s) {spell : Spell} (hspell : s.tasks[n]? = some spell)
    (hspell' : spell ≠ .ended) : IsLast s.tasks n spell := by
  obtain ⟨m, hended⟩ | ⟨m, other, hlast⟩ := hinv.ended_or_isLast
  · rw [hended] at hspell
    exact absurd (List.eq_of_mem_replicate (List.mem_of_getElem? hspell)) hspell'
  · obtain ⟨rfl, rfl⟩ := hlast.eq_of_getElem? hspell hspell'
    exact hlast

/-- A loop that is not to stop has seen all signals. -/
theorem Inv.seen_eq (hinv : Inv p s) {seen : Nat} (hspell : s.tasks[n]? = some (.up seen))
    (hon : s.loops.isOff () = false) : seen = s.loops.count () := by
  cases hinv.stands with
  | off hgoal hloop hdue hjobs => cases hloop.spell_eq hspell
  | on m due hgoal hloop hdue hjobs huntied => exact (hloop.up hspell).2.1
  | leaving m hwaits hnow hloop hdue hjobs => rw [hloop.off] at hon; cases hon

/-- When nobody can go on, the caller sleeps, unless it is free. -/
theorem Inv.asleep_of_isStill (hinv : Inv p s) (hcaller : s.caller ≠ .free)
    (hstill : s.isStill = true) : ∃ goal, s.caller = .asleep goal := by
  cases hwaits : s.caller with
  | free => exact absurd hwaits hcaller
  | asleep goal => exact ⟨goal, rfl⟩
  | awaiting m =>
    cases hinv.stands with
    | off hgoal hloop hdue hjobs => simp only [IsUntil, hwaits] at hgoal
    | on k due hgoal hloop hdue hjobs huntied => simp only [IsUntil, hwaits] at hgoal
    | leaving k hawaits hnow hloop hdue hjobs =>
      rw [hloop.not_isStill hawaits] at hstill
      cases hstill

theorem remaining_tell (s : Station) (i : Instruction) :
    remaining (s.tell i).jobs ≤ remaining s.jobs := by
  cases i with
  | runOnce => exact remaining_iterate_le s.jobs
  | start =>
    show remaining (if s.loops.isRunning () then s else _).jobs ≤ remaining s.jobs
    split <;> exact Nat.le_refl _
  | sleep ms => exact Nat.le_refl _
  | stop => exact Nat.le_refl _

/-- The time that an instruction takes is yet to pass when the caller is told. -/
theorem timeLeft_tell (s : Station) (i : Instruction) (hcaller : s.caller = .free) :
    (s.tell i).timeLeft = i.duration + (s.ahead.map Instruction.duration).sum := by
  cases i with
  | runOnce => simp [tell, timeLeft, hcaller, Instruction.duration]
  | start =>
    unfold tell
    dsimp only
    split <;> simp [timeLeft, hcaller, Instruction.duration]
  | sleep ms => simp [tell, timeLeft, Instruction.duration]
  | stop =>
    cases htask : s.loops.task? () <;> simp [tell, timeLeft, htask, Instruction.duration]

/-- An instruction is worth more than the wait that comes of it. -/
theorem callerWork_told {i : Instruction} {later : List Instruction} (hcaller : s.caller = .free)
    (hahead : s.ahead = i :: later) :
    callerWork (({ s with ahead := later, past := .told i s.now :: s.past } : Station).tell i) + 3
      ≤ s.callerWork := by
  have htime := timeLeft_tell { s with ahead := later, past := .told i s.now :: s.past } i hcaller
  have hbefore : s.timeLeft = i.duration + (later.map Instruction.duration).sum := by
    simp [timeLeft, hcaller, hahead]
  have hlength : s.ahead.length = later.length + 1 := by rw [hahead, List.length_cons]
  unfold callerWork
  rw [ahead_tell, htime, hbefore, hlength, if_pos hcaller]
  dsimp only
  split <;> omega

theorem callerWork_woken {instant : Nat} (hcaller : s.caller = .asleep instant)
    (hle : instant ≤ s.now) : callerWork { s with caller := .free } + 1 = s.callerWork := by
  have htime : instant - s.now = 0 := by omega
  simp only [callerWork, timeLeft, hcaller, htime, reduceCtorEq, if_true, if_false]
  omega

theorem callerWork_joined (hcaller : s.caller = .awaiting n) :
    callerWork { s with caller := .free } + 1 = s.callerWork := by
  simp only [callerWork, timeLeft, hcaller, reduceCtorEq, if_true, if_false]
  omega

/-- Time that passes is none that is left. -/
theorem callerWork_passed {goal instant : Nat} (hcaller : s.caller = .asleep goal)
    (hlater : s.now < instant) (hle : instant ≤ goal) :
    callerWork { s with now := instant } + 3 ≤ s.callerWork := by
  simp only [callerWork, timeLeft, hcaller]
  omega

/-- The turn of a task changes the unrest of that task only. -/
theorem Inv.work_lt_of_turn (hinv : Inv p s) {spell other : Spell}
    (hspell : s.tasks[n]? = some spell) (hspell' : spell ≠ .ended)
    (htasks : s'.tasks = s.tasks.set n other) (hcaller : s'.callerWork = s.callerWork)
    (hless : remaining s'.jobs + s'.unrest other < remaining s.jobs + s.unrest spell) :
    s'.work < s.work := by
  have hlast := hinv.isLast hspell hspell'
  have hbefore : (s.tasks.map s.unrest).sum = s.unrest spell := sum_unrest_of_last hlast
  have hafter : (s'.tasks.map s'.unrest).sum = s'.unrest other :=
    sum_unrest_of_last (htasks ▸ hlast.set other)
  unfold work
  omega

/-- Each move takes something off the work. -/
theorem work_steps {p' : Poller} (hwait : 0 < s.wait) (hinv : Inv p s) (hinv' : Inv p' s')
    (hsteps : Steps s s') : s'.work < s.work := by
  have hunrest := hinv'.sum_unrest_le
  cases hsteps with
  | told i later hcaller hahead =>
    have hcallers := callerWork_told hcaller hahead
    have hremaining := remaining_tell { s with ahead := later, past := .told i s.now :: s.past } i
    unfold work
    dsimp only at hremaining
    omega
  | woken instant hcaller hle =>
    have hcallers := callerWork_woken hcaller hle
    show callerWork { s with caller := .free } + remaining s.jobs + (s.tasks.map s.unrest).sum < _
    unfold work
    omega
  | joined n hcaller hended =>
    have hcallers := callerWork_joined hcaller
    show callerWork { s with caller := .free } + remaining s.jobs + (s.tasks.map s.unrest).sum < _
    unfold work
    omega
  | left n seen hcaller hspell hoff =>
    refine hinv.work_lt_of_turn hspell Spell.noConfusion rfl rfl ?_
    show remaining s.jobs + 0 < remaining s.jobs + 1
    omega
  | polled n seen hcaller hspell hon =>
    by_cases hbusy : 0 < (iterate s.jobs).1
    · -- A count was used up.
      have hremaining := remaining_iterate_lt hbusy
      have hup : (s.poll n seen).tasks = s.tasks.set n (.up seen) := by
        rw [poll, if_pos hbusy]
      refine hinv.work_lt_of_turn hspell Spell.noConfusion hup rfl ?_
      show remaining (iterate s.jobs).2 + 1 < remaining s.jobs + 1
      omega
    · have hremaining := remaining_iterate_le s.jobs
      have hasleep : (s.poll n seen).tasks = s.tasks.set n (.asleep (s.now + s.wait) seen) := by
        rw [poll, if_neg hbusy]
      have hlater : ¬ s.now + s.wait ≤ s.now := by omega
      have hrests : (s.poll n seen).unrest (.asleep (s.now + s.wait) seen) = 0 := by
        simp [unrest, isCalled, poll, hinv.seen_eq hspell hon, hlater]
      refine hinv.work_lt_of_turn hspell Spell.noConfusion hasleep rfl ?_
      rw [hrests]
      show remaining (iterate s.jobs).2 + 0 < remaining s.jobs + 1
      omega
  | timed n instant seen hcaller hspell hle =>
    have hcalled : s.unrest (.asleep instant seen) = 2 := by simp [unrest, isCalled, hle]
    refine hinv.work_lt_of_turn hspell Spell.noConfusion rfl rfl ?_
    rw [hcalled]
    show remaining s.jobs + 1 < remaining s.jobs + 2
    omega
  | heeded n instant seen hcaller hspell hnew =>
    have hcalled : s.unrest (.asleep instant seen) = 2 := by simp [unrest, isCalled, hnew]
    refine hinv.work_lt_of_turn hspell Spell.noConfusion rfl rfl ?_
    rw [hcalled]
    show remaining s.jobs + 1 < remaining s.jobs + 2
    omega
  | passed instant hcaller hstill hfirst =>
    obtain ⟨hmem, hmin⟩ := List.min?_eq_some_iff.mp hfirst
    have hlater := lt_of_isStill hstill hmem
    obtain ⟨goal, hwaits⟩ := hinv.asleep_of_isStill hcaller hstill
    have hcallers := callerWork_passed hwaits hlater (hmin goal (mem_instants_caller hwaits))
    unfold work
    dsimp only at hunrest ⊢
    omega

theorem Follows.work_lt (hwait : 0 < p.wait) (huntied : p.IsUntied script) (h : Follows p script s)
    (hsteps : Steps s s') : s'.work < s.work :=
  work_steps (h.inv.wait_pos hwait) h.inv (h.steps hwait huntied hsteps).inv hsteps

/-- The moves that were made are no more than there were to be made. -/
theorem Follows.work_run (hwait : 0 < p.wait) (huntied : p.IsUntied script) {moves : List Move}
    (h : Follows p script s) (hrun : s.run moves = some s') : moves.length + s'.work ≤ s.work := by
  induction moves generalizing s with
  | nil =>
    obtain rfl := Option.some.inj hrun
    simp
  | cons move later ih =>
    obtain ⟨s₁, hstep, hrun⟩ := Option.bind_eq_some_iff.mp hrun
    have hmove := h.work_lt hwait huntied (Station.steps hstep)
    have hlater := ih (h.steps hwait huntied (Station.steps hstep)) hrun
    simp only [List.length_cons]
    omega

theorem work_opening (name : String) (wait : Nat) (streams : List (List Nat))
    (script : List Instruction) :
    (opening (.new name wait streams) script).work
      = 4 * script.length + 3 * (script.map Instruction.duration).sum
        + (streams.map List.length).sum := by
  have hcounts : remaining (streams.map fun ahead => ({ ahead := ahead } : Scripted))
      = (streams.map List.length).sum := by
    induction streams with
    | nil => rfl
    | cons ahead streams ih => simp only [List.map_cons, remaining, List.sum_cons, ih]
  simp [work, callerWork, timeLeft, opening, Poller.new, hcounts]

/-! ## §3. Nobody gets stuck. -/

/-- If no move can be made, nobody can go on. -/
theorem isStill_of_stuck (hcaller : s.caller ≠ .free) (hstuck : ∀ move, s.step move = none) :
    s.isStill = true := by
  have hgo : s.goOn? = none := hstuck .caller
  have hturn : ∀ n turn, s.turn? n turn = none := by
    intro n turn
    have hloop := hstuck (.loop n turn)
    rwa [step, if_neg hcaller] at hloop
  refine Bool.and_eq_true_iff.mpr ⟨by rw [hgo]; rfl, List.all_eq_true.mpr fun spell hspell => ?_⟩
  obtain ⟨n, hn⟩ := List.mem_iff_getElem?.mp hspell
  cases spell with
  | up seen =>
    have hlook := hturn n .look
    simp only [turn?, hn] at hlook
    split at hlook <;> cases hlook
  | asleep instant seen =>
    have hclock := hturn n .clock
    have hheed := hturn n .heed
    simp only [turn?, hn, ite_eq_right_iff, ite_eq_left_iff, reduceCtorEq, imp_false,
      Decidable.not_not] at hclock hheed
    simp [isCalled, hheed, Nat.lt_of_not_le hclock]
  | ended => rfl

/-- The script is over when no move can be made. -/
theorem Inv.over_of_stuck (hinv : Inv p s) (hstuck : ∀ move, s.step move = none) :
    s.caller = .free ∧ s.ahead = [] := by
  by_cases hcaller : s.caller = .free
  · refine ⟨hcaller, ?_⟩
    have hgo : s.goOn? = none := hstuck .caller
    unfold goOn? at hgo
    rw [hcaller] at hgo
    dsimp only at hgo
    split at hgo
    · assumption
    · cases hgo
  · -- The caller sleeps, and time could pass.
    have hstill := isStill_of_stuck hcaller hstuck
    obtain ⟨goal, hasleep⟩ := hinv.asleep_of_isStill hcaller hstill
    have hpass : s.pass? = none := by
      have hpass := hstuck .pass
      rwa [step, if_neg hcaller] at hpass
    rw [pass?, if_pos hstill, Option.map_eq_none_iff, List.min?_eq_none_iff] at hpass
    have hmem := mem_instants_caller hasleep
    rw [hpass] at hmem
    cases hmem

/-- Moves can be made until none is left. -/
theorem Follows.exists_end (hwait : 0 < p.wait) (huntied : p.IsUntied script)
    (h : Follows p script s) :
    ∃ moves t, s.run moves = some t ∧ ∀ move, t.step move = none := by
  -- Any move will do: it leaves less work.
  induction hwork : s.work using Nat.strongRecOn generalizing s with
  | ind k ih =>
    by_cases hstuck : ∀ move, s.step move = none
    · exact ⟨[], s, rfl, hstuck⟩
    · obtain ⟨move, hmove⟩ := Classical.not_forall.mp hstuck
      obtain ⟨s₁, hstep⟩ := Option.ne_none_iff_exists'.mp hmove
      have hless := h.work_lt hwait huntied (Station.steps hstep)
      obtain ⟨moves, t, hrun, hend⟩ :=
        ih s₁.work (hwork ▸ hless) (h.steps hwait huntied (Station.steps hstep)) rfl
      refine ⟨move :: moves, t, ?_, hend⟩
      show (s.step move).bind (Station.run · moves) = some t
      rw [hstep]
      exact hrun

end Station

end Parley.Polling
