/-
  Parley.Proofs.Polling.Punctual
  ────────────────────────────────
  **A LOOP IS ON TIME.**

  A loop that was started polls at once, at once again after an iteration that did
  something, and a wait after one that did nothing, until it is stopped.  That is so
  for every script in which no sleep ends at the very instant at which the loop is
  due, and whatever goes on first where several can.  So what the jobs come to is a
  matter of the script, and of the time that its sleeps take altogether.

  An iteration did something if the counts that the jobs gave come to more than
  zero (`Tally`), as long as the word holds what they come to.

  Main result: `polled_on_schedule`.
-/
import Parley.Proofs.Polling.Progress

namespace Parley.Polling

namespace Station

variable {s : Station} {p : Poller} {script : List Instruction}

/-! ## §1. Nothing is missed. -/

theorem Inv.isRunning (hinv : Inv p s) (hcaller : s.caller = .free) :
    s.loops.isRunning () = p.isRunning := by
  obtain ⟨hoff, hdue⟩ | ⟨n, due, hon, hdue⟩ := (hinv.stands.shows hcaller).loop
  · rw [hoff.isRunning, Poller.isRunning, hdue]
    rfl
  · rw [hon.isRunning, Poller.isRunning, hdue]
    rfl

/-- When time passes, no iteration is due. -/
theorem Inv.isUpToDate_of_isStill (hinv : Inv p s) (hstill : s.isStill = true) :
    IsUpToDate s.wait s.now s.past := by
  refine isUpToDate_of_lt hinv.onTime hinv.dated fun due hdue => ?_
  cases hinv.stands with
  | off hgoal hloop hnone hjobs => rw [hloop.due] at hdue; cases hdue
  | on n instant hgoal hloop hnext hjobs huntied =>
    obtain rfl : instant = due := Option.some.inj (hloop.due.symm.trans hdue)
    rcases hloop.spell with ⟨hlast, -⟩ | ⟨hlast, -⟩
    · cases isCalled_of_isStill hstill hlast.getElem?
    · exact lt_of_isStill hstill (mem_instants_task hlast.getElem?)
  | leaving n hwaits hnow hloop hnone hjobs => rw [hloop.due] at hdue; cases hdue

theorem Inv.isUpToDate_of_untied (hinv : Inv p s) (hcaller : s.caller = .free)
    (huntied : p.due ≠ some p.now) : IsUpToDate s.wait s.now s.past := by
  refine isUpToDate_of_lt hinv.onTime hinv.dated fun due hdue => ?_
  obtain ⟨hnow, -, hloop⟩ := hinv.stands.shows hcaller
  obtain ⟨hoff, -⟩ | ⟨n, instant, hon, hnext⟩ := hloop
  · rw [hoff.due] at hdue
    cases hdue
  · obtain rfl : instant = due := Option.some.inj (hon.due.symm.trans hdue)
    refine Nat.lt_of_le_of_ne hon.now_le fun heq => huntied ?_
    rw [hnext, hnow, heq]

/-! ## §2. What the jobs give. -/

/-- What some jobs give together at a later call. -/
def given (jobs : List Scripted) (k : Nat) : Nat :=
  (jobs.map fun job => job.ahead.getD k 0).sum

/-- A job after so many calls. -/
def after (k : Nat) (job : Scripted) : Scripted :=
  ⟨job.ahead.drop k, job.calls + k⟩

theorem iterate_eq (jobs : List Scripted) :
    iterate jobs = ((jobs.map (·.call.1)).sum % wordSize, jobs.map (·.call.2)) := by
  induction jobs with
  | nil => rfl
  | cons job rest ih =>
    unfold iterate
    rw [ih, List.map_cons, List.sum_cons, List.map_cons]
    simp only [Nat.add_mod_mod]

/-- What fits into a word is added up as it is. -/
theorem iterate_after {jobs : List Scripted} {k : Nat} (hfit : given jobs k < wordSize) :
    iterate (jobs.map (after k)) = (given jobs k, jobs.map (after (k + 1))) := by
  rw [iterate_eq, List.map_map, List.map_map]
  refine Prod.ext ?_ ?_
  · have hsum : (jobs.map ((·.call.1) ∘ after k)).sum = given jobs k := by
      unfold given
      congr 1
      refine List.map_congr_left fun job _ => ?_
      show (job.ahead.drop k).headD 0 = job.ahead.getD k 0
      rw [List.headD_eq_head?_getD, List.head?_drop, List.getD_eq_getElem?_getD]
    show (jobs.map ((·.call.1) ∘ after k)).sum % wordSize = given jobs k
    rw [hsum, Nat.mod_eq_of_lt hfit]
  · refine List.map_congr_left fun job _ => ?_
    show (⟨(job.ahead.drop k).tail, job.calls + k + 1⟩ : Scripted) = after (k + 1) job
    rw [List.tail_drop]
    rfl

/-- Whether every iteration came to what the jobs gave. -/
def AddsUp (fresh : List Scripted) : List Incident → Prop
  | [] => True
  | .polled _ sum :: before => sum = given fresh (callsIn before) ∧ AddsUp fresh before
  | .told _ _ :: before => AddsUp fresh before

theorem AddsUp.sum_eq {fresh : List Scripted} {later before : List Incident} {time sum : Nat}
    (h : AddsUp fresh (later ++ .polled time sum :: before)) :
    sum = given fresh (callsIn before) := by
  induction later with
  | nil => exact h.1
  | cons incident later ih =>
    cases incident with
    | told i time => exact ih h
    | polled time sum => exact ih h.2

/-- The jobs are as they are after the calls that were made, and each iteration came to what they
gave. -/
structure Tally (fresh : List Scripted) (s : Station) : Prop where
  jobs : s.jobs = fresh.map (after (callsIn s.past))
  sums : AddsUp fresh s.past

theorem tally_opening (p : Poller) (script : List Instruction) :
    Tally p.jobs (opening p script) where
  jobs := by
    show p.jobs = p.jobs.map fun job => ⟨job.ahead.drop 0, job.calls + 0⟩
    simp only [List.drop_zero, Nat.add_zero, List.map_id']
  sums := trivial

theorem Tally.told {fresh : List Scripted} (h : Tally fresh s)
    (hfit : ∀ k, given fresh k < wordSize) (i : Instruction) (later : List Instruction) :
    Tally fresh ({ s with ahead := later, past := .told i s.now :: s.past }.tell i) := by
  refine ⟨?_, by rw [past_tell]; exact h.sums⟩
  rw [past_tell]
  cases i with
  | runOnce =>
    show (iterate s.jobs).2 = fresh.map (after (callsIn s.past + 1))
    rw [h.jobs, iterate_after (hfit _)]
  | start =>
    show (if s.loops.isRunning () then _ else _ : Station).jobs = fresh.map (after (callsIn s.past))
    split
    · exact h.jobs
    · exact h.jobs
  | sleep ms => exact h.jobs
  | stop => exact h.jobs

theorem Tally.steps {fresh : List Scripted} (h : Tally fresh s) {t : Station}
    (hfit : ∀ k, given fresh k < wordSize) (hsteps : Steps s t) : Tally fresh t := by
  cases hsteps with
  | told i later hcaller hahead => exact h.told hfit i later
  | polled n seen hcaller hspell hon =>
    have hiterate := iterate_after (hfit (callsIn s.past))
    rw [← h.jobs] at hiterate
    refine ⟨?_, ?_, h.sums⟩
    · show (iterate s.jobs).2 = fresh.map (after (callsIn s.past + 1))
      rw [hiterate]
    · rw [hiterate]
  | woken instant hcaller hle => exact ⟨h.jobs, h.sums⟩
  | joined n hcaller hended => exact ⟨h.jobs, h.sums⟩
  | left n seen hcaller hspell hoff => exact ⟨h.jobs, h.sums⟩
  | timed n instant seen hcaller hspell hle => exact ⟨h.jobs, h.sums⟩
  | heeded n instant seen hcaller hspell hnew => exact ⟨h.jobs, h.sums⟩
  | passed instant hcaller hstill hfirst => exact ⟨h.jobs, h.sums⟩

theorem Tally.run {fresh : List Scripted} (h : Tally fresh s) {t : Station}
    (hfit : ∀ k, given fresh k < wordSize) {moves : List Move} (hrun : s.run moves = some t) :
    Tally fresh t := by
  induction moves generalizing s with
  | nil =>
    obtain rfl := Option.some.inj hrun
    exact h
  | cons move later ih =>
    obtain ⟨s₁, hstep, hrun⟩ := Option.bind_eq_some_iff.mp hrun
    exact ih (h.steps hfit (Station.steps hstep)) hrun

/-! ## §3. Scripts and what they come to. -/

/-- What is so at each point of a script.  Jobs are called alike, by the caller and by the loop; an
iteration comes to what they give; the loop keeps to its timetable; time passes while the caller
sleeps, and not beyond that, and when it does, or has done so, no iteration is missing; and when the
caller does not wait, it is as late as its sleeps were long, and the jobs and the loop are where the
poller has them. -/
structure IsPunctual (p : Poller) (script : List Instruction) (s : Station) : Prop where
  script : script = s.behind ++ s.ahead
  calls : ∀ job ∈ s.jobs, job.calls = callsIn s.past
  sums : ∀ later time sum before, s.past = later ++ .polled time sum :: before →
    sum = given p.jobs (callsIn before)
  timetable : Timetable p.wait s.past
  passing : ∀ t, s.step .pass = some t →
    (∃ goal, s.caller = .asleep goal ∧ t.now ≤ goal) ∧ IsUpToDate p.wait s.now s.past
  slept : s.caller = .free → ∀ before ms, s.behind = before ++ [.sleep ms] →
    IsUpToDate p.wait s.now s.past
  now : s.caller = .free → s.now = p.now + (s.behind.map Instruction.duration).sum
  jobs : s.caller = .free → s.jobs = (p.follow s.behind).jobs
  loop : s.caller = .free → s.loops.isRunning () = (p.follow s.behind).isRunning

/-- A script comes to its end, and whenever no move is left the caller is through with it, and the
jobs are these. -/
structure EndsWith (p : Poller) (script : List Instruction) (jobs : List Scripted) : Prop where
  ends : ∃ moves s, (opening p script).run moves = some s ∧ ∀ move, s.step move = none
  through : ∀ moves s, (opening p script).run moves = some s → (∀ move, s.step move = none) →
    s.caller = .free ∧ s.ahead = [] ∧ s.jobs = jobs

theorem Inv.passing (hinv : Inv p s) {t : Station} (hstep : s.step .pass = some t) :
    (∃ goal, s.caller = .asleep goal ∧ t.now ≤ goal) ∧ IsUpToDate s.wait s.now s.past := by
  obtain ⟨hcaller, hstill, instant, hfirst, rfl⟩ := pass_eq_some hstep
  obtain ⟨goal, hasleep⟩ := hinv.asleep_of_isStill hcaller hstill
  have hle := (List.min?_eq_some_iff.mp hfirst).2 goal (mem_instants_caller hasleep)
  exact ⟨⟨goal, hasleep, hle⟩, hinv.isUpToDate_of_isStill hstill⟩

/-- A sleep of an untied script does not end at the instant at which the loop is due. -/
theorem due_ne_now {before after : List Instruction} {ms : Nat}
    (h : p.IsUntied (before ++ .sleep ms :: after)) :
    (p.follow (before ++ [.sleep ms])).due ≠ some (p.follow (before ++ [.sleep ms])).now := by
  have hsleep := ((p.isUntied_append before (.sleep ms :: after)).mp h).2.1
  rw [Poller.follow_append]
  exact hsleep

theorem Follows.isPunctual (huntied : p.IsUntied script) (htally : Tally p.jobs s)
    (h : Follows p script s) : IsPunctual p script s := by
  obtain ⟨hscript, hinv⟩ := h
  have hwait : s.wait = p.wait := hinv.wait.trans (p.wait_follow s.behind)
  refine ⟨hscript, hinv.calls, fun later time sum before hpast => ?_,
    hwait ▸ hinv.onTime.timetable, fun t hstep => ?_,
    fun hcaller before ms hbehind => ?_, fun hcaller => ?_, fun hcaller => ?_, fun hcaller => ?_⟩
  · have hsums := htally.sums
    rw [hpast] at hsums
    exact hsums.sum_eq
  · rw [← hwait]
    exact hinv.passing hstep
  · rw [hscript, hbehind, List.append_assoc] at huntied
    rw [← hwait]
    refine hinv.isUpToDate_of_untied hcaller ?_
    rw [hbehind]
    exact due_ne_now huntied
  · rw [← (hinv.stands.shows hcaller).now, Poller.now_follow]
  · exact (hinv.stands.shows hcaller).jobs.symm
  · exact hinv.isRunning hcaller

theorem endsWith (name : String) {wait : Nat} (hwait : 0 < wait) (streams : List (List Nat))
    {script : List Instruction} (huntied : (Poller.new name wait streams).IsUntied script) :
    EndsWith (.new name wait streams) script ((Poller.new name wait streams).follow script).jobs := by
  have hopening := Follows.opening name wait streams script
  refine ⟨hopening.exists_end hwait huntied, fun moves s hrun hstuck => ?_⟩
  have hfollows := hopening.run hwait huntied hrun
  obtain ⟨hcaller, hahead⟩ := hfollows.inv.over_of_stuck hstuck
  refine ⟨hcaller, hahead, ?_⟩
  have hbehind : script = s.behind := by
    rw [hfollows.script, hahead, List.append_nil]
  rw [hbehind]
  exact (hfollows.inv.stands.shows hcaller).jobs.symm

/-! ## §4. The schedule. -/

/-- Any number of jobs give any counts, of which no iteration has more than fit into a word when they
are added up, and a poller's loop has some wait; a caller follows a script in
which no sleep ends at the very instant at which the loop is due.  However the moves come:

* the loop and its jobs are punctual at each point of the script;
* there are no more moves than four for each instruction, three for each millisecond of sleep, and one
  for each count;
* the script comes to its end, and the jobs are then always the same;
* they are the same, too, if a loop that was started and not stopped since is not started again;
* and if there is one sleep that takes as long as several did. -/
theorem polled_on_schedule (name : String) {wait : Nat} (hwait : 0 < wait)
    (streams : List (List Nat)) (hfit : ∀ k, (streams.map (·.getD k 0)).sum < wordSize)
    {script : List Instruction} (huntied : (Poller.new name wait streams).IsUntied script) :
    let p := Poller.new name wait streams
    (∀ moves s, (opening p script).run moves = some s →
      IsPunctual p script s
      ∧ moves.length ≤ 4 * script.length + 3 * (script.map Instruction.duration).sum
        + (streams.map List.length).sum)
    ∧ EndsWith p script (p.follow script).jobs
    ∧ (∀ before between after, script = before ++ .start :: between ++ .start :: after →
      .stop ∉ between →
      EndsWith p (before ++ .start :: between ++ after) (p.follow script).jobs)
    ∧ (∀ before ms more after, script = before ++ (ms :: more).map .sleep ++ after →
      EndsWith p (before ++ .sleep (ms :: more).sum :: after) (p.follow script).jobs) := by
  intro p
  have hopening := Follows.opening name wait streams script
  refine ⟨fun moves s hrun => ⟨?_, ?_⟩, endsWith name hwait streams huntied, ?_, ?_⟩
  · refine (hopening.run hwait huntied hrun).isPunctual huntied ?_
    refine (tally_opening p script).run (fun k => ?_) hrun
    show ((streams.map fun ahead => ({ ahead := ahead } : Scripted)).map _).sum < wordSize
    rw [List.map_map]
    exact hfit k
  · have hwork := hopening.work_run hwait huntied hrun
    rw [work_opening] at hwork
    omega
  · rintro before between after rfl hbetween
    rw [Poller.follow_start_again before after hbetween]
    exact endsWith name hwait streams (huntied.without_start hbetween)
  · rintro before ms more after rfl
    rw [← Poller.follow_joined]
    exact endsWith name hwait streams huntied.joined

/-- Two jobs whose counts are soon used up, one of them by the caller, and a loop that is started
twice, stopped while it sleeps, and started again: its iterations, and the calls at the end, which are
as many without the second start, and with one sleep in the place of two. -/
theorem polled_between_restarts :
    let p := Poller.new "poller" 50 [[2, 0, 1], [0, 3]]
    let script : List Instruction :=
      [.runOnce, .start, .sleep 20, .start, .sleep 25, .sleep 45, .runOnce, .stop, .sleep 100,
        .start, .sleep 10, .stop]
    let moves : List Move :=
      [.caller, .caller, .caller, .loop 0 .look, .loop 0 .look, .loop 0 .look, .pass, .caller,
        .caller, .caller, .pass, .caller,
        .caller, .pass, .loop 0 .clock, .loop 0 .look, .pass, .caller,
        .caller, .caller, .loop 0 .heed, .loop 0 .look, .caller,
        .caller, .pass, .caller,
        .caller, .caller, .loop 1 .look, .pass, .caller,
        .caller, .loop 1 .heed, .loop 1 .look, .caller]
    (0 < 50 ∧ (∀ k, ([[2, 0, 1], [0, 3]].map (List.getD · k 0)).sum < wordSize)
      ∧ p.IsUntied script)
    ∧ (∃ s, (opening p script).run moves = some s
      ∧ (s.past.filter fun | .polled .. => true | .told .. => false)
        = [.polled 190 0, .polled 50 0, .polled 0 0, .polled 0 1, .polled 0 3]
      ∧ IsPunctual p script s)
    ∧ EndsWith p script [⟨[], 7⟩, ⟨[], 7⟩]
    ∧ EndsWith p
      [.runOnce, .start, .sleep 20, .sleep 25, .sleep 45, .runOnce, .stop, .sleep 100,
        .start, .sleep 10, .stop] [⟨[], 7⟩, ⟨[], 7⟩]
    ∧ EndsWith p
      [.runOnce, .start, .sleep 20, .start, .sleep 70, .runOnce, .stop, .sleep 100,
        .start, .sleep 10, .stop] [⟨[], 7⟩, ⟨[], 7⟩] := by
  intro p script moves
  have hwait : 0 < 50 := by decide
  have hfit (k : Nat) : ([[2, 0, 1], [0, 3]].map (List.getD · k 0)).sum < wordSize := by
    match k with
    | 0 | 1 | 2 => decide
    | k + 3 => exact (by decide : 0 < wordSize)
  have huntied : p.IsUntied script := by
    simp [p, script, Poller.IsUntied, Poller.obey, Poller.new, Poller.runOnce, Poller.start,
      Poller.sleep, Poller.stop, runUntil, iterate, wordSize, Scripted.call, effectiveWait]
  have hjobs : (p.follow script).jobs = [⟨[], 7⟩, ⟨[], 7⟩] := by
    simp [p, script, Poller.follow, Poller.obey, Poller.new, Poller.runOnce, Poller.start,
      Poller.sleep, Poller.stop, runUntil, iterate, wordSize, Scripted.call, effectiveWait]
  obtain ⟨hpunctual, hends, hagain, hjoined⟩ :=
    polled_on_schedule "poller" hwait [[2, 0, 1], [0, 3]] hfit huntied
  rw [hjobs] at hends
  have hagain := hagain [.runOnce] [.sleep 20] _ rfl (by decide)
  have hjoined := hjoined [.runOnce, .start, .sleep 20, .start] 25 [45] _ rfl
  rw [hjobs] at hagain hjoined
  have hpolls : ((opening p script).run moves).map
      (fun s => s.past.filter fun | .polled .. => true | .told .. => false)
      = some [.polled 190 0, .polled 50 0, .polled 0 0, .polled 0 1, .polled 0 3] := by
    decide +kernel
  obtain ⟨s, hrun, hpast⟩ := Option.map_eq_some_iff.mp hpolls
  exact ⟨⟨hwait, hfit, huntied⟩, ⟨s, hrun, hpast, (hpunctual moves s hrun).1⟩, hends, hagain, hjoined⟩

/-- If a sleep ends when the loop is due, it is open whether the loop polls once more. -/
example :
    let s := opening (.new "poller" 50 [[]]) [.start, .sleep 50, .stop]
    let before : List Move := [.caller, .caller, .loop 0 .look, .pass]
    let after : List Move := [.caller, .caller, .loop 0 .heed, .loop 0 .look, .caller]
    (s.run (before ++ after)).map (·.jobs) = some [⟨[], 1⟩]
    ∧ (s.run (before ++ [.loop 0 .clock, .loop 0 .look] ++ after)).map (·.jobs) = some [⟨[], 2⟩] := by
  decide +kernel

end Station

end Parley.Polling
