/-
  Parley.Proofs.Polling.Standing
  ────────────────────────────────
  **A STATION STANDS FOR A POLLER.**

  The loop's tasks of a station are over, but for the last of them.  That one is in
  charge and has seen all signals, and it is due when it is due according to what
  has happened (`IsOn`); or it was told to stop, which it has not seen yet
  (`IsLeaving`); or it is over, too (`IsOff`).

  The poller that a station stands for (`Inv`) is as it will be when the caller is
  done with what it was told last.  So it changes when the caller is told something
  (`Inv.told`), and every other move leaves it as it is: while the caller sleeps,
  an iteration is one of those that the poller's loop runs up to the end of the
  sleep.
-/
import Parley.Proofs.Polling.Station

namespace Parley.Polling

namespace Station

/-! ## §1. The last task. -/

/-- Whether a task is the last of all, and the others are over. -/
def IsLast (tasks : List Spell) (n : Nat) (spell : Spell) : Prop :=
  tasks = List.replicate n .ended ++ [spell]

section Last

variable {tasks : List Spell} {n : Nat} {spell : Spell}

theorem IsLast.set (h : IsLast tasks n spell) (other : Spell) :
    IsLast (tasks.set n other) n other := by
  subst h
  simp [IsLast]

theorem IsLast.getElem? (h : IsLast tasks n spell) : tasks[n]? = some spell := by
  subst h
  simp

/-- A task that is not over is the last one. -/
theorem IsLast.eq_of_getElem? (h : IsLast tasks n spell) {k : Nat} {other : Spell}
    (hk : tasks[k]? = some other) (hother : other ≠ .ended) : k = n ∧ other = spell := by
  subst h
  rw [List.getElem?_append] at hk
  split at hk
  · rw [List.getElem?_replicate] at hk
    split at hk
    · exact absurd (Option.some.inj hk).symm hother
    · cases hk
  · rename_i hle
    rw [List.length_replicate] at hle hk
    obtain ⟨hlt, rfl⟩ := List.getElem?_eq_some_iff.mp hk
    have hzero : k - n = 0 := by simpa using hlt
    exact ⟨by omega, by simp [hzero]⟩

end Last

/-! ## §2. How the loop stands. -/

/-- No loop runs. -/
structure IsOff (s : Station) : Prop where
  charge : s.loops.task? () = none
  ended : ∃ n, s.tasks = List.replicate n .ended
  due : dueAfter s.wait s.past = none

/-- A loop runs as a task, and is due at an instant. -/
structure IsOn (s : Station) (n due : Nat) : Prop where
  charge : s.loops.task? () = some n
  alive : s.loops.hasEnded n = false
  on : s.loops.isOff () = false
  spell : IsLast s.tasks n (.up (s.loops.count ())) ∧ due = s.now
    ∨ IsLast s.tasks n (.asleep due (s.loops.count ())) ∧ s.now ≤ due
  due : dueAfter s.wait s.past = some due

/-- A loop was told to stop. -/
structure IsLeaving (s : Station) (n : Nat) : Prop where
  charge : s.loops.task? () = none
  off : s.loops.isOff () = true
  spell : ∃ spell, IsLast s.tasks n spell ∧ (s.loops.hasEnded n = true ↔ spell = .ended)
    ∧ ∀ instant seen, spell = .asleep instant seen → seen ≠ s.loops.count ()
  due : dueAfter s.wait s.past = none

variable {s s' : Station} {p : Poller} {n due : Nat}

theorem IsOff.isRunning (h : s.IsOff) : s.loops.isRunning () = false := by
  simp [Switchboard.isRunning, h.charge]

theorem IsOff.spell_eq (h : s.IsOff) {k : Nat} {spell : Spell} (hk : s.tasks[k]? = some spell) :
    spell = .ended := by
  obtain ⟨n, hover⟩ := h.ended
  rw [hover] at hk
  exact List.eq_of_mem_replicate (List.mem_of_getElem? hk)

theorem IsOn.isRunning (h : s.IsOn n due) : s.loops.isRunning () = true := by
  simp [Switchboard.isRunning, h.charge, h.alive]

theorem IsOn.now_le (h : s.IsOn n due) : s.now ≤ due := by
  rcases h.spell with ⟨-, hdue⟩ | ⟨-, hle⟩
  · omega
  · exact hle

/-- A loop that is up is due now. -/
theorem IsOn.up (h : s.IsOn n due) {k seen : Nat} (hk : s.tasks[k]? = some (.up seen)) :
    k = n ∧ seen = s.loops.count () ∧ due = s.now ∧ IsLast s.tasks n (.up seen) := by
  rcases h.spell with ⟨hlast, hdue⟩ | ⟨hlast, -⟩
  · obtain ⟨rfl, hspell⟩ := hlast.eq_of_getElem? hk Spell.noConfusion
    cases hspell
    exact ⟨rfl, rfl, hdue, hlast⟩
  · cases (hlast.eq_of_getElem? hk Spell.noConfusion).2

/-- A loop that sleeps is due at the instant for which it sleeps, and has seen all signals. -/
theorem IsOn.asleep (h : s.IsOn n due) {k instant seen : Nat}
    (hk : s.tasks[k]? = some (.asleep instant seen)) :
    k = n ∧ seen = s.loops.count () ∧ due = instant ∧ IsLast s.tasks n (.asleep instant seen) := by
  rcases h.spell with ⟨hlast, -⟩ | ⟨hlast, -⟩
  · cases (hlast.eq_of_getElem? hk Spell.noConfusion).2
  · obtain ⟨rfl, hspell⟩ := hlast.eq_of_getElem? hk Spell.noConfusion
    cases hspell
    exact ⟨rfl, rfl, rfl, hlast⟩

/-! ## §3. The poller. -/

/-- Whether the caller does not wait at a time, or is asleep up to it. -/
def IsUntil (s : Station) (goal : Nat) : Prop :=
  match s.caller with
  | .free => s.now = goal
  | .asleep instant => instant = goal ∧ s.now ≤ goal
  | .awaiting _ => False

/-- The poller is as it will be when the caller does not wait any more: no loop runs; or one does, up
to the end of the caller's sleep, if it sleeps; or the caller waits for one that was stopped. -/
inductive Stands (p : Poller) (s : Station) : Prop
  | off (hgoal : s.IsUntil p.now) (hloop : s.IsOff) (hdue : p.due = none) (hjobs : p.jobs = s.jobs)
  | on (n due : Nat) (hgoal : s.IsUntil p.now) (hloop : s.IsOn n due)
      (hdue : p.due = some (runUntil s.wait p.now due s.jobs).1)
      (hjobs : p.jobs = (runUntil s.wait p.now due s.jobs).2)
      (huntied : s.caller ≠ .free → p.due ≠ some p.now)
  | leaving (n : Nat) (hcaller : s.caller = .awaiting n) (hnow : s.now = p.now)
      (hloop : s.IsLeaving n) (hdue : p.due = none) (hjobs : p.jobs = s.jobs)

/-- What is known of a station that stands for a poller. -/
structure Inv (p : Poller) (s : Station) : Prop where
  wait : s.wait = p.wait
  ended : ∀ k, s.loops.hasEnded k = true → k < s.tasks.length
  calls : ∀ job ∈ s.jobs, job.calls = callsIn s.past
  dated : ∀ incident ∈ s.past, incident.time ≤ s.now
  onTime : IsOnTime s.wait s.past
  stands : Stands p s

/-- When the caller does not wait, the loop is due when the poller says. -/
structure Shows (p : Poller) (s : Station) : Prop where
  now : p.now = s.now
  jobs : p.jobs = s.jobs
  loop : s.IsOff ∧ p.due = none ∨ ∃ n due, s.IsOn n due ∧ p.due = some due

theorem Stands.shows (h : Stands p s) (hcaller : s.caller = .free) : Shows p s := by
  cases h with
  | off hgoal hloop hdue hjobs =>
    have hnow : s.now = p.now := by simpa [IsUntil, hcaller] using hgoal
    exact ⟨hnow.symm, hjobs, .inl ⟨hloop, hdue⟩⟩
  | on n due hgoal hloop hdue hjobs huntied =>
    have hnow : s.now = p.now := by simpa [IsUntil, hcaller] using hgoal
    -- The loop has been run as far as it goes by now.
    have hrun : runUntil s.wait p.now due s.jobs = (due, s.jobs) :=
      runUntil_of_le (hnow ▸ hloop.now_le)
    rw [hrun] at hdue hjobs
    exact ⟨hnow.symm, hjobs, .inr ⟨n, due, hloop, hdue⟩⟩
  | leaving n hwaits hnow hloop hdue hjobs => rw [hcaller] at hwaits; cases hwaits

theorem Shows.stands (h : Shows p s) (hcaller : s.caller = .free) : Stands p s := by
  have hgoal : s.IsUntil p.now := by simpa [IsUntil, hcaller] using h.now.symm
  obtain ⟨hoff, hdue⟩ | ⟨n, due, hon, hdue⟩ := h.loop
  · exact .off hgoal hoff hdue h.jobs
  · have hrun : runUntil s.wait p.now due s.jobs = (due, s.jobs) :=
      runUntil_of_le (h.now ▸ hon.now_le)
    refine .on n due hgoal hon ?_ ?_ fun hwaits => absurd hcaller hwaits
    · rw [hrun]
      exact hdue
    · rw [hrun]
      exact h.jobs

/-! ## §4. The caller is told something. -/

section Told

variable {later : List Instruction}

/-- What happens has the time at which it happens. -/
theorem Inv.dated_now (hinv : s.Inv p) (incident : Incident) (htime : incident.time = s.now) :
    ∀ other ∈ incident :: s.past, other.time ≤ s.now := by
  intro other hother
  rcases List.mem_cons.mp hother with rfl | hother
  · exact Nat.le_of_eq htime
  · exact hinv.dated other hother

theorem Inv.runOnce (hinv : s.Inv p) (hcaller : s.caller = .free) :
    Inv p.runOnce.2 { s with
      jobs := (iterate s.jobs).2, ahead := later, past := .told .runOnce s.now :: s.past } where
  wait := hinv.wait
  ended := hinv.ended
  calls := calls_iterate hinv.calls
  dated := hinv.dated_now (.told .runOnce s.now) rfl
  onTime := hinv.onTime
  stands := by
    obtain ⟨hnow, hjobs, hloop⟩ := hinv.stands.shows hcaller
    refine Shows.stands ⟨hnow, ?_, ?_⟩ hcaller
    · show (iterate p.jobs).2 = (iterate s.jobs).2
      rw [hjobs]
    · obtain ⟨hoff, hdue⟩ | ⟨n, due, hon, hdue⟩ := hloop
      · exact .inl ⟨⟨hoff.charge, hoff.ended, hoff.due⟩, hdue⟩
      · exact .inr ⟨n, due, ⟨hon.charge, hon.alive, hon.on, hon.spell, hon.due⟩, hdue⟩

theorem tell_start_of_isRunning (h : s.loops.isRunning () = true) : s.tell .start = s :=
  if_pos h

/-- A new task has seen all signals, and it is in charge. -/
theorem tell_start_of_not_isRunning (h : s.loops.isRunning () = false) :
    s.tell .start = { s with
      loops := s.loops.start () s.tasks.length
      tasks := s.tasks ++ [.up (s.loops.count () + 1)] } := by
  simp [tell, h]

/-- A loop that is started while none runs is due now. -/
theorem IsOff.start (hoff : s.IsOff) (hended : ∀ k, s.loops.hasEnded k = true → k < s.tasks.length) :
    IsOn { s with
      ahead := later, past := .told .start s.now :: s.past
      loops := s.loops.start () s.tasks.length
      tasks := s.tasks ++ [.up (s.loops.count () + 1)] } s.tasks.length s.now where
  charge := by simp
  alive := by
    -- The number of the new task is not that of an old one.
    show (s.loops.start () s.tasks.length).hasEnded s.tasks.length = false
    rw [Switchboard.hasEnded_start, ← Bool.not_eq_true]
    intro hk
    exact Nat.lt_irrefl _ (hended _ hk)
  on := by simp
  spell := by
    obtain ⟨n, hover⟩ := hoff.ended
    refine .inl ⟨?_, rfl⟩
    rw [hover, List.length_replicate]
    simp [IsLast]
  due := by
    show some ((dueAfter s.wait s.past).getD s.now) = some s.now
    rw [hoff.due]
    rfl

/-- A loop that runs is due when it was before. -/
theorem IsOn.start (hon : s.IsOn n due) :
    IsOn { s with ahead := later, past := .told .start s.now :: s.past } n due := by
  refine ⟨hon.charge, hon.alive, hon.on, hon.spell, ?_⟩
  show some ((dueAfter s.wait s.past).getD s.now) = some due
  rw [hon.due]
  rfl

theorem Inv.start (hinv : s.Inv p) (hcaller : s.caller = .free) :
    Inv p.start
      (({ s with ahead := later, past := .told .start s.now :: s.past } : Station).tell .start) := by
  have hdated := hinv.dated_now (.told .start s.now) rfl
  obtain ⟨hnow, hjobs, hloop⟩ := hinv.stands.shows hcaller
  obtain ⟨hoff, hdue⟩ | ⟨n, due, hon, hdue⟩ := hloop
  · have hstart : p.start = { p with due := some p.now } := by
      unfold Poller.start
      rw [hdue]
    rw [hstart, tell_start_of_not_isRunning (by exact hoff.isRunning)]
    refine ⟨hinv.wait, ?_, hinv.calls, hdated, hinv.onTime,
      Shows.stands ⟨hnow, hjobs, .inr ⟨_, _, hoff.start hinv.ended, by rw [← hnow]⟩⟩ hcaller⟩
    intro k hk
    have hlt := hinv.ended k hk
    simp only [List.length_append, List.length_singleton]
    omega
  · have hsame : p.start = p := Poller.start_of_isRunning (by simp [Poller.isRunning, hdue])
    rw [hsame, tell_start_of_isRunning (by exact hon.isRunning)]
    exact ⟨hinv.wait, hinv.ended, hinv.calls, hdated, hinv.onTime,
      Shows.stands ⟨hnow, hjobs, .inr ⟨n, due, hon.start, hdue⟩⟩ hcaller⟩

theorem Inv.sleep (hinv : s.Inv p) (hcaller : s.caller = .free) {ms : Nat}
    (huntied : (p.sleep ms).due ≠ some (p.sleep ms).now) :
    Inv (p.sleep ms) { s with
      ahead := later, past := .told (.sleep ms) s.now :: s.past
      caller := .asleep (s.now + ms) } := by
  have hdated := hinv.dated_now (.told (.sleep ms) s.now) rfl
  obtain ⟨hnow, hjobs, hloop⟩ := hinv.stands.shows hcaller
  obtain ⟨hoff, hdue⟩ | ⟨n, due, hon, hdue⟩ := hloop
  · have hsleep : p.sleep ms = { p with now := p.now + ms } := by
      unfold Poller.sleep
      rw [hdue]
    rw [hsleep]
    refine ⟨hinv.wait, hinv.ended, hinv.calls, hdated, hinv.onTime,
      .off ⟨?_, ?_⟩ ?_ hdue hjobs⟩
    · show s.now + ms = p.now + ms
      rw [hnow]
    · show s.now ≤ p.now + ms
      omega
    · exact ⟨hoff.charge, hoff.ended, hoff.due⟩
  · have hsleep : p.sleep ms = { p with
        now := p.now + ms
        due := some (runUntil p.wait (p.now + ms) due p.jobs).1
        jobs := (runUntil p.wait (p.now + ms) due p.jobs).2 } := by
      unfold Poller.sleep
      rw [hdue]
    rw [hsleep] at huntied ⊢
    -- What the poller's loop has done by then is what the loop is yet to do.
    refine ⟨hinv.wait, hinv.ended, hinv.calls, hdated, hinv.onTime,
      .on n due ⟨?_, ?_⟩ ⟨hon.charge, hon.alive, hon.on, hon.spell, hon.due⟩ ?_ ?_ fun _ => huntied⟩
    · show s.now + ms = p.now + ms
      rw [hnow]
    · show s.now ≤ p.now + ms
      omega
    · show _ = some (runUntil s.wait (p.now + ms) due s.jobs).1
      rw [hinv.wait, hjobs]
    · show _ = (runUntil s.wait (p.now + ms) due s.jobs).2
      rw [hinv.wait, hjobs]

theorem Inv.stop (hinv : s.Inv p) (hcaller : s.caller = .free) :
    Inv p.stop
      (({ s with ahead := later, past := .told .stop s.now :: s.past } : Station).tell .stop) := by
  obtain ⟨hnow, hjobs, hloop⟩ := hinv.stands.shows hcaller
  refine ⟨hinv.wait, hinv.ended, hinv.calls, hinv.dated_now (.told .stop s.now) rfl, hinv.onTime, ?_⟩
  obtain ⟨hoff, -⟩ | ⟨n, due, hon, -⟩ := hloop
  · refine Shows.stands ⟨hnow, hjobs, .inl ⟨⟨by simp [tell], hoff.ended, rfl⟩, rfl⟩⟩ ?_
    simp [tell, hoff.charge]
  · refine .leaving n (by simp [tell, hon.charge]) hnow.symm ⟨by simp [tell], by simp [tell], ?_, rfl⟩
      rfl hjobs
    have halive : (s.loops.hasEnded n = true ↔ False) := by simp [hon.alive]
    -- Whatever the loop has seen, there is a signal more.
    rcases hon.spell with ⟨hlast, -⟩ | ⟨hlast, -⟩
    · exact ⟨_, hlast, by simpa [tell] using halive, fun _ _ h => by cases h⟩
    · refine ⟨_, hlast, by simpa [tell] using halive, fun instant seen h => ?_⟩
      cases h
      simp [tell]

/-- When the caller is told something, the station stands for the poller that was told it. -/
theorem Inv.told (hinv : s.Inv p) (hcaller : s.caller = .free) {i : Instruction}
    (huntied : p.IsUntied [i]) :
    Inv (p.obey i) (({ s with ahead := later, past := .told i s.now :: s.past } : Station).tell i) := by
  cases i with
  | runOnce => exact hinv.runOnce hcaller
  | start => exact hinv.start hcaller
  | sleep ms => exact hinv.sleep hcaller huntied.1
  | stop => exact hinv.stop hcaller

end Told

/-! ## §5. The caller does not wait any longer. -/

theorem Inv.woken (hinv : s.Inv p) {instant : Nat} (hcaller : s.caller = .asleep instant)
    (hle : instant ≤ s.now) : Inv p { s with caller := .free } := by
  refine ⟨hinv.wait, hinv.ended, hinv.calls, hinv.dated, hinv.onTime, ?_⟩
  cases hinv.stands with
  | off hgoal hloop hdue hjobs =>
    simp only [IsUntil, hcaller] at hgoal
    have hnow : s.now = p.now := by omega
    exact .off hnow ⟨hloop.charge, hloop.ended, hloop.due⟩ hdue hjobs
  | on n due hgoal hloop hdue hjobs huntied =>
    simp only [IsUntil, hcaller] at hgoal
    have hnow : s.now = p.now := by omega
    exact .on n due hnow ⟨hloop.charge, hloop.alive, hloop.on, hloop.spell, hloop.due⟩ hdue hjobs
      fun hwaits => absurd rfl hwaits
  | leaving n hwaits hnow hloop hdue hjobs => rw [hcaller] at hwaits; cases hwaits

/-- When the task for which the caller waits has ended, no loop is left. -/
theorem Inv.joined (hinv : s.Inv p) {n : Nat} (hcaller : s.caller = .awaiting n)
    (hended : s.loops.hasEnded n = true) : Inv p { s with caller := .free } := by
  refine ⟨hinv.wait, hinv.ended, hinv.calls, hinv.dated, hinv.onTime, ?_⟩
  cases hinv.stands with
  | off hgoal hloop hdue hjobs =>
    simp only [IsUntil, hcaller] at hgoal
  | on n due hgoal hloop hdue hjobs huntied =>
    simp only [IsUntil, hcaller] at hgoal
  | leaving m hwaits hnow hloop hdue hjobs =>
    obtain rfl : n = m := Caller.awaiting.inj (hcaller.symm.trans hwaits)
    obtain ⟨spell, hlast, hover, -⟩ := hloop.spell
    obtain rfl := hover.mp hended
    refine .off hnow ⟨hloop.charge, ⟨n + 1, ?_⟩, hloop.due⟩ hdue hjobs
    rw [List.replicate_succ']
    exact hlast

/-! ## §6. The loop goes on. -/

variable {k instant seen : Nat}

/-- While the caller sleeps, a loop that is due now is due before the caller wakes. -/
theorem lt_of_untied (hcaller : s.caller ≠ .free) (hgoal : s.IsUntil p.now)
    (hnow : due = s.now) (hdue : p.due = some (runUntil s.wait p.now due s.jobs).1)
    (huntied : s.caller ≠ .free → p.due ≠ some p.now) : due < p.now := by
  have hle : s.now ≤ p.now := by
    unfold IsUntil at hgoal
    split at hgoal
    · exact absurd ‹_› hcaller
    · exact hgoal.2
    · exact hgoal.elim
  refine Nat.lt_of_le_of_ne (hnow ▸ hle) fun heq => huntied hcaller ?_
  rw [hdue, heq, runUntil_of_le (Nat.le_refl _)]

theorem Inv.polled (hwait : 0 < s.wait) (hinv : s.Inv p) (hcaller : s.caller ≠ .free)
    (hspell : s.tasks[k]? = some (.up seen)) (hon : s.loops.isOff () = false) :
    Inv p (s.poll k seen) := by
  cases hinv.stands with
  | off hgoal hloop hdue hjobs => cases hloop.spell_eq hspell
  | leaving n hwaits hnow hloop hdue hjobs => rw [hloop.off] at hon; cases hon
  | on n due hgoal hloop hdue hjobs huntied =>
    obtain ⟨rfl, rfl, hnow, hlast⟩ := hloop.up hspell
    have hbefore := lt_of_untied hcaller hgoal hnow hdue huntied
    have honTime : IsOnTime s.wait (.polled s.now (iterate s.jobs).1 :: s.past) :=
      ⟨hnow ▸ hloop.due, hinv.onTime⟩
    refine ⟨hinv.wait, ?_, calls_iterate hinv.calls, hinv.dated_now (.polled s.now _) rfl, honTime,
      ?_⟩
    · intro m hm
      have hlt := hinv.ended m hm
      simpa [poll] using hlt
    -- The poller's loop does the same iteration next, since it is due before the caller wakes.
    by_cases hbusy : 0 < (iterate s.jobs).1
    · rw [runUntil_busy hbefore hbusy] at hdue hjobs
      refine .on k due hgoal ⟨hloop.charge, hloop.alive, hloop.on, .inl ⟨?_, hnow⟩, ?_⟩ hdue hjobs
        huntied
      · show IsLast (s.tasks.set k (if 0 < (iterate s.jobs).1 then _ else _)) k _
        rw [if_pos hbusy]
        exact hlast.set _
      · show some (if 0 < (iterate s.jobs).1 then s.now else s.now + s.wait) = some due
        rw [if_pos hbusy, hnow]
    · rw [runUntil_idle hbefore hbusy, effectiveWait_of_pos hwait] at hdue hjobs
      refine .on k (due + s.wait) hgoal
        ⟨hloop.charge, hloop.alive, hloop.on, .inr ⟨?_, ?_⟩, ?_⟩ hdue hjobs huntied
      · show IsLast (s.tasks.set k (if 0 < (iterate s.jobs).1 then _ else _)) k _
        rw [if_neg hbusy, hnow]
        exact hlast.set _
      · show s.now ≤ due + s.wait
        omega
      · show some (if 0 < (iterate s.jobs).1 then s.now else s.now + s.wait) = some (due + s.wait)
        rw [if_neg hbusy, hnow]

theorem Inv.left (hinv : s.Inv p) (hspell : s.tasks[k]? = some (.up seen))
    (hoff : s.loops.isOff () = true) :
    Inv p { s with loops := s.loops.ended k, tasks := s.tasks.set k .ended } := by
  refine ⟨hinv.wait, ?_, hinv.calls, hinv.dated, hinv.onTime, ?_⟩
  · intro m hm
    have hlength : (s.tasks.set k Spell.ended).length = s.tasks.length := List.length_set
    rcases (Switchboard.hasEnded_ended_iff s.loops k m).mp hm with rfl | hm
    · exact hlength ▸ (List.getElem?_eq_some_iff.mp hspell).1
    · exact hlength ▸ hinv.ended m hm
  cases hinv.stands with
  | off hgoal hloop hdue hjobs => cases hloop.spell_eq hspell
  | on n due hgoal hloop hdue hjobs huntied => rw [hloop.on] at hoff; cases hoff
  | leaving n hwaits hnow hloop hdue hjobs =>
    obtain ⟨spell, hlast, -⟩ := hloop.spell
    obtain ⟨rfl, -⟩ := hlast.eq_of_getElem? hspell Spell.noConfusion
    refine .leaving k hwaits hnow ⟨hloop.charge, hloop.off, ⟨.ended, hlast.set .ended, ?_, ?_⟩,
      hloop.due⟩ hdue hjobs
    · simp [Switchboard.hasEnded_ended_iff]
    · exact fun _ _ h => by cases h

/-- What a loop's task gets up with. -/
theorem IsLeaving.gets_up (hloop : s.IsLeaving n) (hspell : s.tasks[k]? = some (.asleep instant seen))
    (other : Nat) : k = n ∧ IsLeaving { s with tasks := s.tasks.set k (.up other) } n := by
  obtain ⟨spell, hlast, hover, -⟩ := hloop.spell
  obtain ⟨rfl, rfl⟩ := hlast.eq_of_getElem? hspell Spell.noConfusion
  refine ⟨rfl, hloop.charge, hloop.off, ⟨.up other, hlast.set _, ?_, ?_⟩, hloop.due⟩
  · simpa using hover
  · exact fun _ _ h => by cases h

theorem Inv.timed (hinv : s.Inv p) (hspell : s.tasks[k]? = some (.asleep instant seen))
    (hle : instant ≤ s.now) : Inv p { s with tasks := s.tasks.set k (.up seen) } := by
  refine ⟨hinv.wait, fun m hm => ?_, hinv.calls, hinv.dated, hinv.onTime, ?_⟩
  · simpa using hinv.ended m hm
  cases hinv.stands with
  | off hgoal hloop hdue hjobs => cases hloop.spell_eq hspell
  | on n due hgoal hloop hdue hjobs huntied =>
    obtain ⟨rfl, rfl, rfl, hlast⟩ := hloop.asleep hspell
    have hnow : due = s.now := Nat.le_antisymm hle hloop.now_le
    exact .on k due hgoal ⟨hloop.charge, hloop.alive, hloop.on, .inl ⟨hlast.set _, hnow⟩, hloop.due⟩
      hdue hjobs huntied
  | leaving n hwaits hnow hloop hdue hjobs =>
    exact .leaving n hwaits hnow (hloop.gets_up hspell seen).2 hdue hjobs

theorem Inv.heeded (hinv : s.Inv p) (hspell : s.tasks[k]? = some (.asleep instant seen))
    (hnew : seen ≠ s.loops.count ()) :
    Inv p { s with tasks := s.tasks.set k (.up (s.loops.count ())) } := by
  refine ⟨hinv.wait, fun m hm => ?_, hinv.calls, hinv.dated, hinv.onTime, ?_⟩
  · simpa using hinv.ended m hm
  cases hinv.stands with
  | off hgoal hloop hdue hjobs => cases hloop.spell_eq hspell
  | on n due hgoal hloop hdue hjobs huntied => exact absurd (hloop.asleep hspell).2.1 hnew
  | leaving n hwaits hnow hloop hdue hjobs =>
    exact .leaving n hwaits hnow (hloop.gets_up hspell _).2 hdue hjobs

/-! ## §7. Time passes. -/

theorem mem_instants_caller (hcaller : s.caller = .asleep instant) : instant ∈ s.instants := by
  simp [instants, hcaller]

theorem mem_instants_task (hspell : s.tasks[k]? = some (.asleep instant seen)) :
    instant ∈ s.instants := by
  refine List.mem_append_right _ (List.mem_filterMap.mpr ?_)
  exact ⟨_, List.mem_of_getElem? hspell, rfl⟩

/-- When nobody can go on, no loop is called. -/
theorem isCalled_of_isStill (hstill : s.isStill = true) {spell : Spell}
    (hspell : s.tasks[k]? = some spell) : s.isCalled spell = false := by
  have hall := List.all_eq_true.mp (Bool.and_eq_true_iff.mp hstill).2 _ (List.mem_of_getElem? hspell)
  simpa using hall

theorem goOn?_of_isStill (hstill : s.isStill = true) : s.goOn? = none :=
  Option.isNone_iff_eq_none.mp (Bool.and_eq_true_iff.mp hstill).1

/-- When nobody can go on, everybody sleeps for an instant that is yet to come. -/
theorem lt_of_isStill (hstill : s.isStill = true) (hmem : instant ∈ s.instants) :
    s.now < instant := by
  refine Nat.lt_of_not_le fun hle => ?_
  rcases List.mem_append.mp hmem with hcaller | htask
  · have hgo := goOn?_of_isStill hstill
    split at hcaller
    · rename_i hasleep
      obtain rfl := List.mem_singleton.mp hcaller
      simp [goOn?, hasleep, hle] at hgo
    · cases hcaller
  · obtain ⟨spell, hspell, hasleep⟩ := List.mem_filterMap.mp htask
    obtain ⟨k, hk⟩ := List.mem_iff_getElem?.mp hspell
    have hcalled := isCalled_of_isStill hstill hk
    split at hasleep
    · obtain rfl := Option.some.inj hasleep
      simp [isCalled, hle] at hcalled
    · cases hasleep

/-- The caller waits for no task that a signal has reached. -/
theorem IsLeaving.not_isStill (hloop : s.IsLeaving n) (hcaller : s.caller = .awaiting n) :
    s.isStill = false := by
  rw [← Bool.not_eq_true]
  intro hstill
  obtain ⟨spell, hlast, hover, hheeds⟩ := hloop.spell
  have hcalled := isCalled_of_isStill hstill hlast.getElem?
  cases spell with
  | up seen => cases hcalled
  | asleep instant seen => simp [isCalled, hheeds instant seen rfl] at hcalled
  | ended =>
    have hgo := goOn?_of_isStill hstill
    simp [goOn?, hcaller, hover.mpr rfl] at hgo

theorem Inv.passed (hinv : s.Inv p) (hcaller : s.caller ≠ .free) (hstill : s.isStill = true)
    (hfirst : s.instants.min? = some instant) : Inv p { s with now := instant } := by
  obtain ⟨hmem, hmin⟩ := List.min?_eq_some_iff.mp hfirst
  have hlater : s.now < instant := lt_of_isStill hstill hmem
  refine ⟨hinv.wait, hinv.ended, hinv.calls, fun incident hincident => ?_, hinv.onTime, ?_⟩
  · exact Nat.le_of_lt (Nat.lt_of_le_of_lt (hinv.dated incident hincident) hlater)
  -- Time passes up to the end of the caller's sleep at most.
  have huntil : s.IsUntil p.now → IsUntil { s with now := instant } p.now := by
    intro hgoal
    unfold IsUntil at hgoal ⊢
    cases hwaits : s.caller with
    | free => exact absurd hwaits hcaller
    | asleep goal =>
      simp only [hwaits] at hgoal ⊢
      exact ⟨hgoal.1, hgoal.1 ▸ hmin goal (mem_instants_caller hwaits)⟩
    | awaiting m => simp only [hwaits] at hgoal
  cases hinv.stands with
  | off hgoal hloop hdue hjobs =>
    exact .off (huntil hgoal) ⟨hloop.charge, hloop.ended, hloop.due⟩ hdue hjobs
  | on n due hgoal hloop hdue hjobs huntied =>
    refine .on n due (huntil hgoal) ⟨hloop.charge, hloop.alive, hloop.on, ?_, hloop.due⟩ hdue hjobs
      huntied
    rcases hloop.spell with ⟨hlast, -⟩ | ⟨hlast, -⟩
    · cases isCalled_of_isStill hstill hlast.getElem?
    · exact .inr ⟨hlast, hmin due (mem_instants_task hlast.getElem?)⟩
  | leaving n hwaits hnow hloop hdue hjobs =>
    rw [hloop.not_isStill hwaits] at hstill
    cases hstill

end Station

end Parley.Polling
