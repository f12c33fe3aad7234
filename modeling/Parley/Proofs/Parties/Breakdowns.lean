/-
  Parley.Proofs.Parties.Breakdowns
  ────────────────────────────────
  **A MEETING THAT MAY BREAK DOWN.**

  What happens in a meeting is set out for any way in which the parties get at
  their worlds (`Meeting.perform`).  Directly it is what a run consists of
  (`act_eq_perform`).  Where the stores judge leases it may break down:

      tryRun       what some actions come to, if none breaks down
      tryRounds    the same of rounds

  Nothing breaks down as long as the leases that the parties hold and take have
  ends (`Meeting.IsTimely`).  Of what happens only the passing of time bears on
  that, so the times that the clock shows decide it (`tryRun_of_times`,
  `tryRounds_of_times`).
-/
import Parley.Proofs.Engine.Timely
import Parley.Proofs.Parties.Meeting

namespace Parley

open Parley.Batch

namespace Meeting

/-! ## §1. A party's access. -/

/-- Do something in a party's world, unless it breaks down. -/
def withinStrict (q : Party) (y : OptionT (StateM World) α) : OptionT (StateM Meeting) α :=
  .mk (within q y.run)

/-- A party gets at its own world, and breaks down where a lease without an end is judged. -/
def strictSeat (q : Party) : Access (OptionT (StateM Meeting)) where
  now := withinStrict q Access.strict.now
  advance ms := withinStrict q (Access.strict.advance ms)
  drawId := withinStrict q Access.strict.drawId
  read f := withinStrict q (Access.strict.read f)
  use judged f := withinStrict q (Access.strict.use judged f)
  announce news := withinStrict q (Access.strict.announce news)

/-- Whether the leases that the parties take at a time have ends. -/
def TakesEnds (parties : Party → Engine) (now : Instant) : Prop :=
  ∀ q, ((parties q).handle.leaseAt now).hasEnd = true

instance (parties : Party → Engine) (now : Instant) : Decidable (TakesEnds parties now) :=
  decidable_of_iff
    (((parties .first).handle.leaseAt now).hasEnd = true
      ∧ ((parties .second).handle.leaseAt now).hasEnd = true)
    ⟨fun h q => by cases q; exacts [h.1, h.2], fun h => ⟨h .first, h .second⟩⟩

/-- Whether it is some time in a meeting, and every lease has an end that is stored or taken then. -/
structure IsTimely (m : Meeting) (parties : Party → Engine) (now : Instant) : Prop where
  clock : m.now = now
  stored : ∀ q, (m.ledger q).leasesEnd = true
  taken : TakesEnds parties now

variable {parties : Party → Engine} {now : Instant} {m : Meeting} {q : Party}

theorem IsTimely.world (hm : m.IsTimely parties now) (q : Party) :
    (m.world q).IsTimely (parties q).handle := by
  refine ⟨hm.stored q, ?_⟩
  rw [now_world, hm.clock]
  exact hm.taken q

/-- What a party does while time stands still leaves the other's leases as they are. -/
theorem IsTimely.setWorld (hm : m.IsTimely parties now) {w : World}
    (hw : w.IsTimely (parties q).handle) (hnow : w.now = m.now) :
    (m.setWorld q w).IsTimely parties now where
  clock := by
    rw [now_setWorld, hnow, hm.clock]
  stored p := by
    rcases Party.eq_or_other q p with rfl | rfl
    · rw [ledger_setWorld_self]
      exact hw.stored
    · rw [ledger_setWorld_other]
      exact hm.stored q.other
  taken := hm.taken

/-- What does not break down in a party's world, and leaves the clock alone there, does not break
down in the meeting. -/
theorem echoes_within {x : StateM World α} {y : OptionT (StateM World) α}
    (hx : (Access.strictly (parties q).handle).rel x y)
    (hclock : (Access.standing (parties q).handle).rel x x) :
    Echoes (IsTimely · parties now) (within q x) (withinStrict q y) where
  run m hm := by
    show within q y.run m = _
    unfold within
    rw [hx.run _ (hm.world q)]
  keeps m hm := hm.setWorld (hx.keeps _ (hm.world q)) (hclock.2 _)

/-- Where every lease has an end nothing that a party does breaks down. -/
def strictly (parties : Party → Engine) (now : Instant) (q : Party) :
    Pairing (seat q) (strictSeat q) (parties q).handle where
  rel := Echoes (IsTimely · parties now)
  given := .pure
  andThen := .bind
  now := echoes_within (Access.strictly _).now (Access.standing _).now
  drawId := echoes_within (Access.strictly _).drawId (Access.standing _).drawId
  read f := echoes_within ((Access.strictly _).read f) ((Access.standing _).read f)
  save n := echoes_within ((Access.strictly _).save n) ((Access.standing _).save n)
  findAndLease id :=
    echoes_within ((Access.strictly _).findAndLease id) ((Access.standing _).findAndLease id)
  breakLease id :=
    echoes_within ((Access.strictly _).breakLease id) ((Access.standing _).breakLease id)
  nextNotLeased max criteria := by
    have hstrictly := (Access.strictly (parties q).handle).nextNotLeased max criteria
    have hstanding := (Access.standing (parties q).handle).nextNotLeased max criteria
    unfold Access.nextNotLeased at hstrictly hstanding ⊢
    cases hcriteria : Query.validate criteria with
    | error err => exact .pure _
    | ok _ =>
      rw [hcriteria] at hstrictly hstanding
      exact echoes_within hstrictly hstanding
  announce news := echoes_within ((Access.strictly _).announce news) ((Access.standing _).announce news)

/-! ## §2. Ticks. -/

section Conduct

variable (parties now)

/-- What is only put on record does not break down. -/
theorem echoes_modify {f : Meeting → Meeting} (hclock : ∀ m, (f m).now = m.now)
    (hledger : ∀ m q, (f m).ledger q = m.ledger q) :
    Echoes (IsTimely · parties now) (modify f) (modify f) where
  run _ _ := rfl
  keeps m hm := by
    show (f m).IsTimely parties now
    refine ⟨(hclock m).trans hm.clock, fun q => ?_, hm.taken⟩
    rw [hledger]
    exact hm.stored q

theorem echoes_get : Echoes (IsTimely · parties now) get get :=
  ⟨fun _ _ => rfl, fun _ hm => hm⟩

theorem echoes_deliverBy (q : Party) (message : Message) (fate : Fate) :
    Echoes (IsTimely · parties now) (deliverBy seat parties q message fate)
      (deliverBy strictSeat parties q message fate) := by
  have hanswer := (strictly parties now q.other).answer message
  cases fate with
  | undelivered why => exact .pure _
  | returned => exact hanswer
  | answerLost why =>
    refine hanswer.bind fun reply => ?_
    cases reply with
    | answered response =>
      exact .bind (echoes_modify parties now (fun _ => rfl) fun _ _ => rfl) fun _ => .pure _
    | failed failure => exact .pure _
    | panicked => exact .pure _

theorem echoes_sendBy (luck : Luck) (q : Party) (f : Flight) :
    Echoes (IsTimely · parties now) (sendBy seat parties luck q f)
      (sendBy strictSeat parties luck q f) := by
  refine (echoes_get parties now).bind fun m => ?_
  refine (echoes_deliverBy parties now q _ _).bind fun reply => ?_
  exact .bind (echoes_modify parties now (fun _ => rfl) fun _ _ => rfl) fun _ => .pure _

/-- Records are handled in the same order. -/
theorem echoes_inTurns (turn : Nat → Nat) (most : Nat) (ns : List Negotiation)
    {one : Negotiation → StateM Meeting Bool} {one' : Negotiation → OptionT (StateM Meeting) Bool}
    (hone : ∀ n, Echoes (IsTimely · parties now) (one n) (one' n)) (count : Nat) :
    Echoes (IsTimely · parties now) (inTurns turn most count (ns.map one))
      (inTurns turn most count (ns.map one')) := by
  induction count generalizing ns with
  | zero => exact .pure _
  | succ count ih =>
    unfold inTurns
    refine (echoes_get parties now).bind fun m => ?_
    simp only [List.length_map]
    generalize turn m.picked % min (max 1 most) ns.length = here
    refine .bind (echoes_modify parties now (fun _ => rfl) fun _ _ => rfl) fun _ => ?_
    -- The same record is next on both sides.
    have hnext : Echoes (IsTimely · parties now) ((ns.map one).getD here (pure false))
        ((ns.map one').getD here (pure false)) := by
      rw [List.getD_eq_getElem?_getD, List.getD_eq_getElem?_getD, List.getElem?_map,
        List.getElem?_map]
      cases ns[here]? with
      | none => exact .pure _
      | some n => exact hone n
    refine hnext.bind fun handled => ?_
    rw [List.eraseIdx_map, List.eraseIdx_map]
    exact (ih (ns.eraseIdx here)).bind fun _ => .pure _

theorem conducts (luck : Luck) (q : Party) : (strictly parties now q).Conducts
    (conductBy seat parties luck q) (conductBy strictSeat parties luck q) where
  left := rfl
  right := rfl
  send := echoes_sendBy parties now luck q
  gather most ns one one' hone := by
    show Echoes _ (inTurns luck.turn most (ns.map one).length (ns.map one))
      (inTurns luck.turn most (ns.map one').length (ns.map one'))
    rw [List.length_map, List.length_map]
    exact echoes_inTurns parties now luck.turn most ns hone ns.length

end Conduct

/-! ## §3. Actions and rounds. -/

section Perform

variable {M : Type → Type} [Monad M] [MonadStateOf Meeting M] (seats : Party → Access M)
  (parties : Party → Engine) (luck : Luck)

/-- Carry out an action. -/
def perform : Action → M Unit
  | .initiate r => do
    match ← (parties .first).initiate (seats .first) r with
    | .ok n => modify fun m => { m with wishes := m.wishes ++ [(n.id, r)] }
    | .error _ => return ()
  | .tick q role => do let _ ← (parties q).runRole (conductBy seats parties luck q) role
  | .advance ms => modify fun m => { m with now := m.now.addMillis ms }

/-- Carry out a round. -/
def performRound : M Unit := do
  let _ ← (parties .first).runOnce (conductBy seats parties luck .first)
  let _ ← (parties .second).runOnce (conductBy seats parties luck .second)

end Perform

variable {luck : Luck}

/-- An action of a run is the action as it is carried out directly. -/
theorem act_eq_perform (m : Meeting) (action : Action) :
    m.act parties luck action = (perform seat parties luck action m).2 := by
  cases action with
  | initiate r =>
    unfold act perform
    simp only
    rw [run_bind]
    generalize (parties .first).initiate (seat .first) r m = result
    obtain ⟨r, m⟩ := result
    cases r <;> rfl
  | tick q role => rfl
  | advance ms => rfl

theorem round_eq_perform (m : Meeting) :
    m.round parties luck = (performRound seat parties luck m).2 := by
  unfold Meeting.round performRound conduct
  generalize (parties .first).runOnce (conductBy seat parties luck .first) = first
  generalize (parties .second).runOnce (conductBy seat parties luck .second) = second
  rfl

/-- The meeting after an action, if it does not break down. -/
def tried (parties : Party → Engine) (luck : Luck) (m : Meeting) (action : Action) :
    Option Meeting :=
  let result := (perform strictSeat parties luck action).run m
  result.1.map fun _ => result.2

/-- What some actions come to, if none breaks down. -/
def tryRun (parties : Party → Engine) (luck : Luck) (m : Meeting) (acts : List Action) :
    Option Meeting :=
  acts.foldlM (tried parties luck) m

/-- The meeting after a pause and a round, if it does not break down. -/
def triedRound (parties : Party → Engine) (luck : Luck) (m : Meeting) (ms : Int) :
    Option Meeting :=
  let result := (performRound strictSeat parties luck).run (m.act parties luck (.advance ms))
  result.1.map fun _ => result.2

/-- What rounds come to, with a pause before each, if none breaks down. -/
def tryRounds (parties : Party → Engine) (luck : Luck) (m : Meeting) (pauses : List Int) :
    Option Meeting :=
  pauses.foldlM (triedRound parties luck) m

/-! ## §4. Times. -/

/-- An action other than the clock's does not break down. -/
theorem echoes_perform (parties : Party → Engine) (now : Instant) (luck : Luck) (action : Action)
    (hclock : ∀ ms, action ≠ .advance ms) :
    Echoes (IsTimely · parties now) (perform seat parties luck action)
      (perform strictSeat parties luck action) := by
  cases action with
  | initiate r =>
    refine ((strictly parties now .first).passage.initiate r).bind fun result => ?_
    cases result with
    | ok n => exact echoes_modify parties now (fun _ => rfl) fun _ _ => rfl
    | error err => exact .pure _
  | tick q role => exact ((conducts parties now luck q).runRole role).bind fun _ => .pure _
  | advance ms => exact absurd rfl (hclock ms)

/-- A round does not break down. -/
theorem echoes_performRound (parties : Party → Engine) (now : Instant) (luck : Luck) :
    Echoes (IsTimely · parties now) (performRound seat parties luck)
      (performRound strictSeat parties luck) :=
  ((conducts parties now luck .first).runOnce).bind fun _ =>
    ((conducts parties now luck .second).runOnce).bind fun _ => .pure _

/-- The time after an action. -/
def Action.timeAfter (now : Instant) : Action → Instant
  | .advance ms => now.addMillis ms
  | _ => now

/-- The times that the clock shows while some actions are carried out. -/
def times (now : Instant) : List Action → List Instant
  | [] => [now]
  | action :: acts => now :: times (action.timeAfter now) acts

theorem mem_times (now : Instant) (acts : List Action) : now ∈ times now acts := by
  cases acts with
  | nil => exact List.mem_singleton.mpr rfl
  | cons action acts => exact List.mem_cons_self

/-- Time goes on to where leases have ends. -/
theorem IsTimely.advance (hm : m.IsTimely parties now) {ms : Int}
    (hlater : TakesEnds parties (now.addMillis ms)) (luck : Luck) :
    (m.act parties luck (.advance ms)).IsTimely parties (now.addMillis ms) := by
  refine ⟨?_, hm.stored, hlater⟩
  rw [← hm.clock]
  rfl

/-- In a meeting where leases have ends no action breaks down, and leases have ends afterwards if
time goes on to where they have. -/
theorem tried_of_isTimely (hm : m.IsTimely parties now) (luck : Luck) (action : Action)
    (hlater : TakesEnds parties (action.timeAfter now)) :
    m.tried parties luck action = some (m.act parties luck action)
      ∧ (m.act parties luck action).IsTimely parties (action.timeAfter now) := by
  by_cases hclock : ∀ ms, action ≠ .advance ms
  · have hechoes := echoes_perform parties now luck action hclock
    have hnow : action.timeAfter now = now := by
      cases action with
      | advance ms => exact absurd rfl (hclock ms)
      | initiate r => rfl
      | tick q role => rfl
    rw [act_eq_perform, hnow]
    refine ⟨?_, hechoes.keeps m hm⟩
    unfold tried
    rw [hechoes.run m hm]
    rfl
  · obtain ⟨ms, hclock⟩ := not_forall.mp hclock
    have hadvance : action = .advance ms := not_not.mp hclock
    subst hadvance
    exact ⟨rfl, hm.advance hlater luck⟩

/-- The same of a round. -/
theorem triedRound_of_isTimely (hm : m.IsTimely parties now) (luck : Luck) (ms : Int)
    (hlater : TakesEnds parties (now.addMillis ms)) :
    m.triedRound parties luck ms
        = some ((m.act parties luck (.advance ms)).round parties luck)
      ∧ ((m.act parties luck (.advance ms)).round parties luck).IsTimely parties
          (now.addMillis ms) := by
  have hm := hm.advance hlater luck
  have hechoes := echoes_performRound parties (now.addMillis ms) luck
  unfold triedRound
  generalize m.act parties luck (.advance ms) = later at hm ⊢
  have hrun := hechoes.run later hm
  have hkeeps := hechoes.keeps later hm
  rw [← round_eq_perform] at hrun hkeeps
  refine ⟨?_, hkeeps⟩
  simp only [hrun]
  rfl

/-- While leases have ends no action of a run breaks down. -/
theorem tryRun_of_times (hm : m.IsTimely parties now) (luck : Luck) {acts : List Action}
    (hends : ∀ time ∈ times now acts, TakesEnds parties time) :
    m.tryRun parties luck acts = some (m.run parties luck acts)
      ∧ (m.run parties luck acts).IsTimely parties (acts.foldl Action.timeAfter now) := by
  -- Over the actions: after each the leases have ends, and so the next does not break down.
  induction acts generalizing m now with
  | nil => exact ⟨rfl, hm⟩
  | cons action acts ih =>
    have hrest (time : Instant) (htime : time ∈ times (action.timeAfter now) acts) :
        TakesEnds parties time := hends time (List.mem_cons_of_mem now htime)
    obtain ⟨htried, hnext⟩ := tried_of_isTimely hm luck action (hrest _ (mem_times _ acts))
    obtain ⟨hmade, hlast⟩ := ih hnext hrest
    refine ⟨?_, hlast⟩
    unfold tryRun
    rw [List.foldlM_cons, htried]
    exact hmade

/-- While leases have ends no round breaks down. -/
theorem tryRounds_of_times (hm : m.IsTimely parties now) (luck : Luck) {pauses : List Int}
    (hends : ∀ time ∈ times now (pauses.map .advance), TakesEnds parties time) :
    m.tryRounds parties luck pauses = some (m.rounds parties luck pauses) := by
  induction pauses generalizing m now with
  | nil => rfl
  | cons ms pauses ih =>
    have hrest (time : Instant) (htime : time ∈ times (now.addMillis ms) (pauses.map .advance)) :
        TakesEnds parties time := hends time (List.mem_cons_of_mem now htime)
    obtain ⟨htried, hnext⟩ := triedRound_of_isTimely hm luck ms (hrest _ (mem_times _ _))
    unfold tryRounds
    rw [List.foldlM_cons, htried, rounds_cons]
    exact ih hnext hrest

/-- The leases of a meeting that begins have ends, for there are none. -/
theorem IsFresh.isTimely (hm : m.IsFresh) (htaken : TakesEnds parties m.now) :
    m.IsTimely parties m.now := by
  refine ⟨rfl, fun q => ?_, htaken⟩
  rw [hm.ledger q]
  exact Ledger.leasesEnd_empty

end Meeting

end Parley
