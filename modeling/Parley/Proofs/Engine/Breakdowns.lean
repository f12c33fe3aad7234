/-
  Parley.Proofs.Engine.Breakdowns
  ────────────────────────────────
  **MOVES THAT MAY BREAK DOWN.**

  The moves of a session are set out for any way of getting at the world
  (`Session.perform`).  Directly they are the moves that a run consists of
  (`step_eq_perform`).  Where the store judges leases a move may break down:

      Session.tried    the session after a move, if it does not break down
      Office.tryRun    what a run comes to, if none of its acts breaks down

  No move breaks down as long as the leases that are stored have ends.  An engine
  takes no others while the clock stays within reach of the calendar
  (`Office.isTimelyAlong`), and then all of its run is made
  (`tryRun_of_isTimelyAlong`).
-/
import Parley.Proofs.Engine.Office
import Parley.Proofs.Engine.Timely

namespace Parley

open Parley.Batch

variable {M N : Type → Type} [Monad M] [Monad N]

/-! ## §1. Moves, however the world is reached. -/

/-- Carry out a call, and say whether it is granted. -/
def Call.perform (e : Engine) (a : Access M) : Call → M Bool
  | initiate r => do return (← e.initiate a r).isOk
  | notify inlet m => do return (← e.notify a inlet m).isOk
  | terminate id reason => do return (← e.terminate a id reason).isOk
  | advance ms => do
    a.advance ms
    return true

namespace Round

/-- Lease the batch of the next of some duties of a role, or end the tick. -/
def leaseNext (e : Engine) (a : Access M) (role : Role) : List Duty → M (Option Round)
  | [] => return none
  | duty :: later => do return some ⟨role, duty, ← (e.job role duty).lease a, [], later⟩

/-- The round when a record of its batch was begun, and the others are still ahead. -/
def goOn (r : Round) (rest : List Negotiation) : Begun → Round
  | .done _ => { r with ahead := rest }
  | .sending f => { r with ahead := rest, airborne := r.airborne ++ [f] }

/-- Carry out a move of a round. -/
def perform (e : Engine) (a : Access M) (r : Round) : Move → M (Option Round)
  | .begin =>
    match r.ahead with
    | n :: rest =>
      if r.airborne.length < e.maxConcurrent then do
        return some (r.goOn rest (← e.begin a r.role r.duty n))
      else return some r
    | [] => return some r
  | .land k reply =>
    match r.airborne[k]? with
    | some f => do
      let _ ← e.land a r.role f reply
      return some { r with airborne := r.airborne.eraseIdx k }
    | none => return some r
  | .next => if r.members = [] then leaseNext e a r.role r.later else return some r
  | _ => return some r

end Round

namespace Session

/-- Carry out a move: the tick that is then under way. -/
def perform (e : Engine) (a : Access M) (s : Session) (move : Move) : M (Option Round) :=
  match move with
  | .call c =>
    if s.isOpen then do
      let _ ← c.perform e a
      return s.round
    else return s.round
  | .start role =>
    match s.round with
    | none => Round.leaseNext e a role role.duties
    | some r => return some r
  | move =>
    match s.round with
    | none => return none
    | some r => r.perform e a move

end Session

/-! ## §2. Directly. -/

theorem Call.run_eq_perform (e : Engine) (w : World) (c : Call) :
    c.run e w = (c.perform e .direct w).2 := by
  cases c <;> rfl

namespace Session

variable {e : Engine} {w : World}

theorem lookAfter_eq_leaseNext (role : Role) (duties : List Duty) :
    lookAfter e w role duties
      = ⟨(Round.leaseNext e .direct role duties w).2, (Round.leaseNext e .direct role duties w).1⟩ := by
  cases duties <;> rfl

theorem stepRound_eq_perform (r : Round) (move : Move) :
    stepRound e w r move = ⟨(r.perform e .direct move w).2, (r.perform e .direct move w).1⟩ := by
  cases move with
  | call c => rfl
  | start role => rfl
  | begin =>
    unfold stepRound Round.perform
    cases r.ahead with
    | nil => rfl
    | cons n rest =>
      simp only
      split
      · unfold beginOne
        show _ = (⟨(e.begin .direct r.role r.duty n w).2,
          some (r.goOn rest (e.begin .direct r.role r.duty n w).1)⟩ : Session)
        generalize e.begin .direct r.role r.duty n w = result
        obtain ⟨begun, w'⟩ := result
        cases begun <;> rfl
      · rfl
  | land k reply =>
    unfold stepRound landOne Round.perform
    simp only
    cases r.airborne[k]? <;> rfl
  | next =>
    unfold stepRound Round.perform
    simp only
    split
    · exact lookAfter_eq_leaseNext r.role r.later
    · rfl

/-- A move of a run is the move as it is carried out directly. -/
theorem step_eq_perform (s : Session) (move : Move) :
    s.step e move = ⟨(s.perform e .direct move s.world).2, (s.perform e .direct move s.world).1⟩ := by
  cases move with
  | call c =>
    unfold step perform
    simp only
    split
    · rw [c.run_eq_perform]
      rfl
    · rfl
  | start role =>
    unfold step perform
    simp only
    cases hr : s.round with
    | none => exact lookAfter_eq_leaseNext role role.duties
    | some r =>
      show s = ⟨s.world, some r⟩
      rw [← hr]
  | begin | land k reply | next =>
    unfold step perform
    simp only
    cases hr : s.round with
    | none =>
      show s = ⟨s.world, none⟩
      rw [← hr]
    | some r => exact stepRound_eq_perform r _

end Session

/-! ## §3. The same everywhere. -/

variable {a : Access M} {b : Access N} {e : Engine}

/-- A call other than the clock's is carried out in the same way, and announces nothing if it is not
granted. -/
theorem Passage.performCall (φ : Passage a b e) (c : Call) (hc : ∀ ms, c ≠ .advance ms) :
    φ.rel (· = false) (c.perform e a) (c.perform e b) := by
  have hgranted {x : M Handled} {y : N Handled} (h : φ.rel Handled.isRefused x y) :
      φ.rel (· = false) (x >>= fun r => pure r.isOk) (y >>= fun r => pure r.isOk) := by
    refine φ.andThen h (fun _ _ => φ.given _) fun r hr => ?_
    cases r with
    | ok n => exact ⟨true, rfl, rfl, Bool.noConfusion⟩
    | error err => exact absurd trivial hr
  cases c with
  | initiate r => exact hgranted (φ.initiate r)
  | notify inlet m => exact hgranted (φ.notify inlet m)
  | terminate id reason => exact hgranted (φ.terminate id reason)
  | advance ms => exact absurd rfl (hc ms)

namespace Pairing

variable (φ : Pairing a b e.handle)

theorem leaseNext (role : Role) (duties : List Duty) :
    φ.rel (Round.leaseNext e a role duties) (Round.leaseNext e b role duties) := by
  cases duties with
  | nil => exact φ.given _
  | cons duty later => exact φ.andThen (φ.passage.lease role duty) fun _ => φ.given _

variable [LawfulMonad M] [LawfulMonad N]

theorem performRound (r : Round) (move : Move) :
    φ.rel (r.perform e a move) (r.perform e b move) := by
  unfold Round.perform
  cases move with
  | call c => exact φ.given _
  | start role => exact φ.given _
  | begin =>
    simp only
    cases r.ahead with
    | nil => exact φ.given _
    | cons n rest =>
      simp only
      split
      · exact φ.andThen (φ.passage.begin r.role r.duty n) fun _ => φ.given _
      · exact φ.given _
  | land k reply =>
    simp only
    cases r.airborne[k]? with
    | none => exact φ.given _
    | some f => exact φ.andThen (φ.passage.land r.role f reply) fun _ => φ.given _
  | next =>
    simp only
    split
    · exact φ.leaseNext r.role r.later
    · exact φ.given _

/-- A move other than the clock's is carried out in the same way. -/
theorem performMove (s : Session) (move : Move) (hmove : ∀ ms, move ≠ .call (.advance ms)) :
    φ.rel (s.perform e a move) (s.perform e b move) := by
  unfold Session.perform
  cases move with
  | call c =>
    simp only
    split
    · refine φ.andThen (φ.passage.performCall c fun ms hc => hmove ms ?_) fun _ => φ.given _
      rw [hc]
    · exact φ.given _
  | start role =>
    simp only
    cases s.round with
    | none => exact φ.leaseNext role role.duties
    | some r => exact φ.given _
  | begin | land k reply | next =>
    simp only
    cases s.round with
    | none => exact φ.given _
    | some r => exact φ.performRound r _

end Pairing

/-! ## §4. Where leases are judged. -/

/-- The world after a call, if it does not break down. -/
def Call.tried (e : Engine) (w : World) (c : Call) : Option World :=
  let result := (c.perform e .strict).run w
  result.1.map fun _ => result.2

/-- The session after a move, if it does not break down. -/
def Session.tried (e : Engine) (s : Session) (move : Move) : Option Session :=
  let result := (s.perform e .strict move).run s.world
  result.1.map fun round => ⟨result.2, round⟩

theorem Call.tried_of_isTimely {e : Engine} {w : World} (hw : w.IsTimely e.handle) (c : Call) :
    c.tried e w = some (c.run e w) ∧ (c.run e w).ledger.leasesEnd = true := by
  by_cases hc : ∀ ms, c ≠ .advance ms
  · have hechoes := (Access.strictly e.handle).passage.performCall c hc
    rw [c.run_eq_perform]
    refine ⟨?_, (hechoes.keeps w hw).stored⟩
    unfold Call.tried
    rw [hechoes.run w hw]
    rfl
  -- The clock judges no lease.
  · obtain ⟨ms, hc⟩ := not_forall.mp hc
    rw [not_not.mp hc]
    exact ⟨rfl, hw.stored⟩

namespace Session

variable {e : Engine} {s : Session}

/-- In a session where leases have ends no move breaks down, and leases have ends afterwards. -/
theorem tried_of_isTimely (hs : s.world.IsTimely e.handle) (move : Move) :
    s.tried e move = some (s.step e move) ∧ (s.step e move).world.ledger.leasesEnd = true := by
  by_cases hmove : ∀ ms, move ≠ .call (.advance ms)
  · have hechoes := (Access.strictly e.handle).performMove s move hmove
    rw [step_eq_perform]
    refine ⟨?_, (hechoes.keeps s.world hs).stored⟩
    unfold tried
    rw [hechoes.run s.world hs]
    rfl
  · obtain ⟨ms, hmove⟩ := not_forall.mp hmove
    rw [not_not.mp hmove, step_eq_perform]
    unfold tried perform
    simp only
    split
    · exact ⟨rfl, hs.stored⟩
    · exact ⟨rfl, hs.stored⟩

/-- No move but the clock's takes a session out of reach of the calendar. -/
theorem isTimely_step (hs : s.world.IsTimely e.handle) {move : Move}
    (hmove : ∀ ms, move ≠ .call (.advance ms)) : (s.step e move).world.IsTimely e.handle := by
  rw [step_eq_perform]
  exact ((Access.strictly e.handle).performMove s move hmove).keeps s.world hs

end Session

namespace Office

variable {e : Engine} {o : Office}

/-- The office after a move of a role's session that led to another session. -/
def worked (o : Office) (role : Role) (move : Move) (s : Session) : Office where
  world := s.world
  round other := if other = role then s.round else o.round other
  log := o.log ++ (o.session role).settled move

/-- The office after an act, if it does not break down. -/
def tried (e : Engine) (o : Office) : Act → Option Office
  | .call c => if o.isOpen then (c.tried e o.world).map fun w => { o with world := w } else some o
  | .work role chore =>
    ((o.session role).tried e (chore.move role)).map (o.worked role (chore.move role))

/-- What some acts come to, if none breaks down. -/
def tryRun (e : Engine) (o : Office) (acts : List Act) : Option Office :=
  acts.foldlM (tried e) o

/-- Whether a lease that is taken at any time during some acts has an end. -/
def isTimelyAlong (e : Engine) (o : Office) : List Act → Bool
  | [] => (e.handle.leaseAt o.world.now).hasEnd
  | act :: acts => (e.handle.leaseAt o.world.now).hasEnd && (o.step e act).isTimelyAlong e acts

theorem tried_of_isTimely (ho : o.world.IsTimely e.handle) (act : Act) :
    o.tried e act = some (o.step e act) ∧ (o.step e act).world.ledger.leasesEnd = true := by
  cases act with
  | work role chore =>
    have hs : (o.session role).world.IsTimely e.handle := ho
    obtain ⟨htried, hends⟩ := Session.tried_of_isTimely hs (chore.move role)
    refine ⟨?_, hends⟩
    unfold tried
    simp only
    rw [htried]
    rfl
  | call c =>
    obtain ⟨htried, hends⟩ := c.tried_of_isTimely ho
    unfold tried step
    simp only
    split
    · rw [htried]
      exact ⟨rfl, hends⟩
    · exact ⟨rfl, ho.stored⟩

/-- While leases have ends nothing breaks down, and the last world is one where they have. -/
theorem tryRun_of_isTimelyAlong {acts : List Act} (ho : o.world.ledger.leasesEnd = true)
    (htimely : o.isTimelyAlong e acts = true) :
    o.tryRun e acts = some (o.run e acts) ∧ (o.run e acts).world.IsTimely e.handle := by
  -- Over the acts: after each of them the stored leases have ends, and so the next one is made.
  induction acts generalizing o with
  | nil => exact ⟨rfl, ho, htimely⟩
  | cons act acts ih =>
    obtain ⟨hnow, hrest⟩ := Bool.and_eq_true_iff.mp htimely
    obtain ⟨htried, hends⟩ := tried_of_isTimely ⟨ho, hnow⟩ act
    obtain ⟨hmade, hlast⟩ := ih hends hrest
    refine ⟨?_, hlast⟩
    unfold tryRun
    rw [List.foldlM_cons, htried]
    exact hmade

end Office

/-! ## §5. Ticks. -/

/-- The conduct of an engine that handles the records of a batch one after the other, and may break
down on the way. -/
def Conduct.strictly (send : Flight → OptionT (StateM World) Reply) :
    Conduct (OptionT (StateM World)) where
  toAccess := .strict
  send := send
  gather _ := inOrder

/-- Where the sending of a message does not break down, a tick does not. -/
theorem Access.echoes_runRole {e : Engine} {send : Dispatch}
    {send' : Flight → OptionT (StateM World) Reply}
    (hsend : ∀ f, Echoes (World.IsTimely · e.handle) (send f) (send' f)) (role : Role) :
    Echoes (World.IsTimely · e.handle) (e.runRole (.oneByOne send) role)
      (e.runRole (.strictly send') role) := by
  have hconducts : (strictly e.handle).Conducts (.oneByOne send) (.strictly send') :=
    ⟨rfl, rfl, hsend, fun _ ns _ _ hone => (strictly e.handle).inOrder ns hone⟩
  exact hconducts.runRole role

end Parley
