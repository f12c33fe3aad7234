/-
  Parley.Proofs.Engine.Session
  ────────────────────────────────
  **AN ENGINE, MOVE BY MOVE.**

  What an engine does is a sequence of moves.  The local application and the
  counter party call it, and the clock goes on; in a round of work it begins the
  records of a batch, up to so many at a time, and deals with the replies to
  their messages in any order:

      call     an operation from outside, or the clock
      start    a tick of a role begins
      begin    the next record of the batch is begun
      land     the reply to a message that is on its way arrives
      next     the batch is done, and the next duty's is leased

  Calls come in between rounds and while a message is on its way.  A move that
  is not possible does nothing, so every sequence of moves is a run.
-/
import Parley.Proofs.Engine.Effects
import Mathlib.Data.List.Perm.Basic

namespace Parley

/-! ## §1. Calls. -/

/-- What others ask of an engine, and the clock. -/
inductive Call where
  | initiate (r : ContractRequest)
  | notify (inlet : Inlet) (m : Message)
  | terminate (id reason : String)
  | advance (ms : Int)
deriving DecidableEq, Repr

/-- Carry out a call. -/
def Call.run (e : Engine) (w : World) : Call → World
  | initiate r => (e.initiate .direct r w).2
  | notify inlet m => (e.notify .direct inlet m w).2
  | terminate id reason => (e.terminate .direct id reason w).2
  | advance ms => w.advance ms

/-! ## §2. Rounds. -/

/-- A tick under way: the role, the duty looked after, the records of its batch that are not begun,
the messages that are on their way, and the duties to come. -/
structure Round where
  role : Role
  duty : Duty
  ahead : List Negotiation
  airborne : List Flight
  later : List Duty
deriving DecidableEq, Repr

/-- The records that a round has leased and not yet dealt with. -/
def Round.members (r : Round) : List Negotiation :=
  r.ahead ++ r.airborne.map (·.leased)

/-- Dealing with a reply leaves all records of a round but the message's. -/
theorem Round.members_perm {r : Round} {k : Nat} {f : Flight} (hk : r.airborne[k]? = some f) :
    (f.leased :: { r with airborne := r.airborne.eraseIdx k }.members).Perm r.members := by
  obtain ⟨hlt, rfl⟩ := List.getElem?_eq_some_iff.mp hk
  have hflights := (List.getElem_cons_eraseIdx_perm hlt).map (·.leased)
  rw [List.map_cons] at hflights
  exact List.perm_middle.symm.trans (hflights.append_left r.ahead)

/-- An engine's world, and the tick that is under way in it. -/
structure Session where
  world : World
  round : Option Round := none

/-- A move of an engine. -/
inductive Move where
  | call (c : Call)
  | start (role : Role)
  | begin
  | land (k : Nat) (reply : Reply)
  | next
deriving DecidableEq, Repr

namespace Session

/-- A session in a world without records. -/
def IsFresh (s : Session) : Prop :=
  s.world.ledger = .empty ∧ s.round = none

/-- Whether others can act: no tick is under way, or it waits for a reply. -/
def isOpen (s : Session) : Bool :=
  match s.round with
  | none => true
  | some r => !r.airborne.isEmpty

/-- Go on to the next of some duties of a role, or end the tick. -/
def lookAfter (e : Engine) (w : World) (role : Role) : List Duty → Session
  | [] => ⟨w, none⟩
  | duty :: later =>
    let (batch, w) := (e.job role duty).lease .direct w
    ⟨w, some ⟨role, duty, batch, [], later⟩⟩

theorem lookAfter_cons (e : Engine) (w : World) (role : Role) (duty : Duty) (later : List Duty) :
    lookAfter e w role (duty :: later)
      = ⟨((e.job role duty).lease .direct w).2,
          some ⟨role, duty, ((e.job role duty).lease .direct w).1, [], later⟩⟩ := rfl

/-- Begin a record of a round's batch; the others are still ahead. -/
def beginOne (e : Engine) (w : World) (r : Round) (n : Negotiation) (rest : List Negotiation) :
    Session :=
  match e.begin .direct r.role r.duty n w with
  | (.done _, w) => ⟨w, some { r with ahead := rest }⟩
  | (.sending f, w) => ⟨w, some { r with ahead := rest, airborne := r.airborne ++ [f] }⟩

/-- Deal with the reply to a message of a round. -/
def landOne (e : Engine) (w : World) (r : Round) (k : Nat) (reply : Reply) : Session :=
  match r.airborne[k]? with
  | some f => ⟨(e.land .direct r.role f reply w).2,
      some { r with airborne := r.airborne.eraseIdx k }⟩
  | none => ⟨w, some r⟩

/-- A move of a round. -/
def stepRound (e : Engine) (w : World) (r : Round) : Move → Session
  | .begin =>
    match r.ahead with
    | n :: rest =>
      if r.airborne.length < e.maxConcurrent then beginOne e w r n rest else ⟨w, some r⟩
    | [] => ⟨w, some r⟩
  | .land k reply => landOne e w r k reply
  | .next => if r.members = [] then lookAfter e w r.role r.later else ⟨w, some r⟩
  | _ => ⟨w, some r⟩

/-- A move. -/
def step (e : Engine) (s : Session) (move : Move) : Session :=
  match move with
  | .call c => if s.isOpen then { s with world := c.run e s.world } else s
  | .start role =>
    match s.round with
    | none => lookAfter e s.world role role.duties
    | some _ => s
  | move =>
    match s.round with
    | none => s
    | some r => stepRound e s.world r move

/-- What a move of a round can be. -/
inductive RoundStep (e : Engine) (w : World) (r : Round) (move : Move) : Session → Prop
  | idle : RoundStep e w r move ⟨w, some r⟩
  | begun (n : Negotiation) (rest : List Negotiation) (hmove : move = .begin)
      (hahead : r.ahead = n :: rest) (hroom : r.airborne.length < e.maxConcurrent) :
      RoundStep e w r move (beginOne e w r n rest)
  | landed (k : Nat) (reply : Reply) (hmove : move = .land k reply) :
      RoundStep e w r move (landOne e w r k reply)
  | next (hmove : move = .next) (hdone : r.members = []) :
      RoundStep e w r move (lookAfter e w r.role r.later)

theorem roundStep (e : Engine) (w : World) (r : Round) (move : Move) :
    RoundStep e w r move (stepRound e w r move) := by
  cases move with
  | call c => exact .idle
  | start role => exact .idle
  | begin =>
    unfold stepRound
    cases hahead : r.ahead with
    | nil => exact .idle
    | cons n rest =>
      simp only
      split
      · rename_i hroom
        exact .begun n rest rfl hahead hroom
      · exact .idle
  | land k reply => exact .landed k reply rfl
  | next =>
    unfold stepRound
    simp only
    split
    · rename_i hdone
      exact .next rfl hdone
    · exact .idle

/-- What a move can be. -/
inductive Step (e : Engine) (s : Session) (move : Move) : Session → Prop
  | idle : Step e s move s
  | called (c : Call) (hmove : move = .call c) (hopen : s.isOpen = true) :
      Step e s move { s with world := c.run e s.world }
  | started (role : Role) (hmove : move = .start role) (hr : s.round = none) :
      Step e s move (lookAfter e s.world role role.duties)
  | worked (r : Round) (s' : Session) (hr : s.round = some r)
      (hstep : RoundStep e s.world r move s') : Step e s move s'

theorem step_cases (e : Engine) (s : Session) (move : Move) : Step e s move (s.step e move) := by
  cases move with
  | call c =>
    unfold step
    simp only
    split
    · rename_i hopen
      exact .called c rfl hopen
    · exact .idle
  | start role =>
    unfold step
    simp only
    cases hr : s.round with
    | none => exact .started role rfl hr
    | some r => exact .idle
  | begin | land k reply | next =>
    unfold step
    simp only
    cases hr : s.round with
    | none => exact .idle
    | some r => exact .worked r _ hr (roundStep e s.world r _)

/-- A run is one move after another. -/
def run (e : Engine) (s : Session) (moves : List Move) : Session :=
  moves.foldl (step e) s

@[simp] theorem run_nil (e : Engine) (s : Session) : s.run e [] = s := rfl

@[simp] theorem run_cons (e : Engine) (s : Session) (move : Move) (moves : List Move) :
    s.run e (move :: moves) = (s.step e move).run e moves := rfl

theorem run_append (e : Engine) (s : Session) (moves moves' : List Move) :
    s.run e (moves ++ moves') = (s.run e moves).run e moves' :=
  List.foldl_append

end Session

/-! ## §3. What a call does. -/

/-- The states that a call may put a record of a role into. -/
def Role.awaits : Role → State → Bool
  | consumer, .offered | consumer, .agreed | consumer, .finalized => true
  | provider, .accepted | provider, .verified => true
  | _, .terminating | _, .terminated => true
  | _, _ => false

/-- What a call makes of a stored record: a message about it is accepted, or it is to be ended. -/
inductive Call.Makes (w : World) (n n' : Negotiation) : Prop
  | accepted (m : Message) (haddr : m.addressee? w.ledger = some n.role)
      (hok : m.acceptedBy n.role n w.now = .ok n')
  | doomed (reason : String) (hedge : n.checkEdge .terminating = .ok ())
      (hn' : n' = Engine.doomed n reason w.now)

/-- How a call opens a record: by the wish to negotiate, or by a contract request. -/
inductive Call.Opens (w : World) (n : Negotiation) : Prop
  | initiated (r : ContractRequest) (hn : n = r.opened w.nextId w.now)
  | requested (m : Message) (offer : Offer) (callbackAddress consumerId : String)
      (hn : n = m.opened offer callbackAddress consumerId w.nextId w.now)

/-- What becomes of the records when others act. -/
inductive Call.Effect (w w' : World) : Prop
  | quiet (hcontent : ∀ id, w'.ledger.content id = w.ledger.content id)
      (hsupply : w'.supply = w.supply)
  | moved (n n' : Negotiation) (hn : w.ledger.content n.id = some n) (hmakes : Call.Makes w n n')
      (hw : w.Puts w' n')
  | born (n : Negotiation) (hopens : Call.Opens w n) (hw : w.Bears w' n)

namespace Call

variable {e : Engine} {w : World} {n n' : Negotiation}

theorem Effect.of_same {w' : World} (h : w.Same w') : Effect w w' :=
  .quiet h.content h.supply

/-- A message is for a role that may be put into the state that it leads to. -/
theorem awaits_of_addressee {m : Message} {l : Ledger} {role : Role}
    (h : m.addressee? l = some role) : role.awaits m.payload.target = true := by
  unfold Message.addressee? at h
  cases hm : m.payload with
  | contractRequest offer callbackAddress consumerId => simp [hm] at h
  | negotiationEvent event =>
    cases event <;> (rw [hm] at h; cases h; rfl)
  | termination reason policy => cases role <;> rfl
  | _ => rw [hm] at h; cases h; rfl

/-- Only a consumer is brought an agreement. -/
theorem not_isAgreement_of_provider {m : Message} {l : Ledger}
    (h : m.addressee? l = some .provider) : m.payload.isAgreement = false := by
  unfold Message.addressee? at h
  cases hm : m.payload with
  | contractAgreement agreement => rw [hm] at h; cases h
  | _ => rfl

theorem isSound_opened (m : Message) (offer : Offer) (callbackAddress consumerId id : String)
    (now : Instant) : (m.opened offer callbackAddress consumerId id now).IsSound :=
  ⟨⟨.requested, rfl⟩, by simp [Message.opened, Negotiation.addOffer, Negotiation.enter],
    fun _ => ⟨m.consumerPid, rfl⟩⟩

theorem isSound_initiated (r : ContractRequest) (id : String) (now : Instant) :
    (r.opened id now).IsSound :=
  ⟨⟨.initial, rfl⟩, by simp [ContractRequest.opened, Negotiation.addOffer], fun h => by cases h⟩

/-- A call opens sound records, without an agreement. -/
theorem Opens.isSound (h : Opens w n) : n.IsSound := by
  cases h with
  | initiated r hn => exact hn ▸ isSound_initiated r w.nextId w.now
  | requested m offer callbackAddress consumerId hn =>
    exact hn ▸ isSound_opened m offer callbackAddress consumerId w.nextId w.now

theorem Opens.agreement (h : Opens w n) : n.agreement = none := by
  cases h with
  | initiated r hn => rw [hn]; rfl
  | requested m offer callbackAddress consumerId hn => rw [hn]; rfl

/-- An accepted message keeps the record. -/
theorem keeps_of_accepted {m : Message} {l : Ledger} {role : Role} {n n' : Negotiation}
    {now : Instant} (haddr : m.addressee? l = some role) (hok : m.acceptedBy role n now = .ok n') :
    n.Keeps n' := by
  obtain ⟨hrole, _, hset, rfl⟩ := Message.acceptedBy_eq_ok_iff.mp hok
  refine Message.keeps_outcome now hset fun htarget => ?_
  -- Only a consumer is made an offer.
  have hawaits := awaits_of_addressee haddr
  rw [htarget] at hawaits
  rw [hrole]
  cases role with
  | consumer => rfl
  | provider => cases hawaits

/-- What a call makes of a record follows an edge to a state that the role awaits. -/
theorem Makes.edge (h : Makes w n n') : ∃ target : State, n.checkEdge target = .ok ()
    ∧ n'.state = target.code ∧ n.role.awaits target = true := by
  cases h with
  | accepted m haddr hok =>
    obtain ⟨_, hedge, _, rfl⟩ := Message.acceptedBy_eq_ok_iff.mp hok
    exact ⟨m.payload.target, hedge, m.state_outcome n w.now, awaits_of_addressee haddr⟩
  -- A record of either role can be doomed.
  | doomed reason hedge hn' =>
    subst hn'
    refine ⟨.terminating, hedge, rfl, ?_⟩
    cases n.role <;> rfl

theorem Makes.moves (h : Makes w n n') : n.Moves n' := by
  obtain ⟨target, hedge, hstate, _⟩ := h.edge
  exact Negotiation.moves_of_checkEdge hedge hstate

theorem Makes.keeps (h : Makes w n n') : n.Keeps n' := by
  cases h with
  | accepted m haddr hok => exact keeps_of_accepted haddr hok
  | doomed reason hedge hn' =>
    subst hn'
    exact (((Negotiation.Keeps.refl n).withPending false).withErrorDetail reason).enter _ _

/-- A call does not bring a provider's record an agreement. -/
theorem Makes.agreement (h : Makes w n n') (hrole : n.role = .provider) :
    n'.agreement = n.agreement := by
  cases h with
  | accepted m haddr hok =>
    obtain ⟨_, _, _, rfl⟩ := Message.acceptedBy_eq_ok_iff.mp hok
    rw [hrole] at haddr
    exact m.agreement_outcome n w.now (not_isAgreement_of_provider haddr)
  | doomed reason hedge hn' =>
    subst hn'
    rfl

/-- What the receipt of a message does to the records. -/
theorem effect_of_receipt {m : Message} {r : Handled} {w' : World}
    (h : Engine.Receipt e w m r w') : Effect w w' := by
  cases h with
  | refused err hr hm hno hsame => exact .of_same hsame
  | accepted role n found haddr hpid hn hok hr hid hputs =>
    obtain ⟨hrole, _⟩ := Message.acceptedBy_eq_ok_iff.mp hok
    subst hrole
    exact .moved n _ hn (.accepted m haddr hok) hputs
  | known offer callbackAddress consumerId n hm hn hr hsame =>
    rw [hsame]
    exact .of_same (World.Same.refl w)
  | opened offer callbackAddress consumerId hm hn hr hbears =>
    exact .born _ (.requested m offer callbackAddress consumerId rfl) hbears

/-- What a call does to the records; the store stays the engine's alone. -/
theorem effect_run (hw : w.ledger.HeldBy e.handle.holder) (c : Call) :
    Effect w (c.run e w) ∧ (c.run e w).ledger.HeldBy e.handle.holder := by
  cases c with
  | initiate r =>
    obtain ⟨hbears, hheld⟩ := e.initiate_effect hw r
    exact ⟨.born _ (.initiated r rfl) hbears, hheld⟩
  | notify inlet m =>
    show Effect w (e.notify .direct inlet m w).2 ∧ _
    unfold run
    simp only
    rw [e.notify_eq]
    split
    · obtain ⟨hreceipt, hheld⟩ := e.receive_effect hw m
      exact ⟨effect_of_receipt hreceipt, hheld⟩
    · exact ⟨.of_same (World.Same.refl w), hw⟩
  | terminate id reason =>
    obtain ⟨heffect, hheld⟩ := e.terminate_effect hw id reason
    refine ⟨?_, hheld⟩
    rcases heffect with hsame | ⟨n, hn, hedge, hputs⟩
    · exact .of_same hsame
    · have hid := Ledger.id_of_content hn
      rw [← hid] at hn
      exact .moved n _ hn (.doomed reason hedge rfl) hputs
  | advance ms => exact ⟨.quiet (fun _ => rfl) rfl, hw⟩

end Call

end Parley
