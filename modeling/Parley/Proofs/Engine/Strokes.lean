/-
  Parley.Proofs.Engine.Strokes
  ────────────────────────────────
  **WHICH WORLD AN OPERATION LEADS TO.**

  An operation of an engine changes the world by one stroke at most:

      a lease ends
      a record enters a state, is written without a lease, and announced
      a record with a new id is written and announced
      a record is parked, that is, written and not announced

  Which stroke it is, is told once for each operation, with the result that the
  operation gives:

      Answer   requests and messages
      Began    the handling of a record up to its message
      Landed   the handling of a record from the reply on
-/
import Parley.Proofs.Engine.Session

namespace Parley

/-! ## §1. Entering a state. -/

namespace Negotiation

/-- A record has come from another by entering a state along an edge of the graph. -/
structure Enters (n m : Negotiation) (kind : State) : Prop where
  edge : n.checkEdge kind = .ok ()
  id : m.id = n.id
  role : m.role = n.role
  state : m.state = kind.code
  count : m.stateCount = if n.state = kind.code then n.stateCount + 1 else 0

variable {n m k : Negotiation} {kind : State}

/-- What is added to a record before it enters a state does not matter. -/
theorem enters_of_enter (hedge : n.checkEdge kind = .ok ()) (hid : k.id = n.id)
    (hrole : k.role = n.role) (hstate : k.state = n.state) (hcount : k.stateCount = n.stateCount)
    (now : Instant) : n.Enters (k.enter kind.code now) kind where
  edge := hedge
  id := hid
  role := hrole
  state := rfl
  count := by
    show (if k.state = kind.code then k.stateCount + 1 else 0) = _
    rw [hstate, hcount]

theorem enters_enter (hedge : n.checkEdge kind = .ok ()) (now : Instant) :
    n.Enters (n.enter kind.code now) kind :=
  enters_of_enter hedge rfl rfl rfl rfl now

theorem Enters.explained (h : n.Enters m kind) (detail : Option String) :
    n.Enters (m.explained detail) kind := by
  cases detail with
  | none => exact h
  | some text => exact ⟨h.edge, h.id, h.role, h.state, h.count⟩

theorem Enters.of_withLease {lease : Option Lease} (h : (n.withLease lease).Enters m kind) :
    n.Enters m kind :=
  ⟨h.edge, h.id, h.role, h.state, h.count⟩

end Negotiation

/-! ## §2. Leases taken on the way. -/

namespace World

/-- A lease that was taken and given back. -/
theorem lend_free (w : World) (h : Handle) (id : String) : (w.lend h id).free id = w.free id := by
  show w.withLedger ((w.ledger.setLease id _).setLease id none) = _
  rw [Ledger.setLease_setLease]
  rfl

/-- A lease that was taken and ended by writing the record. -/
theorem lend_commit (w : World) (h : Handle) (kind : State) {n : Negotiation} {id : String}
    (hid : n.id = id) : (w.lend h id).commit kind n = w.commit kind n := by
  have hname : (n.withLease none).id = id := hid
  show (w.withLedger ((w.ledger.setLease id _).put (n.withLease none))).announce ⟨kind, n⟩ = _
  rw [Ledger.put_setLease w.ledger hname]
  rfl

end World

namespace Engine

variable {e : Engine} {w : World}

/-! ## §3. Requests and messages. -/

/-- How a request or a message is answered, and the world after that. -/
inductive Answer (w : World) : Handled → World → Prop
  | away (err : NegotiationError) : Answer w (.error err) w
  | back (err : NegotiationError) (id : String) : Answer w (.error err) (w.free id)
  | known (n : Negotiation) : Answer w (.ok n) w
  | granted (kind : State) (n m : Negotiation) (hn : w.ledger.find? n.id = some n)
      (hentered : n.Enters m kind) : Answer w (.ok m) (w.commit kind m)
  | opened (kind : State) (m : Negotiation) (hid : m.id = w.nextId)
      (hstate : m.state = kind.code) : Answer w (.ok m) (w.draw.commit kind m)

/-- What a message makes of a record that may take it. -/
theorem enters_outcome {m : Message} {n : Negotiation}
    (hedge : n.checkEdge m.payload.target = .ok ()) (now : Instant) :
    n.Enters (m.outcome n now) m.payload.target := by
  have hbook : (m.enrich (n.withPending false)).role = n.role
      ∧ (m.enrich (n.withPending false)).state = n.state
      ∧ (m.enrich (n.withPending false)).stateCount = n.stateCount := by
    unfold Message.enrich
    cases m.payload with
    | termination reason policy => cases reason <;> exact ⟨rfl, rfl, rfl⟩
    | _ => exact ⟨rfl, rfl, rfl⟩
  obtain ⟨hrole, hstate, hcount⟩ := hbook
  exact Negotiation.enters_of_enter (k := m.enrich (n.withPending false)) hedge (m.id_enrich _)
    hrole hstate hcount now

theorem answer_received (e : Engine) (w : World) (m : Message) (role : Role) :
    Answer w (e.received w m role).1 (e.received w m role).2 := by
  unfold received
  cases m.processIdFor role with
  | none => exact .away _
  | some id =>
    simp only
    cases hn : w.ledger.find? id with
    | none => exact .away _
    | some n =>
      have hid : n.id = id := Ledger.id_of_find? hn
      simp only
      cases hok : m.acceptedBy role (n.withLease (some (e.handle.leaseAt w.now))) w.now with
      | error err =>
        simp only
        rw [World.lend_free]
        exact .back err id
      | ok n' =>
        obtain ⟨_, hedge, _, rfl⟩ := Message.acceptedBy_eq_ok_iff.mp hok
        have hentered := (enters_outcome hedge w.now).of_withLease
        subst hid
        simp only
        rw [World.lend_commit w e.handle _ hentered.id]
        exact .granted _ n _ hn hentered

theorem answer_receive (hw : w.ledger.HeldBy e.handle.holder) (m : Message) :
    Answer w (e.receive .direct m w).1 (e.receive .direct m w).2 := by
  have haddressed : Answer w (e.addressed w m).1 (e.addressed w m).2 := by
    unfold addressed
    cases m.addressee? w.ledger with
    | none => exact .away _
    | some role => exact answer_received e w m role
  rw [receive_direct hw]
  cases m.payload with
  | contractRequest offer callbackAddress consumerId =>
    simp only [requested]
    cases knownRequest? m.consumerPid w.ledger with
    | some n => exact .known n
    | none => exact .opened .requested _ rfl rfl
  | _ => exact haddressed

theorem answer_notify (hw : w.ledger.HeldBy e.handle.holder) (inlet : Inlet) (m : Message) :
    Answer w (e.notify .direct inlet m w).1 (e.notify .direct inlet m w).2 := by
  rw [e.notify_eq]
  split
  · exact answer_receive hw m
  · exact .away _

theorem answer_initiate (hw : w.ledger.HeldBy e.handle.holder) (r : ContractRequest) :
    Answer w (e.initiate .direct r w).1 (e.initiate .direct r w).2 := by
  rw [initiate_direct hw]
  exact .opened .initial _ rfl rfl

/-- The wish to end a record that may be ended. -/
theorem enters_doomed {n : Negotiation} (hedge : n.checkEdge .terminating = .ok ())
    (reason : String) (now : Instant) : n.Enters (doomed n reason now) .terminating :=
  Negotiation.enters_of_enter (k := (n.withPending false).withErrorDetail reason) hedge rfl rfl rfl
    rfl now

theorem answer_terminate (hw : w.ledger.HeldBy e.handle.holder) (id reason : String) :
    Answer w (e.terminate .direct id reason w).1 (e.terminate .direct id reason w).2 := by
  rw [terminate_direct (hw.not_shields id w.now)]
  cases hn : w.ledger.find? id with
  | none => exact .away _
  | some n =>
    have hid : n.id = id := Ledger.id_of_find? hn
    simp only
    cases hedge : n.checkEdge .terminating with
    | error err =>
      simp only
      rw [World.lend_free]
      exact .back _ id
    | ok _ =>
      have hentered : n.Enters
          (doomed (n.withLease (some (e.handle.leaseAt w.now))) reason w.now) .terminating :=
        (enters_doomed (n := n.withLease (some (e.handle.leaseAt w.now))) hedge reason
          w.now).of_withLease
      subst hid
      simp only
      rw [World.lend_commit w e.handle _ hentered.id]
      exact .granted _ n _ hn hentered

/-! ## §4. Up to the message. -/

/-- What a duty makes of a record without a message: the decision is taken, or the negotiation ends
because there is nothing to send a message about. -/
inductive Concludes (e : Engine) (n : Negotiation) (now : Instant) (kind : State) : Duty → Prop
  | decided (source : State) : Concludes e n now kind (.decide source kind)
  | offerless (message : Sending) (reason : String) (hkind : kind = .terminated)
      (hreason : e.payloadFor message n now = .error reason) : Concludes e n now kind (.send message)

/-- How far the handling of a record gets without a reply, and the world after that. -/
inductive Began (e : Engine) (w : World) (duty : Duty) (n : Negotiation) : Begun → World → Prop
  | parked (hguard : e.guard n = true) : Began e w duty n (.done false)
      (w.withLedger (w.ledger.put ((n.withPending true).withLease none)))
  | left (hguard : e.guard n = false) : Began e w duty n (.done false) (w.free n.id)
  | moved (kind : State) (m : Negotiation) (hguard : e.guard n = false)
      (hentered : n.Enters m kind) (hduty : Concludes e n w.now kind duty) :
      Began e w duty n (.done true) (w.commit kind m)
  | sending (f : Flight) (hguard : e.guard n = false) (hleased : f.leased = n)
      (hduty : duty = .send f.sending) : Began e w duty n (.sending f) w

theorem began_decided {duty : Duty} {n : Negotiation} (hguard : e.guard n = false)
    {target : State} (detail : Option String) (hduty : Concludes e n w.now target duty) :
    Began e w duty n (decided w n target detail).1 (decided w n target detail).2 := by
  unfold decided
  cases hmove : n.moveTo target w.now with
  | error err => exact .left hguard
  | ok m =>
    obtain ⟨hedge, rfl⟩ := Negotiation.moveTo_eq_ok hmove
    exact .moved target _ hguard ((Negotiation.enters_enter hedge w.now).explained detail) hduty

/-- The handling of a record that is not shielded. -/
theorem began {n : Negotiation} (hn : ¬ w.ledger.Shields n.id e.handle.holder w.now) (role : Role)
    (duty : Duty) :
    Began e w duty n (e.begin .direct role duty n w).1 (e.begin .direct role duty n w).2 := by
  rw [begin_of_not_shields hn]
  cases hguard : e.guard n with
  | true => exact .parked hguard
  | false =>
    rw [if_neg Bool.false_ne_true]
    unfold undertaken
    cases duty with
    | decide source target => exact began_decided hguard none (.decided source)
    | send message =>
      simp only
      cases hpayload : e.payloadFor message n w.now with
      | error reason =>
        exact began_decided hguard (some reason) (.offerless message reason rfl hpayload)
      | ok payload =>
        simp only
        cases e.retry.shouldDelay n w.now with
        | true => exact .left hguard
        | false => exact .sending _ hguard rfl rfl

/-! ## §5. From the reply on. -/

/-- What a reply makes of a record enters a state. -/
theorem Turn.enters {f : Flight} {n m : Negotiation} {now : Instant} {reply : Reply}
    {kind : State} (h : Turn e f n now reply kind m) : n.Enters m kind := by
  cases h with
  | ended failure detail hedge hlast =>
    exact (Negotiation.enters_enter hedge now).explained (some detail)
  | again failure hedge hkind hmore => exact Negotiation.enters_enter hedge now
  | onward response hedge hset =>
    have hbook : (gained f n response).role = n.role
        ∧ (gained f n response).state = n.state
        ∧ (gained f n response).stateCount = n.stateCount := by
      unfold gained
      split
      · unfold correlate
        split <;> exact ⟨rfl, rfl, rfl⟩
      · exact ⟨rfl, rfl, rfl⟩
      · exact ⟨rfl, rfl, rfl⟩
    obtain ⟨hrole, hstate, hcount⟩ := hbook
    exact Negotiation.enters_of_enter hedge (id_gained f n response) hrole hstate hcount now

/-- Whether the handling of a record counts once the reply is there, and the world after that. -/
inductive Landed (e : Engine) (w : World) (f : Flight) (reply : Reply) : Bool → World → Prop
  | gone (counts : Bool) (hn : w.ledger.find? f.leased.id = none) : Landed e w f reply counts w
  | left (n : Negotiation) (hn : w.ledger.find? f.leased.id = some n) :
      Landed e w f reply false (w.free f.leased.id)
  | moved (kind : State) (n m : Negotiation) (hn : w.ledger.find? f.leased.id = some n)
      (hturn : Turn e f n w.now reply kind m) : Landed e w f reply true (w.commit kind m)

/-- The handling of a record that is not shielded, from the reply on. -/
theorem landed_of_not_shields {f : Flight}
    (hfree : ¬ w.ledger.Shields f.leased.id e.handle.holder w.now) (role : Role) (reply : Reply) :
    Landed e w f reply (e.land .direct role f reply w).1 (e.land .direct role f reply w).2 := by
  rw [land_of_not_shields hfree, landed]
  cases hn : w.ledger.find? f.leased.id with
  | none => exact .gone _ hn
  | some n =>
    simp only
    cases hup : e.upshot f n w.now reply with
    | none => exact .left n hn
    | some p =>
      obtain ⟨kind, m⟩ := p
      exact .moved kind n m hn (turn_of_upshot hup)

end Engine

end Parley
