/-
  Parley.Proofs.Engine.Redelivery
  ────────────────────────────────
  **A MESSAGE THAT COMES TWICE.**

  A sender that did not get the answer sends its message again, and whoever
  accepted it the first time gets it once more.  The second delivery is rejected,
  or is answered from the record that the first one made, or has the record
  enter its state again; in each of these the record says what it said
  (`Negotiation.Repeats`), but for two things:

      an offer      is added to the record's offers a second time
      a request     makes a second record if a consumer's record has its name

  (`redelivery_repeats`).
-/
import Parley.Proofs.Engine.Requests

namespace Parley

/-! ## §1. What is said again. -/

/-- A record says what it said before, and has some more offers. -/
structure Negotiation.Repeats (n n' : Negotiation) (more : List Offer) : Prop where
  state : n'.state = n.state
  offers : n'.offers = n.offers ++ more
  agreement : n'.agreement = n.agreement
  correlationId : n'.correlationId = n.correlationId
  errorDetail : n'.errorDetail = n.errorDetail

theorem Negotiation.Repeats.refl (n : Negotiation) : n.Repeats n [] where
  state := rfl
  offers := (List.append_nil n.offers).symm
  agreement := rfl
  correlationId := rfl
  errorDetail := rfl

namespace Message

variable {m : Message} {role : Role} {id : String} {n n' : Negotiation} {now now' : Instant}

/-- The offers that a message brings. -/
def brought (m : Message) : List Offer :=
  match m.payload with
  | .contractOffer offer => [offer]
  | _ => []

/-- The offers that the record of an id is given once more when a message comes again. -/
def offersAgain (m : Message) (id : String) : List Offer :=
  if m.processIdFor .consumer = some id then m.brought else []

theorem brought_cases (m : Message) :
    m.brought = [] ∨ ∃ offer, m.payload = .contractOffer offer ∧ m.brought = [offer] := by
  unfold brought
  split
  · rename_i offer hm
    exact .inr ⟨offer, hm, rfl⟩
  · exact .inl rfl

theorem offersAgain_of_brought (hm : m.brought = []) (id : String) : m.offersAgain id = [] := by
  unfold offersAgain
  rw [hm, ite_self]

/-- Only the record that a message is about is given offers again. -/
theorem offersAgain_eq {l : Ledger} (haddr : m.addressee? l = some role)
    (hpid : m.processIdFor role = some id) (other : String) :
    m.offersAgain other = if id = other then m.brought else [] := by
  rcases m.brought_cases with hnone | ⟨offer, hm, _⟩
  · rw [offersAgain_of_brought hnone, hnone, ite_self]
  · -- An offer is for a consumer.
    have hrole : role = .consumer := by
      unfold addressee? at haddr
      rw [hm] at haddr
      exact (Option.some.inj haddr).symm
    subst hrole
    unfold offersAgain
    rw [hpid]
    simp only [Option.some.injEq]

/-- An offer that was accepted is accepted again. -/
theorem acceptedBy_again {offer : Offer} (hm : m.payload = .contractOffer offer)
    (hok : m.acceptedBy role n now = .ok n') (now' : Instant) :
    m.acceptedBy role (n'.withLease none) now' = .ok (m.outcome (n'.withLease none) now') := by
  obtain ⟨hrole, _, _, rfl⟩ := acceptedBy_eq_ok_iff.mp hok
  have hoffered : m.payload.target = .offered := by rw [hm]; rfl
  have hagreement : m.payload.isAgreement = false := by rw [hm]; rfl
  have hrole' : (m.outcome n now).role = n.role := by
    unfold outcome enrich
    rw [hm]
    rfl
  have hedge : ((m.outcome n now).withLease none).checkEdge m.payload.target = .ok () := by
    rw [Negotiation.checkEdge_eq_ok_iff]
    exact ⟨.offered, by rw [← hoffered]; rfl, by rw [hoffered]; rfl⟩
  refine acceptedBy_eq_ok_iff.mpr ⟨hrole'.trans hrole, hedge, fun h => ?_, rfl⟩
  rw [hagreement] at h
  cases h

/-- What a message makes of what it made of a record. -/
theorem repeats_outcome
    (hok : m.acceptedBy role ((m.outcome n now).withLease none) now' = .ok n') :
    ((m.outcome n now).withLease none).Repeats (n'.withLease none) m.brought := by
  obtain ⟨_, hedge, hset, rfl⟩ := acceptedBy_eq_ok_iff.mp hok
  cases hm : m.payload with
  | contractOffer offer =>
    have hagain {k : Negotiation} (now : Instant) : m.outcome k now
        = ({ k.withPending false with
              offers := k.offers ++ [offer]
              correlationId := k.correlationId.or m.providerPid } : Negotiation).enter
            State.offered.code now := by
      unfold outcome enrich
      rw [hm]
      rfl
    refine ⟨rfl, ?_, ?_, ?_, ?_⟩
    all_goals rw [hagain, hagain]
    · unfold brought
      rw [hm]
      rfl
    · rfl
    -- The name that was given the first time stays.
    · show (n.correlationId.or m.providerPid).or m.providerPid = n.correlationId.or m.providerPid
      cases n.correlationId with
      | none => cases m.providerPid <;> rfl
      | some name => rfl
    · rfl
  | contractAgreement agreement =>
    -- The agreement is there already.
    have hnone := hset (by rw [hm]; rfl)
    have hsome := m.isSome_agreement_outcome n now (by rw [hm]; rfl)
    have hlease : (m.outcome n now).agreement = none := hnone
    rw [hlease] at hsome
    cases hsome
  | termination reason policy =>
    -- What is terminated stays so.
    obtain ⟨source, hsource, hmoves⟩ := Negotiation.checkEdge_eq_ok_iff.mp hedge
    have hstate : State.terminated.code = source.code := by
      rw [← hsource]
      show _ = m.payload.target.code
      rw [hm]
      rfl
    rw [← State.code_injective hstate] at hmoves
    cases hmoves
  | contractRequest offer callbackAddress consumerId | negotiationEvent event
  | agreementVerification =>
    have hagain {k : Negotiation} (now : Instant) : m.outcome k now
        = (k.withPending false).enter m.payload.target.code now := by
      unfold outcome enrich
      rw [hm]
    have hbrought : m.brought = [] := by
      unfold brought
      rw [hm]
    rw [hagain, hagain, hbrought]
    exact ⟨rfl, (List.append_nil _).symm, rfl, rfl, rfl⟩

/-- Whom a message is for depends on the roles of the records only. -/
theorem addressee?_congr {l l' : Ledger}
    (hroles : ∀ id, (l'.content id).map (·.role) = (l.content id).map (·.role)) :
    m.addressee? l' = m.addressee? l := by
  have hfor (role : Role) : m.isFor l' role = m.isFor l role := by
    unfold isFor
    cases m.processIdFor role with
    | none => rfl
    | some id =>
      have hrole := hroles id
      unfold Ledger.content at hrole
      simp only
      cases hl : l.find? id with
      | none =>
        cases hl' : l'.find? id with
        | none => rfl
        | some stored' =>
          rw [hl, hl'] at hrole
          cases hrole
      | some stored =>
        cases hl' : l'.find? id with
        | none =>
          rw [hl, hl'] at hrole
          cases hrole
        | some stored' =>
          rw [hl, hl'] at hrole
          have hsame : stored'.role = stored.role := Option.some.inj hrole
          simp only [hsame]
  unfold addressee?
  rw [hfor, hfor]

end Message

/-! ## §2. Two worlds. -/

namespace World

variable {w w' : World} {m : Message}

/-- What the second delivery of a message leaves of a world: what is stored repeats itself, and a
record is added for a request only whose name a consumer's record has. -/
structure Repeats (w w' : World) (m : Message) : Prop where
  stored : ∀ id n, w.ledger.content id = some n →
    ∃ n', w'.ledger.content id = some n' ∧ n.Repeats n' (m.offersAgain id)
  added : ∀ id, w.ledger.content id = none → w'.ledger.content id ≠ none →
    m.payload.target = .requested ∧ w.ledger.HasNamed .consumer m.consumerPid

theorem repeats_of_content (hcontent : ∀ id, w'.ledger.content id = w.ledger.content id)
    (hm : m.brought = []) : w.Repeats w' m where
  stored id n hn := by
    refine ⟨n, (hcontent id).trans hn, ?_⟩
    rw [Message.offersAgain_of_brought hm]
    exact .refl n
  added id hnone hsome := (hsome ((hcontent id).trans hnone)).elim

/-- The record that a message is about repeats itself, and the others stay. -/
theorem repeats_of_puts {role : Role} {n n' : Negotiation}
    (haddr : m.addressee? w.ledger = some role) (hpid : m.processIdFor role = some n.id)
    (hn : w.ledger.content n.id = some n) (hputs : w.Puts w' n')
    (hrepeats : n.Repeats (n'.withLease none) m.brought) (hid : n'.id = n.id) :
    w.Repeats w' m where
  stored id k hk := by
    rw [Message.offersAgain_eq haddr hpid id]
    by_cases hname : n.id = id
    · subst hname
      cases hn.symm.trans hk
      rw [if_pos rfl]
      have hself := hputs.content_self
      rw [hid] at hself
      exact ⟨_, hself, hrepeats⟩
    · rw [if_neg hname]
      exact ⟨k, (hputs.content_of_ne (by rw [hid]; exact hname)).trans hk, .refl k⟩
  added id hnone hsome := by
    have hname : n'.id ≠ id := by
      rw [hid]
      rintro rfl
      cases hn.symm.trans hnone
    exact (hsome ((hputs.content_of_ne hname).trans hnone)).elim

/-- In which order the records were listed in between does not matter. -/
theorem Repeats.of_rearranged {l : Ledger} (hl : w.ledger.Rearranges l)
    (h : (w.withLedger l).Repeats w' m) : w.Repeats w' m where
  stored id n hn := h.stored id n ((hl.content id).trans hn)
  added id hnone hsome := by
    obtain ⟨htarget, hshared⟩ := h.added id ((hl.content id).trans hnone) hsome
    exact ⟨htarget, hshared.rearranged hl.symm⟩

theorem Puts.rearranged {n : Negotiation} (h : w.Puts w' n) {l : Ledger}
    (hl : w'.ledger.Rearranges l) : w.Puts (w'.withLedger l) n where
  content id := (hl.content id).trans (h.content id)
  leases id := by
    rintro ⟨k, hk, hleased⟩
    exact h.leases id ⟨k, (hl.find? id).symm.trans hk, hleased⟩
  supply := h.supply
  now := h.now

end World

/-! ## §3. The second delivery. -/

namespace Engine

variable {e : Engine} {w w' w'' : World} {m : Message} {r : Handled}

/-- A message about a record that was accepted comes again. -/
theorem repeats_of_accepted {role : Role} {n : Negotiation}
    (haddr : m.addressee? w.ledger = some role) (hpid : m.processIdFor role = some n.id)
    (hn : w.ledger.content n.id = some n)
    (hok : m.acceptedBy role n w.now = .ok (m.outcome n w.now))
    (hputs : w.Puts w' (m.outcome n w.now)) (h : Receipt e w' m r w'') : w'.Repeats w'' m := by
  have hid := m.id_outcome n w.now
  have hself : w'.ledger.content n.id = some ((m.outcome n w.now).withLease none) := by
    rw [← hid]
    exact hputs.content_self
  -- Nobody's role has changed.
  have haddr' : m.addressee? w'.ledger = some role := by
    rw [← haddr]
    refine Message.addressee?_congr fun id => ?_
    by_cases hname : n.id = id
    · rw [← hname, hself, hn]
      exact congrArg some (Call.keeps_of_accepted haddr hok).role
    · rw [hputs.content_of_ne (by rw [hid]; exact hname)]
  have hplain {offer : Offer} {callbackAddress consumerId : String}
      (hm : m.payload = .contractRequest offer callbackAddress consumerId) : False := by
    rw [Message.addressee?_of_request hm] at haddr
    cases haddr
  cases h with
  | known offer callbackAddress consumerId k hm hk hr hsame => exact (hplain hm).elim
  | opened offer callbackAddress consumerId hm hk hr hbears => exact (hplain hm).elim
  | refused err hr hm hno hsame =>
    refine World.repeats_of_content hsame.content ?_
    rcases m.brought_cases with hnone | ⟨offer, hoffer, _⟩
    · exact hnone
    · obtain ⟨err', herr⟩ := hno role ((m.outcome n w.now).withLease none) haddr'
        (hpid.trans (congrArg some hid.symm)) hputs.content_self
      rw [Message.acceptedBy_again hoffer hok] at herr
      cases herr
  | accepted role' k found haddr'' hpid' hk hok' hr hfound hputs' =>
    cases haddr'.symm.trans haddr''
    have hids : k.id = n.id := Option.some.inj (hpid'.symm.trans hpid)
    rw [hids] at hk
    cases hself.symm.trans hk
    exact World.repeats_of_puts haddr' hpid' hputs.content_self hputs'
      (Message.repeats_outcome hok') (m.id_outcome _ _)

/-- A contract request comes again. -/
theorem repeats_of_requested {holder : String} (hw : w.IsOrderly holder) {offer : Offer}
    {callbackAddress consumerId : String}
    (hm : m.payload = .contractRequest offer callbackAddress consumerId)
    (hp : w.ledger.HasNamed .provider m.consumerPid) (h : Receipt e w m r w') :
    w.Repeats w' m := by
  have hbrought : m.brought = [] := by
    unfold Message.brought
    rw [hm]
  have htarget : m.payload.target = .requested := by
    rw [hm]
    rfl
  cases h with
  | refused err hr hne hno hsame => exact (hne htarget).elim
  | accepted role n found haddr hpid hn hok hr hid hputs =>
    rw [Message.addressee?_of_request hm] at haddr
    cases haddr
  | known offer callbackAddress consumerId n hm hn hr hsame =>
    exact World.repeats_of_content (fun id => by rw [hsame]) hbrought
  | opened offer callbackAddress consumerId hm hunknown hr hbears =>
    constructor
    · intro id n hn
      rw [Message.offersAgain_of_brought hbrought]
      rcases Call.content_of_bears hbears id with ⟨rfl, _⟩ | hkept
      -- The id of the new record was free.
      · rw [hw.content_nextId] at hn
        cases hn
      · exact ⟨n, hkept.trans hn, .refl n⟩
    · intro id hnone hsome
      exact ⟨htarget, Ledger.hasNamed_of_unknown hp hunknown⟩

/-- After a contract request there is a provider's record with its name. -/
theorem hasNamed_of_requested {found : Negotiation} {offer : Offer}
    {callbackAddress consumerId : String}
    (hm : m.payload = .contractRequest offer callbackAddress consumerId)
    (h : Receipt e w m (.ok found) w') : w'.ledger.HasNamed .provider m.consumerPid := by
  cases h with
  | refused err hr hne hno hsame => cases hr
  | accepted role n found haddr hpid hn hok hr hid hputs =>
    rw [Message.addressee?_of_request hm] at haddr
    cases haddr
  | known offer callbackAddress consumerId n hm hknown hr hsame =>
    have hlookup := w.ledger.lookup m.consumerPid
    rw [hknown] at hlookup
    subst hsame
    cases hlookup with
    | provider _ hfound => exact ⟨n.id, _, hfound⟩
  | opened offer callbackAddress consumerId hm hunknown hr hbears =>
    refine ⟨w.nextId, (m.opened offer callbackAddress consumerId w.nextId w.now).withLease none,
      ?_, rfl, rfl⟩
    rw [hbears.content, if_pos hbears.id]

end Engine

namespace Office

/-- A message that was accepted comes again, before anything else happens.  No record says anything
else than after the first delivery, and none is added, but for an offer, which the consumer's record
gets a second time, and for a request whose name a consumer's record has too. -/
theorem redelivery_repeats (e : Engine) (now : Instant) (o : Office) (ho : o.IsReached e now)
    (inlet : Inlet) (m : Message) (found : Negotiation) (w : World)
    (haccepted : e.notify .direct inlet m o.world = (.ok found, w)) (l : Ledger)
    (hl : w.ledger.Rearranges l) :
    w.Repeats (e.notify .direct inlet m (w.withLedger l)).2 m := by
  have horderly : o.world.IsOrderly e.handle.holder :=
    (ho.isSingular.coherent.steady .consumer).coherent.orderly
  have hworld : (Call.notify inlet m).run e o.world = w := congrArg Prod.snd haccepted
  -- The operation takes the message.
  have htakes : inlet.takes m.payload = true := by
    by_contra htakes
    rw [e.notify_eq, if_neg htakes] at haccepted
    cases haccepted
  have hnotify (w : World) : e.notify .direct inlet m w = e.receive .direct m w := by
    rw [e.notify_eq, if_pos htakes]
  have hfirst := (e.receive_effect horderly.held m).1
  rw [← hnotify, haccepted] at hfirst
  -- The store is in order after the first delivery, and so it is in another order.
  obtain ⟨heffect, hheld⟩ := Call.effect_run horderly.held (.notify inlet m)
  have hafter := (horderly.effect hheld heffect).1
  rw [hworld] at hafter
  have hlisted : (w.withLedger l).IsOrderly e.handle.holder :=
    hafter.quiet (hl.heldBy hafter.held) hl.content rfl
  have hsecond := (e.receive_effect hlisted.held m).1
  rw [← hnotify] at hsecond
  refine .of_rearranged hl ?_
  have hrequested {offer : Offer} {callbackAddress consumerId : String}
      (hm : m.payload = .contractRequest offer callbackAddress consumerId) :
      (w.withLedger l).Repeats (e.notify .direct inlet m (w.withLedger l)).2 m :=
    Engine.repeats_of_requested hlisted hm
      ((Engine.hasNamed_of_requested hm hfirst).rearranged hl) hsecond
  cases hfirst with
  | refused err hr hne hno hsame => cases hr
  | accepted role n found haddr hpid hn hok hr hid hputs =>
    exact Engine.repeats_of_accepted haddr hpid hn hok (hputs.rearranged hl) hsecond
  | known offer callbackAddress consumerId n hm hknown hr hsame => exact hrequested hm
  | opened offer callbackAddress consumerId hm hunknown hr hbears => exact hrequested hm

/-- The provider's offer in return. -/
def counterOffer : Message where
  protocol := "dsp"
  counterPartyAddress := "http://consumer"
  consumerPid := "gen-0001"
  providerPid := some "theirs"
  payload := .contractOffer ⟨"counter-offer", "asset", "provider", {}⟩

/-- The provider's offer comes twice, and the consumer's record has it twice. -/
theorem counterOffer_twice :
    ((blank default).run Session.unhindered untilRequested).IsReached Session.unhindered default
      ∧ ∃ found w n n', Session.unhindered.notify .direct .offered counterOffer
            ((blank default).run Session.unhindered untilRequested).world = (.ok found, w)
          ∧ w.ledger.Rearranges w.ledger
          ∧ w.ledger.content "gen-0001" = some n
          ∧ (Session.unhindered.notify .direct .offered counterOffer
              (w.withLedger w.ledger)).2.ledger.content "gen-0001" = some n'
          ∧ n.Repeats n' [⟨"counter-offer", "asset", "provider", {}⟩] := by
  have hreached := isReached_run Session.unhindered default .counted untilRequested
  have hok : (Session.unhindered.notify .direct .offered counterOffer
      ((blank default).run Session.unhindered untilRequested).world).1.isOk = true := by
    decide +kernel
  have hstored : ((Session.unhindered.notify .direct .offered counterOffer
      ((blank default).run Session.unhindered untilRequested).world).2.ledger.content
        "gen-0001").isSome = true := by
    decide +kernel
  cases hnotify : Session.unhindered.notify .direct .offered counterOffer
      ((blank default).run Session.unhindered untilRequested).world with
  | mk r w =>
    rw [hnotify] at hok hstored
    cases r with
    | error err => cases hok
    | ok found =>
      obtain ⟨n, hn⟩ := Option.isSome_iff_exists.mp hstored
      have hrepeats := redelivery_repeats Session.unhindered default _ hreached .offered
        counterOffer found w hnotify w.ledger (List.Perm.refl _)
      obtain ⟨n', hn', hagain⟩ := hrepeats.stored "gen-0001" n hn
      exact ⟨hreached, found, w, n, n', rfl, List.Perm.refl _, hn, hn', hagain⟩

end Office

end Parley
