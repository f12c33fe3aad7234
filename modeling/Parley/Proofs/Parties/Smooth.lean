/-
  Parley.Proofs.Parties.Smooth
  ────────────────────────────────
  **A MEETING IN WHICH NOTHING GOES WRONG.**

  While every message is delivered and every reply comes back, each wish to
  negotiate is in a stage, and there are no records but those of wishes
  (`IsSmooth`).  A due record belongs to a wish, and handling it moves that wish
  to the next stage and touches no other (`IsSmooth.advances`).
-/
import Parley.Proofs.Parties.Order
import Mathlib.Data.List.Nodup

namespace Parley

namespace Meeting

variable {parties : Party → Engine} {turn : Nat → Nat} {m m' : Meeting} {q : Party}
  {n k : Negotiation} {offer : Offer} {id : String}

/-! ## §1. Wishes that move on. -/

/-- A record of a party belongs to the wish of an id. -/
def Concerns (q : Party) (n : Negotiation) (id : String) : Prop :=
  match q with
  | .first => n.id = id
  | .second => n.correlationId = some id

theorem concerns_withLease {lease : Option Lease} :
    Concerns q (n.withLease lease) id ↔ Concerns q n id := by
  cases q <;> rfl

/-- A party's record was handled: the wish that it belongs to entered a stage, and nothing else
happened. -/
structure Advances (m m' : Meeting) (parties : Party → Engine) (q : Party) (n : Negotiation)
    (id : String) (offer : Offer) (s : State) : Prop where
  stage : m'.IsAt parties id offer s
  others : ∀ other offer' t, other ≠ id → m.IsAt parties other offer' t →
    m'.IsAt parties other offer' t
  known : ∀ other c, (m'.ledger .first).content other = some c →
    other = id ∨ ∃ c, (m.ledger .first).content other = some c
  leases : ∀ id, (m'.ledger q).IsLeased id → (m.ledger q).IsLeased id ∧ n.id ≠ id
  peerLeases : ∀ id, (m'.ledger q.other).IsLeased id → (m.ledger q.other).IsLeased id
  replies : ∀ reply ∈ m'.replies, reply ∈ m.replies ∨ ∃ response, reply = .answered response
  wishes : m'.wishes = m.wishes

/-- If the records that are written belong to one wish, before and after, the others stay in their
stages. -/
theorem Change.advances {n' : Negotiation} {k' : Option Negotiation} {s : State}
    (h : m.Change m' q n' k') (hid : n'.id = n.id)
    (hn : (m.ledger q).content n.id = some (n.withLease none)) (hbefore : Concerns q n id)
    (hafter : Concerns q n' id) (hpeer : ∀ k, k' = some k → Concerns q.other k id)
    (hpeerBefore : ∀ k old, k' = some k → (m.ledger q.other).content k.id = some old →
      Concerns q.other old id) (hstage : m'.IsAt parties id offer s) :
    m.Advances m' parties q n id offer s where
  stage := hstage
  known other c hc := by
    cases q with
    | first =>
      rw [h.own] at hc
      split at hc
      · rename_i hother
        exact .inl (hother.symm.trans hafter)
      · exact .inr ⟨c, hc⟩
    | second =>
      by_cases hwritten : ∃ k, k' = some k ∧ k.id = other
      · obtain ⟨k, hk, rfl⟩ := hwritten
        exact .inl (hpeer k hk)
      · have hsame : (m'.ledger .first).content other = (m.ledger .first).content other :=
          h.rest other fun k hk hkid => hwritten ⟨k, hk, hkid⟩
        exact .inr ⟨c, hsame.symm.trans hc⟩
  leases other hl := hid ▸ h.leases other hl
  peerLeases := h.peerLeases
  replies := h.replies
  wishes := h.wishes
  -- The records of another wish are not the ones that were written.
  others other offer' t hne hat := by
    cases q with
    | first =>
      have hrest (pid : String) (p : Negotiation) (hp : (m.ledger .second).content pid = some p)
          (hname : p.correlationId = some other) : ∀ k, k' = some k → k.id ≠ pid := by
        rintro k hk rfl
        have hsame : p.correlationId = some id := hpeerBefore k p hk hp
        rw [hname, Option.some.injEq] at hsame
        exact hne hsame
      refine hat.congr ?_ (fun pid p hp hname => ?_) (fun pid hpid => ?_)
      · have hother : n'.id ≠ other := by
          intro hsame
          exact hne (hsame.symm.trans hafter)
        rw [h.own, if_neg hother]
      · exact (h.rest pid (hrest pid p hp hname)).trans hp
      · obtain ⟨p, hp, hname⟩ := Ledger.content_of_nameFor hpid
        by_cases hwritten : ∃ k, k' = some k ∧ k.id = pid
        · obtain ⟨k, hk, rfl⟩ := hwritten
          have hcontent : (m'.ledger .second).content k.id = some k := h.peer k hk
          cases hp.symm.trans hcontent
          have hsame : p.correlationId = some id := hpeer p hk
          rw [hname, Option.some.injEq] at hsame
          exact absurd hsame hne
        · have hsame : (m'.ledger .second).content pid = (m.ledger .second).content pid :=
            h.rest pid fun k hk hkid => hwritten ⟨k, hk, hkid⟩
          exact (Ledger.nameFor_of_content (hsame.symm.trans hp)).trans hname
    | second =>
      refine hat.congr ?_ (fun pid p hp hname => ?_) (fun pid hpid => ?_)
      · have hother : ∀ k, k' = some k → k.id ≠ other := by
          intro k hk hsame
          exact hne (hsame.symm.trans (hpeer k hk))
        exact h.rest other hother
      · have hother : n'.id ≠ pid := by
          rintro rfl
          rw [hid, hn] at hp
          cases hp
          have hsame : some other = some id := hname.symm.trans hbefore
          exact hne (Option.some.inj hsame)
        rw [h.own, if_neg hother, hp]
      · obtain ⟨p, hp, hname⟩ := Ledger.content_of_nameFor hpid
        rw [h.own] at hp
        split at hp
        · cases hp
          have hsame : some other = some id := hname.symm.trans hafter
          exact absurd (Option.some.inj hsame) hne
        · exact (Ledger.nameFor_of_content hp).trans hname

variable {duty : Duty} {source target : State} {message : Sending}

/-- No two of the provider's records belong to the same wish. -/
theorem Corresponds.provider_eq (h : m.Corresponds parties) {p : Negotiation}
    (hk : (m.ledger .second).content k.id = some k) (hname : k.correlationId = some id)
    (hp : (m.ledger .second).content p.id = some p) (hpname : p.correlationId = some id) :
    p = k := by
  have hsame := h.single p.id k.id id ((Ledger.nameFor_of_content hp).trans hpname)
    ((Ledger.nameFor_of_content hk).trans hname)
  rw [hsame, hk] at hp
  exact (Option.some.inj hp).symm

/-- The consumer takes a decision. -/
theorem Corresponds.consumer_decides (hwilling : Party.AreWilling parties)
    (hduty : Duty.decide source target ∈ Role.consumer.duties)
    (hdue : m.IsDue .first .consumer (.decide source target) n)
    (hexchange : Exchange parties (loopback turn) .first (.decide source target) n m m')
    (hat : m.IsAt parties n.id offer source) :
    m.Advances m' parties .first n n.id offer target := by
  obtain ⟨hsides, hne, hagreement⟩ := sides_of_decide hduty
  have hn := hdue.stored
  have hstate : n.state = source.code := hdue.state
  have hedge : n.checkEdge target = .ok () :=
    Negotiation.checkEdge_eq_ok_iff.mpr ⟨source, hstate, duty_canMoveTo _ _ hduty⟩
  have hchange := hexchange.decides (hwilling.guard .first n) hedge
  have hself : (m'.ledger .first).content n.id
      = some ((n.enter target.code m.now).withLease none) := (hchange.own n.id).trans (if_pos rfl)
  have hsame (pid : String) : (m'.ledger .second).content pid = (m.ledger .second).content pid :=
    hchange.rest pid fun k hk => by cases hk
  refine hchange.advances rfl hn rfl rfl (fun k hk => by cases hk) (fun k old hk => by cases hk) ?_
  -- The provider's record, if there is one, stays as it is.
  cases hat with
  | alone t c hs hc hcon hnew =>
    cases hn.symm.trans hc
    have ht : source = t := State.code_injective (hstate.symm.trans hcon.state)
    subst ht
    rw [hs] at hsides
    refine .alone target target _ hsides hself ((hcon.of_withLease.enter hne _).withLease none)
      fun pid hpid => hnew pid ?_
    rw [Ledger.nameFor, hsame] at hpid
    exact hpid
  | joint t u c p a hs hc hcon hp hpro hparty hset hterms =>
    cases hn.symm.trans hc
    have ht : source = t := State.code_injective (hstate.symm.trans hcon.state)
    subst ht
    rw [hs] at hsides
    exact .joint target target u _ p a hsides hself
      ((hcon.of_withLease.enter hne _).withLease none) ((hsame p.id).trans hp) hpro hparty
      (hset.trans hagreement.symm) hterms

/-- The provider takes a decision. -/
theorem Corresponds.provider_decides (h : m.Corresponds parties)
    (hwilling : Party.AreWilling parties)
    (hduty : Duty.decide source target ∈ Role.provider.duties)
    (hdue : m.IsDue .second .provider (.decide source target) n)
    (hexchange : Exchange parties (loopback turn) .second (.decide source target) n m m')
    (hname : n.correlationId = some id) (hat : m.IsAt parties id offer source) :
    m.Advances m' parties .second n id offer target := by
  obtain ⟨hsides, hne, hagreement⟩ := sides_of_decide hduty
  have hn := hdue.stored
  have hstate : n.state = source.code := hdue.state
  have hedge : n.checkEdge target = .ok () :=
    Negotiation.checkEdge_eq_ok_iff.mpr ⟨source, hstate, duty_canMoveTo _ _ hduty⟩
  have hchange := hexchange.decides (hwilling.guard .second n) hedge
  have hself : (m'.ledger .second).content n.id
      = some ((n.enter target.code m.now).withLease none) := (hchange.own n.id).trans (if_pos rfl)
  have hsame : (m'.ledger .first).content id = (m.ledger .first).content id :=
    hchange.rest id fun k hk => by cases hk
  refine hchange.advances rfl hn hname hname (fun k hk => by cases hk)
    (fun k old hk => by cases hk) ?_
  -- The consumer's record stays as it is.
  cases hat with
  | alone t c hs hc hcon hnew =>
    exact absurd ((Ledger.nameFor_of_content hn).trans hname) (hnew n.id)
  | joint t u c p a hs hc hcon hp hpro hparty hset hterms =>
    cases h.provider_eq (k := n.withLease none) hn hname hp hpro.correlationId
    have hu : source = u := State.code_injective (hstate.symm.trans hpro.state)
    subst hu
    rw [hs] at hsides
    exact .joint target t target c ((n.enter target.code m.now).withLease none) a hsides
      (hsame.trans hc) hcon hself ((hpro.of_withLease.enter hne _).withLease none) hparty
      (hset.trans hagreement.symm) hterms

/-- The consumer's request makes the provider open a record. -/
theorem Corresponds.consumer_requests (h : m.Corresponds parties)
    (hwilling : Party.AreWilling parties)
    (hdue : m.IsDue .first .consumer (.send .request) n)
    (hexchange : Exchange parties (loopback turn) .first (.send .request) n m m')
    (hat : m.IsAt parties n.id offer .requesting) :
    m.Advances m' parties .first n n.id offer .requested := by
  have hn := hdue.stored
  cases hat with
  | joint t u c p a hs hc hcon hp hpro hparty hset hterms => cases hs
  | alone t c hs hc hcon hnew =>
    cases hs
    cases hn.symm.trans hc
    have htrack := hcon.of_withLease
    have hconsumer : n.role = .consumer := (h.stored hn).2
    have hedge : n.checkEdge .requested = .ok () :=
      Negotiation.checkEdge_eq_ok_iff.mpr ⟨.requesting, hdue.state, by decide⟩
    obtain ⟨offer', hoffer, hchange⟩ := h.requests_in_order hn hexchange (hwilling.guard .first n)
      htrack.stateCount hedge hnew
    have hsame : offer' = offer := by
      rw [htrack.lastOffer? (h.stored hn).1.offered] at hoffer
      exact (Option.some.inj hoffer).symm
    subst hsame
    have hname : (Message.forNegotiation n (.contractRequest offer' (parties .first).callbackAddress
        (parties .first).participantId)).consumerPid = n.id := by
      simp [Message.forNegotiation, hconsumer]
    refine hchange.advances rfl hn rfl rfl (fun k hk => ?_) (fun k old hk hold => ?_) ?_
    · cases hk
      exact congrArg some hname
    · -- The id is new.
      cases hk
      have hnone := (h.orderly .second).content_nextId
      cases hnone.symm.trans hold
    · refine .joint .requested .requested .requested _ _ none rfl
        ((hchange.own n.id).trans (if_pos rfl)) ?_ (hchange.peer _ rfl) ?_ rfl rfl
        (fun b hb => by cases hb)
      · have hnamed : ({ n.withLease none with
            correlationId := some (m.world .second).nextId } : Negotiation).IsOnTrack .requesting
            offer' (some (m.world .second).nextId) none :=
          ⟨htrack.state, htrack.stateCount, htrack.pending, htrack.offers, rfl, htrack.agreement⟩
        exact (hnamed.enter (by decide) m.now).withLease none
      · exact ⟨rfl, rfl, rfl, fun o ho => List.mem_singleton.mp ho, congrArg some hname, rfl⟩

/-- An agreement that is sent is on the terms that were asked for. -/
theorem isFor_agreementAfter {a : Option Agreement}
    (hterms : ∀ b, a = some b → b.IsFor parties offer)
    (hagreement : message = .agreement →
      q = .second ∧ n.counterPartyId = (parties .first).participantId) {b : Agreement}
    (hb : (parties q).agreementAfter message n offer m.now a = some b) :
    b.IsFor parties offer := by
  cases message with
  | agreement =>
    obtain ⟨rfl, hparty⟩ := hagreement rfl
    cases hb
    exact ⟨rfl, rfl, hparty, rfl⟩
  | _ => exact hterms b hb

theorem isSome_agreementAfter (e : Engine) (n : Negotiation) (offer : Offer) (now : Instant)
    (a : Option Agreement) : (e.agreementAfter message n offer now a).isSome
      = (a.isSome || decide (message = .agreement)) := by
  cases message <;> simp [Engine.agreementAfter]

/-- The consumer sends a message. -/
theorem Corresponds.consumer_sends (h : m.Corresponds parties)
    (hwilling : Party.AreWilling parties) (hduty : Duty.send message ∈ Role.consumer.duties)
    (hfirst : message ≠ .request) (hlast : message ≠ .termination)
    (hdue : m.IsDue .first .consumer (.send message) n)
    (hexchange : Exchange parties (loopback turn) .first (.send message) n m m')
    (hat : m.IsAt parties n.id offer message.source) :
    m.Advances m' parties .first n n.id offer message.target := by
  obtain ⟨t, u, hs, htarget, htmoves, ht, humoves, hu, hagreement⟩ := sides_of_send hfirst hlast
  have hn := hdue.stored
  cases hat with
  | alone t' c hs' hc hcon hnew => cases hs.symm.trans hs'
  | joint t' u' c p a hs' hc hcon hp hpro hparty hset hterms =>
    cases hs.symm.trans hs'
    cases hn.symm.trans hc
    obtain ⟨n', k', hchange, hnid, hkid, _, hkparty, hn', hk'⟩ := h.moves_both hwilling hduty hfirst
      hlast hdue hexchange hset hcon.of_withLease hp hpro ⟨htmoves, ht⟩ ⟨humoves, hu⟩
    refine hchange.advances hnid hn rfl hnid (fun k hk => ?_) (fun k old hk hold => ?_) ?_
    · cases hk
      exact hk'.correlationId
    · cases hk
      rw [hkid] at hold
      cases hp.symm.trans hold
      exact hpro.correlationId
    -- The consumer sends no agreement.
    · have hno : message ≠ .agreement := by
        rintro rfl
        exact absurd hduty (by decide)
      rw [← hkid] at hn'
      exact .joint _ _ _ n' k' _ htarget ((hchange.own n.id).trans (if_pos hnid)) hn'
        (hchange.peer k' rfl) hk' (hkparty.trans hparty)
        (by rw [isSome_agreementAfter, hset, hagreement])
        (fun b hb => isFor_agreementAfter hterms (fun hm => absurd hm hno) hb)

/-- The provider sends a message. -/
theorem Corresponds.provider_sends (h : m.Corresponds parties)
    (hwilling : Party.AreWilling parties) (hduty : Duty.send message ∈ Role.provider.duties)
    (hfirst : message ≠ .request) (hlast : message ≠ .termination)
    (hdue : m.IsDue .second .provider (.send message) n)
    (hexchange : Exchange parties (loopback turn) .second (.send message) n m m')
    (hname : n.correlationId = some id) (hat : m.IsAt parties id offer message.source) :
    m.Advances m' parties .second n id offer message.target := by
  obtain ⟨t, u, hs, htarget, htmoves, ht, humoves, hu, hagreement⟩ := sides_of_send hfirst hlast
  have hn := hdue.stored
  cases hat with
  | alone t' c hs' hc hcon hnew => cases hs.symm.trans hs'
  | joint t' u' c p a hs' hc hcon hp hpro hparty hset hterms =>
    cases hs.symm.trans hs'
    -- The handled record is the one that belongs to the wish.
    cases h.provider_eq (k := n.withLease none) hn hname hp hpro.correlationId
    have hcid : c.id = id := Ledger.id_of_content hc
    subst hcid
    obtain ⟨n', k', hchange, hnid, hkid, hnparty, _, hn', hk'⟩ := h.moves_both hwilling hduty hfirst
      hlast hdue hexchange hset hpro.of_withLease hc hcon ⟨humoves, hu⟩ ⟨htmoves, ht⟩
    refine hchange.advances hnid hn hname hn'.correlationId (fun k hk => ?_)
      (fun k old hk hold => ?_) ?_
    · cases hk
      exact hkid
    · cases hk
      exact (Ledger.id_of_content hold).trans hkid
    · have hcontent : (m'.ledger .first).content k'.id = some k' := hchange.peer k' rfl
      rw [hkid] at hcontent
      rw [← hnid] at hk'
      exact .joint _ _ _ k' n' _ htarget hcontent hk'
        ((hchange.own n'.id).trans (if_pos rfl)) hn' (hnparty.trans hparty)
        (by rw [isSome_agreementAfter, hset, hagreement])
        (fun b hb => isFor_agreementAfter hterms (fun _ => ⟨rfl, hparty⟩) hb)

/-! ## §2. Smooth meetings. -/

/-- A record of a wish is in the state that its stage tells. -/
theorem Corresponds.side_eq (h : m.Corresponds parties)
    (hk : (m.ledger q).content k.id = some k) (hconcerns : Concerns q k id) {s : State}
    (hat : m.IsAt parties id offer s) :
    ∃ t : State, s.sides.bind q.role.side = some t ∧ k.state = t.code := by
  cases q with
  | first =>
    have hid : k.id = id := hconcerns
    subst hid
    cases hat with
    | alone t c hs hc hcon hnew =>
      cases hk.symm.trans hc
      exact ⟨t, by rw [hs]; rfl, hcon.state⟩
    | joint t u c p a hs hc hcon hp hpro hparty hset hterms =>
      cases hk.symm.trans hc
      exact ⟨t, by rw [hs]; rfl, hcon.state⟩
  | second =>
    cases hat with
    | alone t c hs hc hcon hnew =>
      exact absurd ((Ledger.nameFor_of_content hk).trans hconcerns) (hnew k.id)
    | joint t u c p a hs hc hcon hp hpro hparty hset hterms =>
      cases h.provider_eq hk hconcerns hp hpro.correlationId
      exact ⟨u, by rw [hs]; rfl, hpro.state⟩

/-- The stage of a wish is the one in which the duty of its record is due. -/
theorem Corresponds.stage_eq (h : m.Corresponds parties) (hduty : duty ∈ q.role.duties)
    (hdue : m.IsDue q q.role duty n) (hconcerns : Concerns q n id) {s : State}
    (hat : m.IsAt parties id offer s) : s = duty.state := by
  have hstored : (m.ledger q).content (n.withLease none).id = some (n.withLease none) := hdue.stored
  obtain ⟨t, hside, hstate⟩ := h.side_eq hstored (concerns_withLease.mpr hconcerns) hat
  have ht : duty.state = t := State.code_injective (hdue.state.symm.trans hstate)
  subst ht
  exact stage_of_due hduty hside

/-- A due record's duty moves its wish on. -/
theorem Corresponds.advances (h : m.Corresponds parties) (hwilling : Party.AreWilling parties)
    (hduty : duty ∈ q.role.duties) (hdue : m.IsDue q q.role duty n) (hconcerns : Concerns q n id)
    (hat : m.IsAt parties id offer duty.state) :
    m.Advances ((parties q).handleRecord (conduct parties (loopback turn) q) q.role duty n m).2
      parties q n id offer duty.target := by
  have hexchange : Exchange parties (loopback turn) q duty n m
      ((parties q).handleRecord (conduct parties (loopback turn) q) q.role duty n m).2 :=
    h.exchange hdue
  cases q with
  | first =>
    have hid : n.id = id := hconcerns
    subst hid
    cases duty with
    | decide source target => exact consumer_decides hwilling hduty hdue hexchange hat
    | send message =>
      by_cases hfirst : message = .request
      · subst hfirst
        exact h.consumer_requests hwilling hdue hexchange hat
      · by_cases hlast : message = .termination
        · subst hlast
          cases hat with
          | alone t c hs => cases hs
          | joint t u c p a hs => cases hs
        · exact h.consumer_sends hwilling hduty hfirst hlast hdue hexchange hat
  | second =>
    have hname : n.correlationId = some id := hconcerns
    cases duty with
    | decide source target => exact h.provider_decides hwilling hduty hdue hexchange hname hat
    | send message =>
      by_cases hlast : message = .termination
      · subst hlast
        cases hat with
        | alone t c hs => cases hs
        | joint t u c p a hs => cases hs
      · have hfirst : message ≠ .request := by
          rintro rfl
          exact absurd hduty (by decide)
        exact h.provider_sends hwilling hduty hfirst hlast hdue hexchange hname hat

/-- What a meeting in which nothing goes wrong keeps: every wish is in a stage, there are no records
but those of wishes, and every message was answered. -/
structure IsSmooth (m : Meeting) (parties : Party → Engine) : Prop where
  corresponds : m.Corresponds parties
  staged : ∀ id r, (id, r) ∈ m.wishes → ∃ s, m.IsAt parties id r.offer s
  wished : ∀ id c, (m.ledger .first).content id = some c → ∃ r, (id, r) ∈ m.wishes
  distinct : (m.wishes.map (·.1)).Nodup
  answered : ∀ reply ∈ m.replies, ∃ response, reply = .answered response

namespace IsSmooth

/-- Every record belongs to a wish. -/
theorem wish (h : m.IsSmooth parties) (hk : (m.ledger q).content k.id = some k) :
    ∃ id r, Concerns q k id ∧ (id, r) ∈ m.wishes := by
  cases q with
  | first =>
    obtain ⟨r, hr⟩ := h.wished k.id k hk
    exact ⟨k.id, r, rfl, hr⟩
  | second =>
    have hsound := (h.corresponds.orderly .second).sound k.id k hk
    obtain ⟨id, hid⟩ := hsound.correlated (h.corresponds.role .second k.id k hk)
    obtain ⟨c, hc⟩ := h.corresponds.known k.id id ((Ledger.nameFor_of_content hk).trans hid)
    obtain ⟨r, hr⟩ := h.wished id c hc
    exact ⟨id, r, hid, hr⟩

/-- A due record belongs to a wish, and its duty moves that wish on. -/
theorem advances (h : m.IsSmooth parties) (hwilling : Party.AreWilling parties)
    (turn : Nat → Nat) {role : Role} (hduty : duty ∈ role.duties) (hdue : m.IsDue q role duty n) :
    ∃ id r, (id, r) ∈ m.wishes ∧ m.IsAt parties id r.offer duty.state
      ∧ m.Advances ((parties q).handleRecord (conduct parties (loopback turn) q) role duty n m).2
        parties q n id r.offer duty.target := by
  have hrole := h.corresponds.role_of_isDue hdue
  subst hrole
  have hstored : (m.ledger q).content (n.withLease none).id = some (n.withLease none) := hdue.stored
  obtain ⟨id, r, hwish, hr⟩ := h.wish hstored
  have hconcerns := concerns_withLease.mp hwish
  obtain ⟨s, hat⟩ := h.staged id r hr
  have hs := h.corresponds.stage_eq hduty hdue hconcerns hat
  subst hs
  exact ⟨id, r, hr, hat, h.corresponds.advances hwilling hduty hdue hconcerns hat⟩

/-- Handling a due record keeps a meeting smooth. -/
theorem handle (h : m.IsSmooth parties) (hwilling : Party.AreWilling parties) (turn : Nat → Nat)
    {role : Role} (hduty : duty ∈ role.duties) (hdue : m.IsDue q role duty n) :
    (((parties q).handleRecord (conduct parties (loopback turn) q) role duty n m).2).IsSmooth
      parties := by
  obtain ⟨id, r, hr, _, hadvances⟩ := h.advances hwilling turn hduty hdue
  refine ⟨h.corresponds.handle hduty hdue, fun other r' hr' => ?_, fun other c hc => ?_, ?_,
    fun reply hreply => ?_⟩
  · rw [hadvances.wishes] at hr'
    -- The wish of the record moved on; the others stay in their stages.
    by_cases hother : other = id
    · subst hother
      have hsame := List.inj_on_of_nodup_map h.distinct hr hr' rfl
      cases hsame
      exact ⟨_, hadvances.stage⟩
    · obtain ⟨s, hat⟩ := h.staged other r' hr'
      exact ⟨s, hadvances.others other r'.offer s hother hat⟩
  · rw [hadvances.wishes]
    rcases hadvances.known other c hc with rfl | ⟨c, hc⟩
    · exact ⟨r, hr⟩
    · exact h.wished other c hc
  · rw [hadvances.wishes]
    exact h.distinct
  · rcases hadvances.replies reply hreply with hbefore | hnow
    · exact h.answered reply hbefore
    · exact hnow

end IsSmooth

end Meeting

end Parley
