/-
  Parley.Proofs.Parties.Outcome
  ────────────────────────────────
  **HOW TWO RECORDS END.**

  A negotiation is finalized by the provider's last message: the consumer's
  record is finalized when it arrives, the provider's when it is answered.  If
  the acknowledgement is lost, the provider tries again, the consumer refuses,
  for a final state is never left, and the provider gives up.  There is no other
  way for two records that belong together to end apart (`IsPair.EndsTogether`):

      provider   while the provider's record is finalized, so is the consumer's
      consumer   while the consumer's record is finalized, the provider's is
                 too, or the acknowledgement of its last message was lost
-/
import Parley.Proofs.Parties.Correspondence

namespace Parley

namespace Meeting

variable {parties : Party → Engine} {luck : Luck} {m m' : Meeting} {q : Party} {duty : Duty}
  {n : Negotiation}

/-! ## §1. The party's own record. -/

/-- A record that a reply is dealt with for stays in its state, ends, or, if the reply is an answer,
reaches the message's target. -/
theorem state_of_landing {e : Engine} {w w' : World} {f : Flight} {reply : Reply} {counts : Bool}
    (hn : w.ledger.content f.leased.id = some n) (hstate : n.state = f.sending.source.code)
    (hrequest : f.sending = .request → n.role = .consumer)
    (hl : Engine.Landing e w f reply counts w') :
    ∃ n', w'.ledger.content f.leased.id = some n' ∧ n.Keeps n'
      ∧ (n'.state = n.state ∨ n'.state = State.terminated.code
        ∨ n'.state = f.sending.target.code ∧ ∃ response, reply = .answered response) := by
  cases hl with
  | gone hgone hw =>
    rw [hn] at hgone
    cases hgone
  | idle current hcurrent hup hcounts hw =>
    exact ⟨n, (hw.content _).trans hn, Negotiation.Keeps.refl n, .inl rfl⟩
  | turned current n' kind hcurrent hup hcounts hw =>
    rw [hn] at hcurrent
    cases hcurrent
    -- A reply is dealt with as the record is stored, and it is stored as it was sent for.
    have hturn := Engine.turn_of_upshot hup
    have hid : n'.id = f.leased.id := hturn.id.trans (Ledger.id_of_content hn)
    have hself := hw.content_self
    rw [hid] at hself
    refine ⟨_, hself, (hturn.keeps hrequest).withLease none, ?_⟩
    cases hturn with
    | onward response hedge hset => exact .inr (.inr ⟨rfl, response, rfl⟩)
    | ended failure detail hedge hlast => exact .inr (.inl rfl)
    | again failure hedge hkind hmore => exact .inl hstate.symm

/-- A record that is handled stays in its state, ends, or reaches the duty's target. -/
theorem Corresponds.own_state (h : m.Corresponds parties) (hduty : duty ∈ q.role.duties)
    (hn : (m.ledger q).content n.id = some (n.withLease none))
    (hstate : n.state = duty.state.code) (hexchange : Exchange parties luck q duty n m m') :
    ∃ n', (m'.ledger q).content n.id = some n' ∧ n.Keeps n'
      ∧ (n'.state = duty.state.code ∨ n'.state = State.terminated.code
        ∨ n'.state = duty.target.code) := by
  have hkept := Negotiation.Keeps.refl n
  cases hexchange with
  | alone handled w hb hheld hm =>
    subst hm
    rw [ledger_setWorld_self]
    cases hb with
    | parked hguard hb hw =>
      exact ⟨_, hw.content_self, (hkept.withPending true).withLease none, .inl hstate⟩
    | decided source target hduty hedge hb hw =>
      subst hduty
      exact ⟨_, hw.content_self, (hkept.enter _ _).withLease none, .inr (.inr rfl)⟩
    | undecided source target hduty hedge hb hw =>
      exact ⟨_, (hw.content _).trans hn, hkept.withLease none, .inl hstate⟩
    | delayed message hduty hdelay hb hw =>
      exact ⟨_, (hw.content _).trans hn, hkept.withLease none, .inl hstate⟩
    | sending message payload hduty hguard hpayload hb hw => cases hb
  | sent message payload reply mid w counts hsend hguard hpayload hd hl hheld hm =>
    subst hsend
    subst hm
    -- Only the consumer sends requests.
    have hrequest : message = .request → n.role = .consumer := by
      rintro rfl
      have hrole := (h.stored hn).2
      rw [consumer_of_request hduty] at hrole
      exact hrole
    have hmid : (mid.ledger q).content n.id = some (n.withLease none) := by
      rw [hd.ledger]
      exact hn
    rw [ledger_setWorld_self]
    obtain ⟨n', hn', hkeeps, hn''⟩ := state_of_landing hmid hstate hrequest hl
    refine ⟨n', hn', (hkept.withLease none).trans hkeeps, ?_⟩
    rcases hn'' with hstay | hend | ⟨htarget, _⟩
    · exact .inl (hstay.trans hstate)
    · exact .inr (.inl hend)
    · exact .inr (.inr htarget)

/-! ## §2. The other party's record. -/

/-- A record of the other party belongs to a party's record. -/
def Joins (q : Party) (n k : Negotiation) : Prop :=
  match q with
  | .first => k.correlationId = some n.id
  | .second => n.correlationId = some k.id

/-- A record that a message may have changed belongs to the sender's, and is in the message's
target. -/
theorem Corresponds.receipt_other (h : m.Corresponds parties)
    (hn : (m.ledger q).content n.id = some (n.withLease none)) {payload : Payload} {r : Handled}
    {w : World} (hrequest : payload.target = .requested → q = .first)
    (hr : Engine.Receipt (parties q.other) (m.world q.other) (.forNegotiation n payload) r w)
    {id : String} {k : Negotiation} (hk : w.ledger.content id = some k) :
    (m.ledger q.other).content id = some k
      ∨ Joins q n k ∧ k.state = payload.target.code ∧ ∃ found, r = .ok found := by
  cases hr with
  | refused err hr hm hno hw => exact .inl ((hw.content id).symm.trans hk)
  | known offer callbackAddress consumerId known hm hknown hr hw =>
    rw [hw] at hk
    exact .inl hk
  | accepted role before found haddr hpid hbefore hok hr hid hw =>
    by_cases heq : ((Message.forNegotiation n payload).outcome before (m.world q.other).now).id = id
    · rw [← heq, hw.content_self] at hk
      cases hk
      refine .inr ⟨?_, rfl, found, hr⟩
      have hnames := h.accepted_by hn hpid hbefore hok
      cases q with
      -- The provider's record is named by the consumer's, so it names it in turn.
      | first =>
        have hprovider : before.role = .provider := h.role .second before.id before hbefore
        have hname : (m.ledger .first).nameFor n.id = some before.id :=
          (Ledger.nameFor_of_content hn).trans hnames
        have hback : before.correlationId = some n.id :=
          (Ledger.nameFor_of_content (l := m.ledger .second) hbefore).symm.trans
            (h.named n.id before.id hname)
        exact ((Call.keeps_of_accepted haddr hok).correlationId hprovider).trans hback
      | second =>
        show n.correlationId = some ((Message.forNegotiation n payload).outcome before m.now).id
        rw [Message.id_outcome]
        exact hnames
    · rw [hw.content_of_ne heq] at hk
      exact .inl hk
  | opened offer callbackAddress consumerId hm hunknown hr hw =>
    have hpayload : payload = .contractRequest offer callbackAddress consumerId := hm
    rw [hw.content] at hk
    split at hk
    · cases hk
      have hfirst := hrequest (by rw [hpayload]; rfl)
      subst hfirst
      have hconsumer : n.role = .consumer := (h.stored hn).2
      refine .inr ⟨?_, by rw [hpayload]; rfl, _, hr⟩
      show some (Message.forNegotiation n payload).consumerPid = some n.id
      simp [Message.forNegotiation, hconsumer]
    · exact .inl hk

/-- A record of the other party that handling a record may have changed belongs to that record, and
is in the target of its message. -/
theorem Corresponds.other_state (h : m.Corresponds parties) (hduty : duty ∈ q.role.duties)
    (hn : (m.ledger q).content n.id = some (n.withLease none))
    (hexchange : Exchange parties luck q duty n m m') {id : String} {k : Negotiation}
    (hk : (m'.ledger q.other).content id = some k) :
    (m.ledger q.other).content id = some k
      ∨ Joins q n k ∧ k.state = duty.target.code := by
  cases hexchange with
  | alone handled w hb hheld hm =>
    subst hm
    rw [ledger_setWorld_other] at hk
    exact .inl hk
  | sent message payload reply mid w counts hsend hguard hpayload hd hl hheld hm =>
    subst hsend
    subst hm
    rw [ledger_setWorld_other, ledger_logged] at hk
    have htarget := Engine.target_of_payloadFor hpayload
    have hrequest : payload.target = .requested → q = .first := by
      rw [htarget]
      intro hmessage
      cases message <;> first | exact consumer_of_request hduty | cases hmessage
    -- Delivered is delivered, whether the reply comes back or not.
    have hjoined {r : Handled} {w : World}
        (hr : Engine.Receipt (parties q.other) (m.world q.other) (.forNegotiation n payload) r w)
        (hk : w.ledger.content id = some k) : (m.ledger q.other).content id = some k
          ∨ Joins q n k ∧ k.state = message.target.code := by
      rcases h.receipt_other hn hrequest hr hk with hsame | ⟨hjoins, hstate, _⟩
      · exact .inl hsame
      · rw [htarget] at hstate
        exact .inr ⟨hjoins, hstate⟩
    generalize luck.fate m.sent = f at hd
    cases hd with
    | undelivered why => exact .inl hk
    | returned fate r w hr hheld hfate =>
      rw [ledger_setWorld_self] at hk
      exact hjoined hr hk
    | lost why found w hr hheld =>
      have hk' : ((m.setWorld q.other w).ledger q.other).content id = some k := by
        cases q <;> exact hk
      rw [ledger_setWorld_self] at hk'
      exact hjoined hr hk'

/-- A message that is accepted, and is no request, is accepted by the record that the sender's
names. -/
theorem Corresponds.receipt_ok (h : m.Corresponds parties)
    (hn : (m.ledger q).content n.id = some (n.withLease none)) {payload : Payload}
    {found : Negotiation} {w : World} (hplain : payload.target ≠ .requested)
    (hr : Engine.Receipt (parties q.other) (m.world q.other) (.forNegotiation n payload) (.ok found)
      w) {id : String} (hid : n.correlationId = some id) {k : Negotiation}
    (hk : w.ledger.content id = some k) : k.state = payload.target.code := by
  cases hr with
  | refused err hr hm hno hw => cases hr
  | known offer callbackAddress consumerId known hm hknown hr hw =>
    have hpayload : payload = .contractRequest offer callbackAddress consumerId := hm
    rw [hpayload] at hplain
    exact absurd rfl hplain
  | opened offer callbackAddress consumerId hm hunknown hr hw =>
    have hpayload : payload = .contractRequest offer callbackAddress consumerId := hm
    rw [hpayload] at hplain
    exact absurd rfl hplain
  | accepted role before found haddr hpid hbefore hok hr hfound hw =>
    have hnames := h.accepted_by hn hpid hbefore hok
    rw [hid, Option.some.injEq] at hnames
    have hself := hw.content_self
    rw [Message.id_outcome, ← hnames, hk] at hself
    cases hself
    rfl

/-! ## §3. The last message. -/

/-- The acknowledgement of the provider's last message for a consumer's record was lost. -/
def LostLast (m : Meeting) (cid : String) : Prop :=
  ∃ msg ∈ m.lost, msg.payload = .negotiationEvent .finalized ∧ msg.consumerPid = cid

/-- Handling a record keeps what was lost on record. -/
theorem Exchange.lost_subset (h : Exchange parties luck q duty n m m') : m.lost ⊆ m'.lost := by
  cases h with
  | alone handled w hb hheld hm =>
    rw [hm, lost_setWorld]
    exact List.Subset.refl _
  | sent message payload reply mid w counts hsend hguard hpayload hd hl hheld hm =>
    have hmid : m'.lost = mid.lost := by
      rw [hm, lost_setWorld]
      rfl
    rw [hmid]
    generalize luck.fate m.sent = f at hd
    cases hd with
    | undelivered why => exact List.Subset.refl _
    | returned fate r w hr hheld hfate =>
      rw [lost_setWorld]
      exact List.Subset.refl _
    | lost why found w hr hheld => exact List.subset_append_left _ _

theorem LostLast.mono {cid : String} (h : m.LostLast cid) (hlost : m.lost ⊆ m'.lost) :
    m'.LostLast cid := by
  obtain ⟨msg, hin, hmsg⟩ := h
  exact ⟨msg, hlost hin, hmsg⟩

/-- What becomes of the two records when the provider finalizes a negotiation. -/
theorem Corresponds.finalization (h : m.Corresponds parties)
    (hn : (m.ledger .second).content n.id = some (n.withLease none))
    (hstate : n.state = State.finalizing.code)
    (hexchange : Exchange parties luck .second (.send .finalization) n m m') {c n' : Negotiation}
    (hname : n.correlationId = some c.id) (hc : (m'.ledger .first).content c.id = some c)
    (hn' : (m'.ledger .second).content n.id = some n') :
    (n'.state = State.finalizing.code ∨ n'.state = State.terminated.code)
        ∧ ((m.ledger .first).content c.id = some c ∨ m'.LostLast c.id)
      ∨ c.state = State.finalized.code ∧ n'.state = State.finalized.code := by
  cases hexchange with
  | alone handled w hb hheld hm =>
    subst hm
    have hc' : (m.ledger .first).content c.id = some c := hc
    rw [ledger_setWorld_self] at hn'
    refine .inl ⟨.inl ?_, .inl hc'⟩
    cases hb with
    | parked hguard hb hw =>
      have hself : w.ledger.content n.id = some ((n.withPending true).withLease none) :=
        hw.content_self
      rw [hself] at hn'
      cases hn'
      exact hstate
    | decided source target hduty hedge hb hw => cases hduty
    | undecided source target hduty hedge hb hw => cases hduty
    | delayed message hduty hdelay hb hw =>
      rw [hw.content, ledger_world, hn] at hn'
      cases hn'
      exact hstate
    | sending message payload hduty hguard hpayload hb hw => cases hb
  | sent message payload reply mid w counts hsend hguard hpayload hd hl hheld hm =>
    cases hsend
    cases hpayload
    have hprovider : n.role = .provider := (h.stored hn).2
    have hmid : (mid.ledger .second).content n.id = some (n.withLease none) := by
      rw [hd.ledger]
      exact hn
    have hfirst : (mid.ledger .first).content c.id = some c := by
      rw [hm] at hc
      exact hc
    have hself : w.ledger.content n.id = some n' := by
      rw [hm, ledger_setWorld_self] at hn'
      exact hn'
    -- If there is no answer, the provider's record is tried again or ends.
    have hfailed (hno : ∀ response, reply ≠ .answered response) :
        n'.state = State.finalizing.code ∨ n'.state = State.terminated.code := by
      obtain ⟨k, hk, _, hstay | hend | ⟨_, response, hanswer⟩⟩ :=
        state_of_landing hmid hstate (fun hrequest => Sending.noConfusion hrequest) hl
      · cases hself.symm.trans hk
        exact .inl (hstay.trans hstate)
      · cases hself.symm.trans hk
        exact .inr hend
      · exact absurd hanswer (hno response)
    generalize luck.fate m.sent = f at hd
    cases hd with
    | undelivered why => exact .inl ⟨hfailed fun _ => nofun, .inl hfirst⟩
    | returned fate r w' hr hheld' hfate =>
      have hfirst' : w'.ledger.content c.id = some c := hfirst
      cases r with
      | error err =>
        rcases h.receipt_other hn (fun hm => absurd hm (by decide)) hr hfirst' with
          hsame | ⟨_, _, _, hok⟩
        · exact .inl ⟨hfailed fun _ => nofun, .inl hsame⟩
        · cases hok
      | ok found =>
        have hedge : (n.withLease none).checkEdge .finalized = .ok () :=
          Negotiation.checkEdge_eq_ok_iff.mpr ⟨.finalizing, hstate, rfl⟩
        have hputs := hl.answered hmid hedge fun hsettles => (Bool.false_ne_true hsettles).elim
        cases hself.symm.trans hputs.content_self
        exact .inr ⟨h.receipt_ok hn (by decide) hr hname hfirst', rfl⟩
    -- The consumer may be finalized by now, and the provider does not know.
    | lost why found w' hr hheld' =>
      refine .inl ⟨hfailed fun _ => nofun, .inr ?_⟩
      refine ⟨.forNegotiation n (.negotiationEvent .finalized), ?_, rfl, ?_⟩
      · rw [hm, lost_setWorld]
        exact List.mem_append_right _ (List.mem_singleton.mpr rfl)
      · simp [Message.forNegotiation, hprovider, hname]

/-! ## §4. Two records that belong together. -/

/-- A consumer's record and the provider's record that names it. -/
structure IsPair (m : Meeting) (c p : Negotiation) : Prop where
  consumer : (m.ledger .first).content c.id = some c
  provider : (m.ledger .second).content p.id = some p
  names : p.correlationId = some c.id

/-- Two records do not end apart, but for a last acknowledgement that was lost. -/
structure EndsTogether (m : Meeting) (c p : Negotiation) : Prop where
  provider : p.state = State.finalized.code → c.state = State.finalized.code
  consumer : c.state = State.finalized.code → p.state = State.finalized.code
    ∨ (p.state = State.finalizing.code ∨ p.state = State.terminated.code) ∧ m.LostLast c.id

theorem EndsTogether.mono {c p : Negotiation} (h : m.EndsTogether c p) (hlost : m.lost ⊆ m'.lost) :
    m'.EndsTogether c p where
  provider := h.provider
  consumer hc := (h.consumer hc).imp_right fun hp => ⟨hp.1, hp.2.mono hlost⟩

/-- Records that are not finalized do not end apart. -/
theorem EndsTogether.of_open {c p : Negotiation} (hc : c.state ≠ State.finalized.code)
    (hp : p.state ≠ State.finalized.code) : m.EndsTogether c p :=
  ⟨fun h => absurd h hp, fun h => absurd h hc⟩

/-- What every action keeps: the records correspond and no two end apart. -/
structure IsSettling (m : Meeting) (parties : Party → Engine) : Prop where
  corresponds : m.Corresponds parties
  together : ∀ c p, m.IsPair c p → m.EndsTogether c p

/-- Nothing is to be done for a final record, and one duty only finalizes a record. -/
theorem duty_final (role : Role) : ∀ duty ∈ role.duties,
    duty.state ≠ .finalized ∧ duty.state ≠ .terminated
      ∧ (duty.state = .finalizing → duty = .send .finalization)
      ∧ (duty.target = .finalized → duty = .send .finalization ∧ role = .provider) := by
  cases role <;> decide

namespace IsSettling

/-- A record that is handled is not finalized by any duty but the last. -/
theorem not_finalized {role : Role} (hduty : duty ∈ role.duties)
    (hlast : duty ≠ .send .finalization) {k : Negotiation}
    (hk : k.state = duty.state.code ∨ k.state = State.terminated.code
      ∨ k.state = duty.target.code) : k.state ≠ State.finalized.code := by
  obtain ⟨hopen, _, _, htarget⟩ := duty_final role duty hduty
  intro hfinal
  rcases hk with hk | hk | hk
  · exact hopen (State.code_injective (hk.symm.trans hfinal))
  · exact absurd (State.code_injective (hk.symm.trans hfinal)) (by decide)
  · exact hlast (htarget (State.code_injective (hk.symm.trans hfinal))).1

/-- Two records of which the handled one is neither were there before. -/
theorem pair_before (h : m.IsSettling parties) (hduty : duty ∈ q.role.duties)
    (hn : (m.ledger q).content n.id = some (n.withLease none))
    (hexchange : Exchange parties luck q duty n m m') {c p : Negotiation}
    (hpair : m'.IsPair c p)
    (hne : match q with | .first => n.id ≠ c.id | .second => n.id ≠ p.id) : m.IsPair c p := by
  cases q with
  | first =>
    have hc := (hexchange.content_of_ne hne).symm.trans hpair.consumer
    rcases h.corresponds.other_state hduty hn hexchange hpair.provider with hp | ⟨hjoins, _⟩
    · exact ⟨hc, hp, hpair.names⟩
    · exact absurd (Option.some.inj (hjoins.symm.trans hpair.names)) hne
  | second =>
    have hp := (hexchange.content_of_ne hne).symm.trans hpair.provider
    rcases h.corresponds.other_state hduty hn hexchange hpair.consumer with hc | ⟨hjoins, _⟩
    · exact ⟨hc, hp, hpair.names⟩
    · -- No two records name the same record.
      have hsame := h.corresponds.single n.id p.id c.id
        ((Ledger.nameFor_of_content hn).trans hjoins)
        ((Ledger.nameFor_of_content hp).trans hpair.names)
      exact absurd hsame hne

/-- The consumer handles its record of a pair. -/
theorem handle_consumer (h : m.IsSettling parties) (hduty : duty ∈ Role.consumer.duties)
    (hn : (m.ledger .first).content n.id = some (n.withLease none))
    (hstate : n.state = duty.state.code) (hexchange : Exchange parties luck .first duty n m m')
    {c p : Negotiation} (hpair : m'.IsPair c p) (hid : n.id = c.id) : m'.EndsTogether c p := by
  obtain ⟨hopen, _, _, htarget⟩ := duty_final .consumer duty hduty
  have hlast : duty ≠ .send .finalization := by
    rintro rfl
    exact absurd (htarget rfl).2 (by decide)
  obtain ⟨c', hc', _, hown⟩ := h.corresponds.own_state hduty hn hstate hexchange
  rw [hid, hpair.consumer] at hc'
  cases hc'
  -- No duty of the consumer's finalizes, and a finalized provider means a finalized consumer.
  refine .of_open (not_finalized hduty hlast hown) ?_
  rcases h.corresponds.other_state hduty hn hexchange hpair.provider with hp | ⟨_, hp⟩
  · intro hfinal
    have hnames : p.correlationId = some (n.withLease none).id := by
      rw [hpair.names, ← hid]
      rfl
    have hbefore := (h.together (n.withLease none) p ⟨hn, hp, hnames⟩).provider hfinal
    exact hopen (State.code_injective (hstate.symm.trans hbefore))
  · exact not_finalized hduty hlast (.inr (.inr hp))

/-- The provider handles its record of a pair. -/
theorem handle_provider (h : m.IsSettling parties) (hduty : duty ∈ Role.provider.duties)
    (hn : (m.ledger .second).content n.id = some (n.withLease none))
    (hstate : n.state = duty.state.code) (hexchange : Exchange parties luck .second duty n m m')
    {c p : Negotiation} (hpair : m'.IsPair c p) (hid : n.id = p.id) : m'.EndsTogether c p := by
  obtain ⟨hopen, hended, hfinalizing, _⟩ := duty_final .provider duty hduty
  obtain ⟨p', hp', hkeeps, hown⟩ := h.corresponds.own_state hduty hn hstate hexchange
  rw [hid, hpair.provider] at hp'
  cases hp'
  have hname : n.correlationId = some c.id :=
    (hkeeps.correlationId (h.corresponds.stored hn).2).symm.trans hpair.names
  -- If the consumer is finalized already, an earlier acknowledgement was lost.
  have hbefore (hc : (m.ledger .first).content c.id = some c)
      (hfinal : c.state = State.finalized.code) :
      n.state = State.finalizing.code ∧ m.LostLast c.id := by
    rcases (h.together c (n.withLease none) ⟨hc, hn, hname⟩).consumer hfinal with
      hp | ⟨hp | hp, hlost⟩
    · exact absurd (State.code_injective (hstate.symm.trans hp)) hopen
    · exact ⟨hp, hlost⟩
    · exact absurd (State.code_injective (hstate.symm.trans hp)) hended
  by_cases hlast : duty = .send .finalization
  · subst hlast
    have hprovider := hpair.provider
    rw [← hid] at hprovider
    rcases h.corresponds.finalization hn hstate hexchange hname hpair.consumer hprovider with
      ⟨hp, hc⟩ | ⟨hc, hp⟩
    · refine ⟨fun hfinal => ?_, fun hfinal => .inr ⟨hp, ?_⟩⟩
      · rw [hfinal] at hp
        rcases hp with hp | hp <;> exact absurd (State.code_injective hp) (by decide)
      · rcases hc with hc | hlost
        · exact (hbefore hc hfinal).2.mono hexchange.lost_subset
        · exact hlost
    · exact ⟨fun _ => hc, fun _ => .inl hp⟩
  · refine .of_open ?_ (not_finalized hduty hlast hown)
    rcases h.corresponds.other_state hduty hn hexchange hpair.consumer with hc | ⟨_, hc⟩
    · intro hfinal
      have hstill := (hbefore hc hfinal).1
      exact hlast (hfinalizing (State.code_injective (hstate.symm.trans hstill)))
    · exact not_finalized hduty hlast (.inr (.inr hc))

/-- Handling a record lets no two records end apart. -/
theorem handle (h : m.IsSettling parties) {role : Role} (hduty : duty ∈ role.duties)
    (hdue : m.IsDue q role duty n) :
    (((parties q).handleRecord (conduct parties luck q) role duty n m).2).IsSettling parties := by
  have hrole := h.corresponds.role_of_isDue hdue
  subst hrole
  have hexchange : Exchange parties luck q duty n m
      ((parties q).handleRecord (conduct parties luck q) q.role duty n m).2 :=
    h.corresponds.exchange hdue
  refine ⟨h.corresponds.handle hduty hdue, fun c p hpair => ?_⟩
  cases q with
  | first =>
    by_cases hid : n.id = c.id
    · exact h.handle_consumer hduty hdue.stored hdue.state hexchange hpair hid
    · exact (h.together c p (h.pair_before hduty hdue.stored hexchange hpair hid)).mono
        hexchange.lost_subset
  | second =>
    by_cases hid : n.id = p.id
    · exact h.handle_provider hduty hdue.stored hdue.state hexchange hpair hid
    · exact (h.together c p (h.pair_before hduty hdue.stored hexchange hpair hid)).mono
        hexchange.lost_subset

/-- Where the records say the same, they end as they did. -/
theorem congr (h : m.IsSettling parties) (hm' : m'.Corresponds parties)
    (hcontent : ∀ q id, (m'.ledger q).content id = (m.ledger q).content id)
    (hlost : m.lost ⊆ m'.lost) : m'.IsSettling parties := by
  refine ⟨hm', fun c p hpair => ?_⟩
  have hc := (hcontent .first c.id).symm.trans hpair.consumer
  have hp := (hcontent .second p.id).symm.trans hpair.provider
  exact (h.together c p ⟨hc, hp, hpair.names⟩).mono hlost

/-- A wish to negotiate is a record that none belongs to. -/
theorem initiate (h : m.IsSettling parties) (r : ContractRequest) :
    (m.act parties luck (.initiate r)).IsSettling parties := by
  have hcorresponds : (m.act parties luck (.initiate r)).Corresponds parties :=
    h.corresponds.initiate r
  obtain ⟨hbears, _⟩ := (parties .first).initiate_effect (h.corresponds.orderly .first).held r
  rw [act_initiate (h.corresponds.orderly .first).held] at hcorresponds ⊢
  refine ⟨hcorresponds, fun c p hpair => ?_⟩
  have hp : (m.ledger .second).content p.id = some p := hpair.provider
  have hc : ((parties .first).initiate .direct r (m.world .first)).2.ledger.content c.id = some c :=
    hpair.consumer
  obtain ⟨known, hknown⟩ := h.corresponds.known p.id c.id
    ((Ledger.nameFor_of_content hp).trans hpair.names)
  have hne : (r.opened (m.world .first).nextId (m.world .first).now).id ≠ c.id := by
    intro hid
    have hnone := (h.corresponds.orderly .first).content_nextId
    rw [← hbears.id, hid, ledger_world, hknown] at hnone
    cases hnone
  rw [hbears.content, if_neg hne] at hc
  have htogether := h.together c p ⟨hc, hp, hpair.names⟩
  exact ⟨htogether.provider, htogether.consumer⟩

theorem lend (h : m.IsSettling parties) (ids : List String) {lease : Lease}
    (hlease : lease.holder = (parties q).handle.holder) :
    (m.lendEach q ids lease).IsSettling parties := by
  refine h.congr (h.corresponds.lend ids hlease)
    (fun p id => content_lendEach m q p ids lease id) ?_
  rw [lendEach, lost_setWorld]
  exact List.Subset.refl _

theorem pick (h : m.IsSettling parties) : m.pick.IsSettling parties :=
  h.congr h.corresponds.pick (fun _ _ => rfl) (List.Subset.refl _)

theorem advance (h : m.IsSettling parties) (ms : Int) :
    (m.act parties luck (.advance ms)).IsSettling parties := by
  refine h.congr (h.corresponds.advance ms) (fun q id => ?_) (List.Subset.refl _)
  cases q <;> rfl

end IsSettling

/-- In every run from the start no two records end apart. -/
theorem run_isSettling (hm : m.IsFresh) (acts : List Action) :
    (m.run parties luck acts).IsSettling parties := by
  have hfresh : m.IsSettling parties := by
    refine ⟨hm.corresponds parties, fun c p hpair => ?_⟩
    have hc := hpair.consumer
    rw [hm.ledger .first] at hc
    cases hc
  refine run_induction (motive := fun m => m.IsSettling parties) (fun q role m h => ?_)
    (fun r _ h => h.initiate r) (fun ms _ h => h.advance ms) hfresh acts
  exact runRole_induction (motive := fun _ m => m.IsSettling parties)
    (fun _ _ h => h.corresponds.orderly) (fun _ ids _ h hlease => h.lend ids hlease)
    (fun _ _ h => h.pick) (fun _ hduty _ _ _ _ _ h hdue => h.handle hduty hdue) h

/-! ## §5. The ends. -/

/-- Two parties start with no records, and messages and acknowledgements may be lost.  After any
actions, in whatever order the records of a batch are handled, of two records that belong together
it is never the consumer's that is terminated and the provider's that is finalized; and the other way
round only if the acknowledgement of the provider's last message was lost. -/
theorem apart_of_lostLast (parties : Party → Engine) (luck : Luck) (m : Meeting)
    (hm : m.IsFresh) (acts : List Action) (cid pid : String) (c p : Negotiation)
    (hc : ((m.run parties luck acts).ledger .first).content cid = some c)
    (hp : ((m.run parties luck acts).ledger .second).content pid = some p)
    (hnames : p.correlationId = some cid ∨ c.correlationId = some pid) :
    ¬ (c.state = State.terminated.code ∧ p.state = State.finalized.code)
      ∧ (c.state = State.finalized.code → p.state = State.terminated.code →
        (m.run parties luck acts).LostLast cid) := by
  have h : (m.run parties luck acts).IsSettling parties := run_isSettling hm acts
  have hlink : p.correlationId = some cid := by
    rcases hnames with hlink | hlink
    · exact hlink
    · have hnamed := h.corresponds.named cid pid ((Ledger.nameFor_of_content hc).trans hlink)
      exact (Ledger.nameFor_of_content hp).symm.trans hnamed
  have hcid := Ledger.id_of_content hc
  have hpid := Ledger.id_of_content hp
  subst hcid
  subst hpid
  have htogether := h.together c p ⟨hc, hp, hlink⟩
  constructor
  · rintro ⟨hterminated, hfinal⟩
    have hfinal' := htogether.provider hfinal
    rw [hterminated] at hfinal'
    exact absurd (State.code_injective hfinal') (by decide)
  · intro hfinal hterminated
    rcases htogether.consumer hfinal with hp' | ⟨_, hlost⟩
    · rw [hterminated] at hp'
      exact absurd (State.code_injective hp') (by decide)
    · exact hlost

/-! ## §6. A lost acknowledgement. -/

/-- A negotiation in which each party's engine ticks in turn.  All messages arrive, but the
acknowledgement of the sixth, the provider's last, is lost. -/
def untilFinalized : List Action :=
  let turn : List Action := [.tick .first .consumer, .tick .second .provider]
  .initiate ⟨"provider", "http://provider", "dsp", ⟨"offer", "asset", "provider", {}⟩⟩
    :: (turn ++ turn ++ turn ++ turn ++ turn)

/-- The sixth acknowledgement is lost, and nothing else; batches are handled in order. -/
def losesSixth : Luck where
  fate k := if k = 5 then .answerLost "no reply" else .returned
  turn _ := 0

/-- The meeting after such a negotiation. -/
def unacknowledged : Meeting :=
  blank.run Party.trader losesSixth untilFinalized

theorem unacknowledged_first : ((unacknowledged.ledger .first).content "gen-0001").map
    (fun c => (c.correlationId, c.state)) = some (some "gen-0002", State.finalized.code) := by
  decide +kernel

theorem unacknowledged_second : ((unacknowledged.ledger .second).content "gen-0002").map
    (fun p => (p.correlationId, p.state)) = some (some "gen-0001", State.terminated.code) := by
  decide +kernel

/-- The consumer's record is finalized, and the provider's, which belongs to it, is terminated. -/
theorem finalized_beside_terminated :
    ∃ c p, (unacknowledged.ledger .first).content "gen-0001" = some c
      ∧ (unacknowledged.ledger .second).content "gen-0002" = some p
      ∧ c.correlationId = some "gen-0002" ∧ p.correlationId = some "gen-0001"
      ∧ c.state = State.finalized.code ∧ p.state = State.terminated.code := by
  obtain ⟨c, hc, hceq⟩ := Option.map_eq_some_iff.mp unacknowledged_first
  obtain ⟨p, hp, hpeq⟩ := Option.map_eq_some_iff.mp unacknowledged_second
  obtain ⟨hcname, hcstate⟩ := Prod.mk.inj hceq
  obtain ⟨hpname, hpstate⟩ := Prod.mk.inj hpeq
  exact ⟨c, p, hc, hp, hcname, hpname, hcstate, hpstate⟩

/-- So the acknowledgement of the provider's last message was lost. -/
theorem lostLast_of_unacknowledged : unacknowledged.LostLast "gen-0001" := by
  obtain ⟨c, hc, hceq⟩ := Option.map_eq_some_iff.mp unacknowledged_first
  obtain ⟨p, hp, hpeq⟩ := Option.map_eq_some_iff.mp unacknowledged_second
  obtain ⟨_, hcstate⟩ := Prod.mk.inj hceq
  obtain ⟨hpname, hpstate⟩ := Prod.mk.inj hpeq
  exact (apart_of_lostLast Party.trader losesSixth blank isFresh_blank untilFinalized "gen-0001"
    "gen-0002" c p hc hp (.inl hpname)).2 hcstate hpstate

end Meeting

end Parley
