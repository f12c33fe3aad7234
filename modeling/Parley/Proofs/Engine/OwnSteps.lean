/-
  Parley.Proofs.Engine.OwnSteps
  ────────────────────────────────
  **ONE'S OWN STEPS ARE NOT SKIPPED.**

  The graph has short cuts past the states in "-ing", for what is received.  No
  message that comes in takes one past a state that this participant enters by
  sending:

      consumer   REQUESTED, ACCEPTED, VERIFIED
      provider   OFFERED, AGREED, FINALIZED

  A record in such a state, or in a later one, tells that the message was sent
  and answered, and that it said what the record says (`own_steps_taken`).
-/
import Parley.Proofs.Engine.WellFormed

namespace Parley

/-! ## §1. What a role has to say. -/

/-- The messages by which a role moves a negotiation on. -/
def Role.sayings : Role → List Sending
  | consumer => [.request, .acceptance, .verification]
  | provider => [.offer, .agreement, .finalization]

/-- Whether a payload is that of a message, and says about a negotiation what the record says. -/
def Sending.Says (message : Sending) (payload : Payload) (n : Negotiation) : Prop :=
  match message with
  | request => ∃ offer callbackAddress participantId,
      payload = .contractRequest offer callbackAddress participantId ∧ offer ∈ n.offers
  | acceptance => payload = .negotiationEvent .accepted
  | verification => payload = .agreementVerification
  | offer => ∃ offer, payload = .contractOffer offer ∧ offer ∈ n.offers
  | agreement => ∃ agreement, payload = .contractAgreement agreement
      ∧ n.agreement = some agreement
  | finalization => payload = .negotiationEvent .finalized
  | termination => ∃ reason policy, payload = .termination reason policy

/-- A message about a negotiation was sent and answered. -/
def Negotiation.HasTold (n : Negotiation) (log : List (Flight × Reply)) (message : Sending) :
    Prop :=
  ∃ f response, (f, .answered response) ∈ log ∧ f.sending = message ∧ f.leased.id = n.id
    ∧ f.message.processIdFor n.role = some n.id ∧ message.Says f.message.payload n

/-- In every state that a role's message leads to, and in the later ones, the message was sent and
answered.  A termination tells nothing. -/
def Negotiation.IsTold (n : Negotiation) (log : List (Flight × Reply)) : Prop :=
  ∀ message ∈ n.role.sayings, message.target.code ≤ n.state → n.state ≤ State.finalized.code →
    n.HasTold log message

/-! ## §2. Which moves lead past a state. -/

namespace Role

variable {role : Role} {s t : State} {message : Sending}

/-- What others do to a record does not lead past a state of the role's own. -/
theorem not_past_of_awaits (hmessage : message ∈ role.sayings) (hedge : s.canMoveTo t = true)
    (hawaits : role.awaits t = true) (hle : message.target.code ≤ t.code)
    (hfinal : t.code ≤ State.finalized.code) :
    message.target.code ≤ s.code ∧ s.code ≤ State.finalized.code := by
  have h : ∀ message ∈ role.sayings, ∀ s ∈ State.all, ∀ t ∈ State.all, s.canMoveTo t = true →
      role.awaits t = true → message.target.code ≤ t.code → t.code ≤ State.finalized.code →
      message.target.code ≤ s.code ∧ s.code ≤ State.finalized.code := by
    cases role <;> decide +kernel
  exact h message hmessage s (State.mem_all s) t (State.mem_all t) hedge hawaits hle hfinal

/-- Neither does a decision. -/
theorem not_past_of_decide (hmessage : message ∈ role.sayings)
    (hduty : Duty.decide s t ∈ role.duties) (hle : message.target.code ≤ t.code) :
    message.target.code ≤ s.code ∧ s.code ≤ State.finalized.code := by
  cases role <;> simp only [duties, List.mem_cons, Duty.decide.injEq, reduceCtorEq,
    List.not_mem_nil, or_false, false_or] at hduty <;>
    rcases hduty with ⟨rfl, rfl⟩ | ⟨rfl, rfl⟩ | ⟨rfl, rfl⟩ <;> revert message <;> decide +kernel

/-- The answer to a message leads past no state but the message's own. -/
theorem not_past_of_send {sent : Sending} (hmessage : message ∈ role.sayings)
    (hduty : Duty.send sent ∈ role.duties) (hle : message.target.code ≤ sent.target.code)
    (hfinal : sent.target.code ≤ State.finalized.code) :
    message = sent ∨ message.target.code ≤ sent.source.code
      ∧ sent.source.code ≤ State.finalized.code := by
  have h : ∀ message ∈ role.sayings, Duty.send sent ∈ role.duties →
      message.target.code ≤ sent.target.code → sent.target.code ≤ State.finalized.code →
      message = sent ∨ message.target.code ≤ sent.source.code
        ∧ sent.source.code ≤ State.finalized.code := by
    cases role <;> cases sent <;> decide +kernel
  exact h message hmessage hduty hle hfinal

end Role

/-! ## §3. What was said stays said. -/

section

variable {n n' : Negotiation} {log : List (Flight × Reply)} {message : Sending}

/-- What a record says a record that keeps it says as well. -/
theorem Sending.Says.keeps {payload : Payload} (h : message.Says payload n)
    (hkeeps : n.Keeps n') : message.Says payload n' := by
  cases message with
  | request =>
    obtain ⟨offer, callbackAddress, participantId, hpayload, hoffer⟩ := h
    exact ⟨offer, callbackAddress, participantId, hpayload, hkeeps.offers.subset hoffer⟩
  | offer =>
    obtain ⟨offer, hpayload, hoffer⟩ := h
    exact ⟨offer, hpayload, hkeeps.offers.subset hoffer⟩
  | agreement =>
    obtain ⟨agreement, hpayload, hset⟩ := h
    exact ⟨agreement, hpayload, hkeeps.agreement_eq hset⟩
  | acceptance | verification | finalization | termination => exact h

namespace Negotiation

theorem HasTold.mono (h : n.HasTold log message) (more : List (Flight × Reply)) :
    n.HasTold (log ++ more) message := by
  obtain ⟨f, response, hin, htold⟩ := h
  exact ⟨f, response, List.mem_append_left more hin, htold⟩

theorem HasTold.keeps (h : n.HasTold log message) (hkeeps : n.Keeps n') :
    n'.HasTold log message := by
  obtain ⟨f, response, hin, hsending, hid, hpid, hsays⟩ := h
  refine ⟨f, response, hin, hsending, ?_, ?_, hsays.keeps hkeeps⟩
  · rw [hkeeps.id]
    exact hid
  · rw [hkeeps.role, hkeeps.id]
    exact hpid

/-- A record that is moved along, but not past a state of its role's own, tells the same. -/
theorem IsTold.of_not_past {s t : State} (h : n.IsTold log) (hkeeps : n.Keeps n')
    (hs : n.state = s.code) (ht : n'.state = t.code)
    (hpast : ∀ message ∈ n.role.sayings, message.target.code ≤ t.code →
      t.code ≤ State.finalized.code →
      message.target.code ≤ s.code ∧ s.code ≤ State.finalized.code
        ∨ n'.HasTold log message) : n'.IsTold log := by
  intro message hmessage hle hfinal
  rw [hkeeps.role] at hmessage
  rw [ht] at hle hfinal
  rcases hpast message hmessage hle hfinal with ⟨hbefore, hbound⟩ | htold
  · rw [← hs] at hbefore hbound
    exact (h message hmessage hbefore hbound).keeps hkeeps
  · exact htold

end Negotiation

/-! ## §4. Messages answered. -/

/-- A message names the negotiation as its sender does. -/
theorem Message.processIdFor_own (n : Negotiation) (payload : Payload) :
    (Message.forNegotiation n payload).processIdFor n.role = some n.id := by
  unfold forNegotiation processIdFor
  cases n.role <;> rfl

/-- What a message says is said by a record that keeps what the sender's said; and an agreement, if
it is the record's. -/
theorem Engine.says_of_payloadFor {e : Engine} {now : Instant} {payload : Payload}
    (h : e.payloadFor message n now = .ok payload) (hkeeps : n.Keeps n')
    (hagreement : ∀ agreement, message = .agreement → payload = .contractAgreement agreement →
      n'.agreement = some agreement) : message.Says payload n' := by
  have hoffer {offer : Offer} (hlast : n.lastOffer? = some offer) : offer ∈ n'.offers :=
    hkeeps.offers.subset (List.mem_of_getLast? hlast)
  cases composes_of_payloadFor h with
  | request offer hlast => exact ⟨offer, _, _, rfl, hoffer hlast⟩
  | offer offer hlast => exact ⟨offer, rfl, hoffer hlast⟩
  | agreement offer hlast => exact ⟨_, rfl, hagreement _ rfl rfl⟩
  | acceptance | verification | finalization => rfl
  | termination => exact ⟨_, _, rfl⟩

/-- A message that is answered has been told of by the record that the answer makes. -/
theorem Negotiation.hasTold_of_answered {e : Engine} {f : Flight} {response : Json} {now : Instant}
    (hin : (f, .answered response) ∈ log) (hleased : f.leased.Keeps n)
    (hmessage : ∃ payload now, f.message = .forNegotiation f.leased payload
      ∧ e.payloadFor f.sending f.leased now = .ok payload)
    (hkeeps : n.Keeps ((Engine.gained f n response).enter f.sending.target.code now)) :
    ((Engine.gained f n response).enter f.sending.target.code now).HasTold log f.sending := by
  obtain ⟨payload, made, hsent, hpayload⟩ := hmessage
  have hkept := hleased.trans hkeeps
  have hcarried : f.message.payload = payload := congrArg (·.payload) hsent
  refine ⟨f, response, hin, rfl, hkept.id.symm, ?_, ?_⟩
  · rw [hkept.role, hkept.id, hsent]
    exact Message.processIdFor_own f.leased payload
  · rw [hcarried]
    refine Engine.says_of_payloadFor hpayload hkept fun agreement hsending hagreed => ?_
    exact Engine.agreement_gained_of_payload hsending (hcarried.trans hagreed) n response

end

/-! ## §5. The records of an engine. -/

/-- A record that a call opens is in no state that a message of its role leads to, or before. -/
theorem Negotiation.isTold_of_opens {w : World} {n : Negotiation} (h : Call.Opens w n)
    (log : List (Flight × Reply)) : n.IsTold log := by
  intro message hmessage hle hfinal
  cases h with
  | initiated r hn =>
    subst hn
    have hearly : ∀ message ∈ Role.consumer.sayings,
        ¬ message.target.code ≤ State.initial.code := by decide
    exact (hearly message hmessage hle).elim
  | requested m offer callbackAddress consumerId hn =>
    subst hn
    have hearly : ∀ message ∈ Role.provider.sayings,
        ¬ message.target.code ≤ State.requested.code := by decide
    exact (hearly message hmessage hle).elim

theorem preserves_isTold (e : Engine) : Preserves e fun log n => n.IsTold log where
  mono more h := fun message hmessage hle hfinal => (h message hmessage hle hfinal).mono more
  withLease lease h := fun message hmessage hle hfinal =>
    (h message hmessage hle hfinal).keeps ((Negotiation.Keeps.refl _).withLease lease)
  withPending pending h := fun message hmessage hle hfinal =>
    (h message hmessage hle hfinal).keeps ((Negotiation.Keeps.refl _).withPending pending)
  opened h := Negotiation.isTold_of_opens h _
  called := by
    intro log w n n' hmakes h
    obtain ⟨t, hedge, ht, hawaits⟩ := hmakes.edge
    obtain ⟨s, hs, hst⟩ := Negotiation.checkEdge_eq_ok_iff.mp hedge
    exact h.of_not_past hmakes.keeps hs ht fun message hmessage hle hfinal =>
      .inl (Role.not_past_of_awaits hmessage hst hawaits hle hfinal)
  decided now hduty hstate h :=
    h.of_not_past ((Negotiation.Keeps.refl _).enter _ _) hstate rfl
      fun message hmessage hle _ => .inl (Role.not_past_of_decide hmessage hduty hle)
  turned := by
    intro log f reply n n' kind now hin hduty hawaits hleased hmessage hturn hkeeps h
    cases hturn with
    | onward response hcheck hset =>
      have hs := hawaits.of_target hcheck
      refine h.of_not_past hkeeps hs rfl fun message hsaying hle hfinal => ?_
      rcases Role.not_past_of_send hsaying hduty hle hfinal with rfl | hbefore
      · exact .inr (Negotiation.hasTold_of_answered hin hleased hmessage hkeeps)
      · exact .inl hbefore
    | ended failure detail hcheck hlast =>
      -- A negotiation that ends tells nothing.
      have hover : ¬ State.terminated.code ≤ State.finalized.code := by decide
      intro message hsaying hle hfinal
      exact (hover hfinal).elim
    | again failure hcheck hkind hmore =>
      have hs := hawaits.of_source hcheck
      exact h.of_not_past hkeeps hs rfl fun message hsaying hle hfinal => .inl ⟨hle, hfinal⟩

namespace Office

/-- In every run of an engine, from an empty store on, whatever is asked of it and sent to it and
whatever the replies: a record that is in a state which a message of its role leads to, or in a later
one in which nothing was terminated, tells that the message was sent for it and answered. -/
theorem own_steps_taken (e : Engine) (now : Instant) (supply : IdSupply) (acts : List Act)
    (id : String) (n : Negotiation)
    (hn : ((blank now supply).run e acts).world.ledger.find? id = some n)
    (message : Sending) (hmessage : message ∈ n.role.sayings)
    (hreached : message.target.code ≤ n.state) (hopen : n.state ≤ State.finalized.code) :
    n.id = id ∧ n.HasTold ((blank now supply).run e acts).log message := by
  have htold := (run_preserves (preserves_isTold e) now supply acts).stored id _
    (Ledger.content_of_find? hn)
  refine ⟨Ledger.id_of_find? hn, ?_⟩
  exact (htold message hmessage hreached hopen).keeps
    ((Negotiation.Keeps.refl _).withLease n.lease)

/-- A consumer that wants to negotiate, until its request is answered. -/
def untilAnswered : List Act :=
  untilSent ++ [.work .consumer (.land 0 (.answered .null))]

/-- The record in REQUESTED tells of the request. -/
theorem request_told :
    ∃ n, ((blank default).run Session.unhindered untilAnswered).world.ledger.find? "gen-0001"
        = some n
      ∧ n.state = State.requested.code
      ∧ n.HasTold ((blank default).run Session.unhindered untilAnswered).log .request := by
  have hstored : (((blank default).run Session.unhindered untilAnswered).world.ledger.find?
      "gen-0001").map (fun n => (n.state, n.role)) = some (State.requested.code, .consumer) := by
    decide +kernel
  obtain ⟨n, hn, hsays⟩ := Option.map_eq_some_iff.mp hstored
  obtain ⟨hstate, hrole⟩ := Prod.mk.inj hsays
  have hmessage : Sending.request ∈ n.role.sayings := by
    rw [hrole]
    decide
  have hreached : Sending.request.target.code ≤ n.state := by
    rw [hstate]
    decide
  have hopen : n.state ≤ State.finalized.code := by
    rw [hstate]
    decide
  exact ⟨n, hn, hstate, (own_steps_taken Session.unhindered default .counted untilAnswered
    "gen-0001" n hn .request hmessage hreached hopen).2⟩

end Office

end Parley
