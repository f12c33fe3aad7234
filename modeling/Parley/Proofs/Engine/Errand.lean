/-
  Parley.Proofs.Engine.Errand
  ────────────────────────────────
  **ONE MESSAGE IN ONE TICK.**

  A tick leaves a record alone until it leases it (`Rests.step`).  A record
  whose message is due is leased for that message, which then goes out once, and
  the reply decides whether it is due again (`Sending.Resolves`):

      ahead    the record is leased and not begun
      aloft    its message is on its way
      back     the reply was dealt with, and the duty is not to come again

  The tick passes through these stages in this order (`Stage.step`).
-/
import Parley.Proofs.Engine.Calls
import Parley.Proofs.Engine.WellFormed
import Mathlib.Data.List.Nodup

namespace Parley

open Parley.Retry

/-! ## §1. Replies to a message that is due. -/

/-- The name of a message's type. -/
def Sending.typeName : Sending → String
  | request => "ContractRequestMessage"
  | acceptance | finalization => "ContractNegotiationEventMessage"
  | verification => "ContractAgreementVerificationMessage"
  | offer => "ContractOfferMessage"
  | agreement => "ContractAgreementMessage"
  | termination => "ContractNegotiationTerminationMessage"

theorem Engine.typeName_of_payloadFor {e : Engine} {message : Sending} {n : Negotiation}
    {now : Instant} {payload : Payload} (h : e.payloadFor message n now = .ok payload) :
    payload.typeName = message.typeName := by
  cases composes_of_payloadFor h <;> rfl

/-- Whether a reply is a failure after which the message may be sent again. -/
def Reply.isRetryable : Reply → Bool
  | failed failure => !failure.isFatal
  | _ => false

/-- A record in a message's state, after some failed sends. -/
structure Negotiation.IsDue (n : Negotiation) (role : Role) (message : Sending) (failures : Nat) :
    Prop where
  role : n.role = role
  state : n.state = message.source.code
  count : n.stateCount = failures

namespace Sending

variable {message : Sending} {role : Role} {n : Negotiation}

/-- How the last reply to a message leaves the record. -/
def Settles (message : Sending) (n : Negotiation) : Reply → Prop
  | .answered _ => n.state = message.target.code ∧ n.stateCount = 0
  | .failed failure => n.state = State.terminated.code
      ∧ n.errorDetail = some (if failure.isFatal then failure.message
        else "Failed to send " ++ message.typeName ++ " to counter party: " ++ failure.message)
  | .panicked => False

/-- What a reply makes of a record whose message was due. -/
inductive Resolves (message : Sending) (role : Role) (limit failures : Nat) (reply : Reply)
    (n : Negotiation) : Prop
  | again (hretryable : reply.isRetryable = true) (hmore : failures + 1 < limit)
      (hdue : n.IsDue role message (failures + 1))
  | settled (hlast : reply.isRetryable = false ∨ limit ≤ failures + 1) (hrole : n.role = role)
      (hsettles : message.Settles n reply)

theorem Settles.withLease {reply : Reply} (h : message.Settles n reply) (lease : Option Lease) :
    message.Settles (n.withLease lease) reply := by
  cases reply <;> exact h

theorem Resolves.withLease {limit failures : Nat} {reply : Reply}
    (h : message.Resolves role limit failures reply n) (lease : Option Lease) :
    message.Resolves role limit failures reply (n.withLease lease) := by
  cases h with
  | again hretryable hmore hdue =>
    exact .again hretryable hmore ⟨hdue.role, hdue.state, hdue.count⟩
  | settled hlast hrole hsettles => exact .settled hlast hrole (hsettles.withLease lease)

theorem Resolves.role_eq {limit failures : Nat} {reply : Reply}
    (h : message.Resolves role limit failures reply n) : n.role = role := by
  cases h with
  | again hretryable hmore hdue => exact hdue.role
  | settled hlast hrole hsettles => exact hrole

/-- A settled message leaves its state for the one that it leads to, or for TERMINATED. -/
theorem Settles.state {reply : Reply} (h : message.Settles n reply) :
    n.state = message.target.code ∨ n.state = State.terminated.code := by
  cases reply with
  | answered response => exact .inl h.1
  | failed failure => exact .inr h.1
  | panicked => exact h.elim

end Sending

namespace Engine

variable {e : Engine} {f : Flight} {n : Negotiation} {role : Role} {failures : Nat}

/-- From a message's state there are edges to where its replies lead. -/
theorem checkEdge_of_source {message : Sending} (hn : n.state = message.source.code)
    {target : State}
    (htarget : target = message.source ∨ target = message.target ∨ target = .terminated) :
    n.checkEdge target = .ok () := by
  refine Negotiation.checkEdge_eq_ok_iff.mpr ⟨message.source, hn, ?_⟩
  rcases htarget with rfl | rfl | rfl <;> cases message <;> rfl

/-- A failure that ends the attempts. -/
theorem upshot_of_last {failure : DispatchFailure} (hn : n.IsDue role f.sending failures)
    (htype : f.message.typeName = f.sending.typeName)
    (hlast : failure.isFatal = true ∨ e.retry.limit ≤ failures + 1) (now : Instant) :
    ∃ n', e.upshot f n now (.failed failure) = some (.terminated, n')
      ∧ n'.id = n.id ∧ n'.role = role ∧ f.sending.Settles n' (.failed failure) := by
  have hword : e.lastWord? f n (.failed failure) = some (if failure.isFatal then failure.message
      else "Failed to send " ++ f.sending.typeName ++ " to counter party: "
        ++ failure.message) := by
    unfold lastWord?
    simp only
    by_cases hfatal : failure.isFatal = true
    · rw [if_pos hfatal, if_pos hfatal]
    · have hexhausted : e.retry.isExhausted n = true := by
        unfold RetryPolicy.isExhausted
        rw [hn.count]
        exact decide_eq_true (hlast.resolve_left hfatal)
      have hgivenUp : givenUp f failure = "Failed to send " ++ f.sending.typeName
          ++ " to counter party: " ++ failure.message := by
        rw [← htype]
        rfl
      rw [if_neg hfatal, if_neg hfatal, if_pos hexhausted, hgivenUp]
  rw [upshot_of_lastWord hword,
    moveTo_of_checkEdge (checkEdge_of_source hn.state (.inr (.inr rfl)))]
  exact ⟨_, rfl, rfl, hn.role, rfl, rfl⟩

/-- What a reply makes of the record whose message was due. -/
theorem upshot_of_isDue (hn : n.IsDue role f.sending failures)
    (htype : f.message.typeName = f.sending.typeName)
    (hset : settlesAgreement f = true → n.agreement = none) {reply : Reply}
    (hreply : reply ≠ .panicked) (now : Instant) :
    ∃ kind n', e.upshot f n now reply = some (kind, n') ∧ n'.id = n.id
      ∧ f.sending.Resolves role e.retry.limit failures reply n' := by
  cases reply with
  | panicked => exact absurd rfl hreply
  | answered response =>
    have hedge := checkEdge_of_source hn.state (.inr (.inl rfl))
    obtain ⟨hstate, hrole⟩ : (gained f n response).state = f.sending.source.code
        ∧ (gained f n response).role = role := by
      rw [← hn.state, ← hn.role]
      unfold gained
      split
      · unfold correlate
        split <;> exact ⟨rfl, rfl⟩
      · exact ⟨rfl, rfl⟩
      · exact ⟨rfl, rfl⟩
    refine ⟨_, _, upshot_answered e response now hedge hset, id_gained f n response,
      .settled (.inl rfl) hrole ⟨rfl, ?_⟩⟩
    have hne : (gained f n response).state ≠ f.sending.target.code := by
      rw [hstate]
      cases f.sending <;> decide
    exact if_neg hne
  | failed failure =>
    by_cases hlast : failure.isFatal = true ∨ e.retry.limit ≤ failures + 1
    · obtain ⟨n', hup, hid, hrole, hsettles⟩ := upshot_of_last hn htype hlast now
      refine ⟨_, n', hup, hid, .settled ?_ hrole hsettles⟩
      exact hlast.imp_left fun hfatal => by rw [Reply.isRetryable, hfatal]; rfl
    · obtain ⟨hkind, hmore⟩ := not_or.mp hlast
      have hexhausted : ¬ e.retry.isExhausted n = true := by
        unfold RetryPolicy.isExhausted
        rw [hn.count, decide_eq_true_iff]
        exact hmore
      have hup : e.upshot f n now (.failed failure)
          = some (f.sending.source, n.enter f.sending.source.code now) := by
        unfold upshot
        simp only
        rw [if_neg hkind, if_neg hexhausted,
          moveTo_of_checkEdge (checkEdge_of_source hn.state (.inl rfl))]
        rfl
      refine ⟨_, _, hup, rfl, .again ?_ (Nat.lt_of_not_le hmore) ⟨hn.role, rfl, ?_⟩⟩
      · rw [Reply.isRetryable, Bool.eq_false_iff.mpr hkind]
        rfl
      · show (if n.state = f.sending.source.code then n.stateCount + 1 else 0) = failures + 1
        rw [if_pos hn.state, hn.count]

end Engine

/-! ## §2. The duties of a tick. -/

namespace Role

variable {role : Role} {message : Sending} {duty : Duty}

/-- No state has two duties of one role. -/
theorem nodup_duties (role : Role) : (role.duties.map Duty.state).Nodup := by
  cases role <;> decide

/-- A message's state has no other duty. -/
theorem duty_of_state (hmessage : Duty.send message ∈ role.duties) (hduty : duty ∈ role.duties)
    (hstate : duty.state = message.source) : duty = .send message :=
  List.inj_on_of_nodup_map (nodup_duties role) hduty hmessage hstate

/-- Where a message leads to nothing more is to be done. -/
theorem state_ne_of_send (hmessage : Duty.send message ∈ role.duties)
    (hduty : duty ∈ role.duties) : duty.state ≠ message.target ∧ duty.state ≠ .terminated := by
  have h : ∀ duty ∈ role.duties, Duty.send message ∈ role.duties →
      duty.state ≠ message.target ∧ duty.state ≠ .terminated := by
    cases role <;> cases message <;> decide
  exact h duty hduty hmessage

end Role

/-- While a message is due no other duty is. -/
theorem Negotiation.IsDue.duty {n : Negotiation} {role : Role} {message : Sending}
    {failures : Nat} (h : n.IsDue role message failures)
    (hmessage : Duty.send message ∈ role.duties) {duty : Duty} (hduty : duty ∈ role.duties)
    (hstate : n.state = duty.state.code) : duty = .send message :=
  Role.duty_of_state hmessage hduty (State.code_injective (hstate.symm.trans h.state))

/-- When a message is settled, nothing more is to be done. -/
theorem Sending.Settles.state_ne {message : Sending} {n : Negotiation} {reply : Reply}
    (h : message.Settles n reply) {role : Role} (hmessage : Duty.send message ∈ role.duties)
    {duty : Duty} (hduty : duty ∈ role.duties) : n.state ≠ duty.state.code := by
  obtain ⟨htarget, hterminated⟩ := Role.state_ne_of_send hmessage hduty
  intro hcode
  rcases h.state with hstate | hstate
  · exact htarget (State.code_injective (hcode.symm.trans hstate))
  · exact hterminated (State.code_injective (hcode.symm.trans hstate))

namespace Session

variable {e : Engine} {s : Session} {w : World} {r r' : Round}

theorem lookAfter_round {role : Role} {duties : List Duty}
    (hr' : (lookAfter e w role duties).round = some r') :
    r'.role = role ∧ r'.airborne = [] ∧ r'.duty :: r'.later = duties := by
  cases duties with
  | nil => cases hr'
  | cons duty later =>
    cases hr'
    exact ⟨rfl, rfl, rfl⟩

theorem beginOne_round {n : Negotiation} {rest : List Negotiation}
    (hr' : (beginOne e w r n rest).round = some r') :
    r'.role = r.role ∧ r'.duty = r.duty ∧ r'.later = r.later ∧ r'.ahead = rest
      ∧ ∀ f ∈ r.airborne, f ∈ r'.airborne := by
  unfold beginOne at hr'
  split at hr'
  · cases hr'
    exact ⟨rfl, rfl, rfl, rfl, fun f hf => hf⟩
  · cases hr'
    exact ⟨rfl, rfl, rfl, rfl, fun f hf => List.mem_append_left _ hf⟩

theorem landOne_round {k : Nat} {reply : Reply}
    (hr' : (landOne e w r k reply).round = some r') :
    r'.role = r.role ∧ r'.duty = r.duty ∧ r'.later = r.later ∧ r'.ahead = r.ahead
      ∧ r'.airborne = r.airborne.eraseIdx k := by
  unfold landOne at hr'
  cases hk : r.airborne[k]? with
  | none =>
    rw [hk] at hr'
    cases hr'
    exact ⟨rfl, rfl, rfl, rfl, (List.eraseIdx_of_length_le (List.getElem?_eq_none_iff.mp hk)).symm⟩
  | some f =>
    rw [hk] at hr'
    cases hr'
    exact ⟨rfl, rfl, rfl, rfl, rfl⟩

/-- The duties of a tick come in the role's order, and none twice. -/
def IsOrdered (s : Session) : Prop :=
  ∀ r, s.round = some r → (r.duty :: r.later) <:+ r.role.duties

theorem step_isOrdered (h : s.IsOrdered) (move : Move) : (s.step e move).IsOrdered := by
  intro r' hr'
  have hstep := step_cases e s move
  generalize s.step e move = s' at hstep hr'
  cases hstep with
  | idle => exact h r' hr'
  | called c hmove hopen => exact h r' hr'
  | started role hmove hr =>
    obtain ⟨hrole, _, hduties⟩ := lookAfter_round hr'
    have hall : r'.duty :: r'.later = r'.role.duties := by rw [hrole, hduties]
    exact hall ▸ List.suffix_refl _
  | worked r s' hr hround =>
    have hbefore := h r hr
    cases hround with
    | idle =>
      cases hr'
      exact hbefore
    | begun n rest hmove hahead hroom =>
      obtain ⟨hrole, hduty, hlater, _⟩ := beginOne_round hr'
      rw [hrole, hduty, hlater]
      exact hbefore
    | landed k reply hmove =>
      obtain ⟨hrole, hduty, hlater, _⟩ := landOne_round hr'
      rw [hrole, hduty, hlater]
      exact hbefore
    | next hmove hdone =>
      obtain ⟨hrole, _, hduties⟩ := lookAfter_round hr'
      rw [hrole, hduties]
      exact (List.suffix_cons r.duty r.later).trans hbefore

/-- While a tick goes on no duty is added to it. -/
theorem later_of_step {move : Move} (hr : s.round = some r)
    (hr' : (s.step e move).round = some r') : ∀ duty ∈ r'.later, duty ∈ r.later := by
  have hstep := step_cases e s move
  generalize s.step e move = s' at hstep hr'
  cases hstep with
  | idle | called c hmove hopen =>
    cases hr.symm.trans hr'
    exact fun duty hduty => hduty
  | started role hmove hnone =>
    rw [hnone] at hr
    cases hr
  | worked r₀ s' hr₀ hround =>
    cases hr₀.symm.trans hr
    cases hround with
    | idle =>
      cases hr'
      exact fun duty hduty => hduty
    | begun n rest hmove hahead hroom =>
      rw [(beginOne_round hr').2.2.1]
      exact fun duty hduty => hduty
    | landed k reply hmove =>
      rw [(landOne_round hr').2.2.1]
      exact fun duty hduty => hduty
    | next hmove hdone =>
      rw [← (lookAfter_round hr').2.2]
      exact fun duty hduty => List.mem_cons_of_mem _ hduty

/-- A duty that is looked after is not to come again. -/
theorem IsOrdered.not_later (h : s.IsOrdered) (hr : s.round = some r) : r.duty ∉ r.later := by
  have hnodup := (List.Nodup.of_map Duty.state (Role.nodup_duties r.role)).sublist
    (h r hr).sublist
  exact (List.nodup_cons.mp hnodup).1

/-! ## §3. Single moves. -/

theorem step_land (hr : s.round = some r) (k : Nat) (reply : Reply) :
    s.step e (.land k reply) = landOne e s.world r k reply := by
  simp only [Session.step, hr, stepRound]

/-- A record that a tick just leased is in the state of the duty. -/
theorem lookAfter_state (hw : w.IsOrderly e.handle.holder) {role : Role} {duties : List Duty}
    (hduties : ∀ duty ∈ duties, duty ∈ role.duties) {id : String} {n : Negotiation}
    (hn : w.ledger.content id = some n)
    (hr' : (lookAfter e w role duties).round = some r') {m : Negotiation} (hm : m ∈ r'.members)
    (hid : m.id = id) : n.state = r'.duty.state.code ∧ r'.duty ∈ duties := by
  obtain ⟨hcontent, _, hcoherent⟩ := lookAfter_coherent hw hduties
  have hleased := (lookAfter_members hw role duties hr').2 m hm
  rw [hcontent, hid, hn] at hleased
  cases hleased
  refine ⟨((hcoherent.round r' hr').leased m hm).state, ?_⟩
  rw [← (lookAfter_round hr').2.2]
  exact List.mem_cons_self

/-- To begin a record leaves the others as they are stored. -/
theorem content_beginOne_of_ne (h : s.IsCoherent e) (hr : s.round = some r) {n : Negotiation}
    {rest : List Negotiation} (hahead : r.ahead = n :: rest) {id : String} (hne : n.id ≠ id) :
    (beginOne e s.world r n rest).world.ledger.content id = s.world.ledger.content id := by
  have hn : n ∈ r.members := by simp [Round.members, hahead]
  obtain ⟨hbegin, _⟩ := e.begin_effect h.orderly.held r.role r.duty
    ((h.round r hr).leased n hn).sound.offered
  unfold beginOne
  generalize e.begin .direct r.role r.duty n s.world = result at hbegin ⊢
  obtain ⟨begun, w'⟩ := result
  cases hbegin with
  | parked hguard hb hputs =>
    subst hb
    exact hputs.content_of_ne hne
  | decided source target hduty hedge hb hputs =>
    subst hb
    exact hputs.content_of_ne hne
  | undecided source target hduty hedge hb hsame =>
    subst hb
    exact hsame.content id
  | delayed message hduty hdelay hb hsame =>
    subst hb
    exact hsame.content id
  | sending message payload hduty hguard hpayload hb hsame =>
    subst hb
    have hw : w' = s.world := hsame
    rw [hw]

/-- The message goes out for a record that is neither held back nor to be delayed. -/
theorem beginOne_of_ready (h : s.IsCoherent e) (hr : s.round = some r) {n : Negotiation}
    {rest : List Negotiation} (hahead : r.ahead = n :: rest) {message : Sending}
    (hduty : r.duty = .send message) (hguard : e.guard n = false)
    (hdelay : e.retry.shouldDelay n s.world.now = false) :
    ∃ f, f.leased = n ∧ beginOne e s.world r n rest
      = ⟨s.world, some { r with ahead := rest, airborne := r.airborne ++ [f] }⟩ := by
  have hn : n ∈ r.members := by simp [Round.members, hahead]
  obtain ⟨payload, hpayload⟩ := Engine.payloadFor_of_offers e message
    ((h.round r hr).leased n hn).sound.offered s.world.now
  have hbegin : e.begin .direct r.role r.duty n s.world
      = (.sending ⟨message, n, .forNegotiation n payload⟩, s.world) := by
    rw [Engine.begin_direct h.orderly.held, hguard, if_neg Bool.false_ne_true, hduty]
    simp only [Engine.undertaken, hpayload, hdelay, Bool.false_eq_true, if_false]
  refine ⟨⟨message, n, .forNegotiation n payload⟩, rfl, ?_⟩
  unfold beginOne
  rw [hbegin]

/-- A reply leaves the other records as they are stored. -/
theorem content_landOne_of_ne (h : s.IsCoherent e) (r : Round) {k : Nat} (reply : Reply)
    {id : String} (hne : ∀ f, r.airborne[k]? = some f → f.leased.id ≠ id) :
    (landOne e s.world r k reply).world.ledger.content id = s.world.ledger.content id := by
  unfold landOne
  cases hk : r.airborne[k]? with
  | none => rfl
  | some f =>
    obtain ⟨hland, _⟩ := e.land_effect h.orderly.held r.role f reply
    simp only
    cases hland with
    | gone hn hsame => rw [hsame]
    | idle n hn hup hcounts hsame => exact hsame.content id
    | turned n n' kind hn hup hcounts hputs =>
      refine hputs.content_of_ne ?_
      rw [(Engine.turn_of_upshot hup).id, Ledger.id_of_content hn]
      exact hne f hk

/-- The reply to a message that is due resolves it. -/
theorem landOne_resolves (h : s.IsCoherent e) (hr : s.round = some r) {k : Nat} {f : Flight}
    (hk : r.airborne[k]? = some f) {n : Negotiation} {role : Role} {failures : Nat}
    (hn : s.world.ledger.content f.leased.id = some n) (hwell : n.IsWellFormed)
    (hdue : n.IsDue role f.sending failures) {reply : Reply} (hreply : reply ≠ .panicked) :
    ∃ n', (landOne e s.world r k reply).world.ledger.content f.leased.id = some n'
      ∧ f.sending.Resolves role e.retry.limit failures reply n' := by
  obtain ⟨_, payload, now, hmessage, hpayload⟩ :=
    (h.round r hr).flights f (List.mem_of_getElem? hk)
  have htype : f.message.typeName = f.sending.typeName := by
    rw [hmessage]
    exact Engine.typeName_of_payloadFor hpayload
  -- Nothing was agreed on before the agreement is answered.
  have hset : Engine.settlesAgreement f = true → n.agreement = none := by
    intro hsettles
    unfold Engine.settlesAgreement at hsettles
    rw [Bool.and_eq_true, decide_eq_true_iff] at hsettles
    obtain ⟨state, hstate⟩ := hwell
    have hagreeing : state = .agreeing := by
      refine State.code_injective (hstate.state.symm.trans (hdue.state.trans ?_))
      rw [hsettles.1]
      rfl
    exact hstate.unsettled (by rw [hagreeing]; decide)
  obtain ⟨kind, n', hup, hid, hresolves⟩ :=
    e.upshot_of_isDue hdue htype hset hreply s.world.now
  obtain ⟨hland, _⟩ := e.land_effect h.orderly.held r.role f reply
  unfold landOne
  rw [hk]
  simp only
  cases hland with
  | gone hgone hsame =>
    rw [hn] at hgone
    cases hgone
  | idle current hcurrent hnone hcounts hsame =>
    cases hcurrent.symm.trans hn
    rw [hup] at hnone
    cases hnone
  | turned current m kind' hcurrent hsome hcounts hputs =>
    cases hcurrent.symm.trans hn
    cases hsome.symm.trans hup
    refine ⟨_, ?_, hresolves.withLease none⟩
    have hself := hputs.content_self
    rw [hid, Ledger.id_of_content hn] at hself
    exact hself

/-! ## §4. Records that a tick does not have. -/

/-- The replies to messages about a record that a move deals with. -/
def settledFor (s : Session) (id : String) (move : Move) : List (Flight × Reply) :=
  (s.settled move).filter fun p => p.1.leased.id = id

/-- A tick does not have a record. -/
def Rests (s : Session) (id : String) : Prop :=
  ∀ r, s.round = some r → ∀ m ∈ r.members, m.id ≠ id

/-- The duties that are still to be looked after, in the tick that is under way or in the next. -/
def toCome (s : Session) (role : Role) : List Duty :=
  match s.round with
  | none => role.duties
  | some r => r.later

/-- From one session to the next a record is leased for a duty that was to come, and the duty is that
of its state. -/
def Leases (s s' : Session) (role : Role) (n : Negotiation) (id : String) : Prop :=
  ∃ r' m, s'.round = some r' ∧ m ∈ r'.ahead ∧ m.id = id
    ∧ r'.duty ∈ s.toCome role ∧ n.state = r'.duty.state.code

variable {role : Role} {id : String} {n : Negotiation}

theorem settledFor_eq_nil {move : Move} (hmove : ∀ k reply, move ≠ .land k reply) :
    s.settledFor id move = [] := by
  unfold settledFor settled
  split
  · exact (hmove _ _ rfl).elim
  · rfl

theorem settledFor_land_of_ne (hr : s.round = some r) {k : Nat}
    (hne : ∀ f, r.airborne[k]? = some f → f.leased.id ≠ id) (reply : Reply) :
    s.settledFor id (.land k reply) = [] := by
  unfold settledFor settled
  rw [hr]
  cases hk : r.airborne[k]? with
  | none => simp [hk]
  | some f => simp [hk, hne f hk]

/-- What is settled was on its way. -/
theorem mem_settledFor {move : Move} {p : Flight × Reply} (hp : p ∈ s.settledFor id move) :
    ∃ r, s.round = some r ∧ p.1 ∈ r.airborne ∧ p.1.leased.id = id := by
  cases move with
  | land k reply =>
    obtain ⟨hp, hid⟩ := List.mem_filter.mp hp
    unfold settled at hp
    cases hr : s.round with
    | none =>
      rw [hr] at hp
      exact absurd hp List.not_mem_nil
    | some r =>
      rw [hr] at hp
      obtain ⟨f, hf, rfl⟩ := List.mem_map.mp hp
      have hk : r.airborne[k]? = some f := Option.mem_toList.mp hf
      exact ⟨r, rfl, List.mem_of_getElem? hk, of_decide_eq_true hid⟩
  | call c | start role | begin | next =>
    rw [settledFor_eq_nil fun _ _ => Move.noConfusion] at hp
    exact absurd hp List.not_mem_nil

/-- A tick that does not have a record has no message about it on its way. -/
theorem Rests.airborne (h : s.Rests id) (hr : s.round = some r) {k : Nat} {f : Flight}
    (hk : r.airborne[k]? = some f) : f.leased.id ≠ id :=
  h r hr f.leased (List.mem_append_right _ (List.mem_map_of_mem (List.mem_of_getElem? hk)))

/-- Nothing is settled for a record that the tick does not have. -/
theorem Rests.settledFor_eq_nil (h : s.Rests id) (move : Move) : s.settledFor id move = [] := by
  refine List.eq_nil_iff_forall_not_mem.mpr fun p hp => ?_
  obtain ⟨r, hr, hf, hid⟩ := mem_settledFor hp
  exact h r hr p.1.leased (List.mem_append_right _ (List.mem_map_of_mem hf)) hid

theorem toCome_subset (h : s.IsCoherent e) (hrole : ∀ r, s.round = some r → r.role = role) :
    ∀ duty ∈ s.toCome role, duty ∈ role.duties := by
  unfold toCome
  cases hr : s.round with
  | none => exact fun duty hduty => hduty
  | some r => exact hrole r hr ▸ (h.round r hr).later

/-- A batch is leased for the next duty.  The record stays as it is stored, and is in the batch only
if it is in the state of the duty. -/
theorem lookAfter_leases (h : s.IsCoherent e)
    (hrole : ∀ r, s.round = some r → r.role = role) (hn : s.world.ledger.content id = some n) :
    (lookAfter e s.world role (s.toCome role)).world.ledger.content id = some n
      ∧ ((lookAfter e s.world role (s.toCome role)).Rests id
        ∨ s.Leases (lookAfter e s.world role (s.toCome role)) role n id) := by
  have hduties := toCome_subset h hrole
  refine ⟨by rw [(lookAfter_coherent h.orderly hduties).1, hn], ?_⟩
  by_cases hrests : (lookAfter e s.world role (s.toCome role)).Rests id
  · exact .inl hrests
  · unfold Rests at hrests
    push Not at hrests
    obtain ⟨r', hr', m, hm, hid⟩ := hrests
    obtain ⟨hstate, hin⟩ := lookAfter_state h.orderly hduties hn hr' hm hid
    -- In a batch that was just leased nothing is on its way.
    rw [Round.members, (lookAfter_round hr').2.1, List.map_nil, List.append_nil] at hm
    exact .inr ⟨r', m, hr', hm, hid, hin, hstate⟩

/-- Whatever a tick does next, a record that it does not have stays as it is; the tick may come to
lease it. -/
theorem Rests.step (h : s.IsCoherent e) (hrole : ∀ r, s.round = some r → r.role = role)
    (hrests : s.Rests id) (hn : s.world.ledger.content id = some n) (chore : Chore) :
    (s.step e (chore.move role)).world.ledger.content id = some n
      ∧ ((s.step e (chore.move role)).Rests id
        ∨ s.Leases (s.step e (chore.move role)) role n id) := by
  have hleases := lookAfter_leases h hrole hn
  have hstep := step_cases e s (chore.move role)
  generalize s.step e (chore.move role) = s' at hstep
  cases hstep with
  | idle => exact ⟨hn, .inl hrests⟩
  | called c hmove hopen => exact (chore.move_ne_call role c hmove).elim
  | started other hmove hr =>
    have hother : other = role := by
      cases chore <;> cases hmove
      rfl
    have hcome : s.toCome role = other.duties := by
      unfold toCome
      rw [hr, hother]
    rw [hcome, ← hother] at hleases
    exact hother ▸ hleases
  | worked r s' hr hround =>
    cases hround with
    | idle => exact ⟨hn, .inl fun r' hr' => hrests r' (hr.trans hr')⟩
    | begun m rest hmove hahead hroom =>
      -- The tick begins a record that it has, so another one.
      have hne : m.id ≠ id := hrests r hr m (by simp [Round.members, hahead])
      refine ⟨(content_beginOne_of_ne h hr hahead hne).trans hn, .inl fun r' hr' k hk => ?_⟩
      exact hrests r hr k ((beginOne_members h hr hahead hr').2 k hk).1
    | landed k reply hmove =>
      have hne (f : Flight) (hk : r.airborne[k]? = some f) : f.leased.id ≠ id :=
        hrests.airborne hr hk
      refine ⟨(content_landOne_of_ne h r reply hne).trans hn, .inl fun r' hr' m hm => ?_⟩
      exact hrests r hr m ((landOne_members h hr k reply hr').2 m hm).1
    | next hmove hdone =>
      have hcome : s.toCome role = r.later := by
        unfold toCome
        rw [hr]
      rw [hcome, ← hrole r hr] at hleases
      exact hrole r hr ▸ hleases

/-! ## §5. The way of a record through a tick. -/

/-- How far a tick is with a record that it has leased because its message is due, after some failed
sends before, and the replies to that message in this tick. -/
inductive Stage (e : Engine) (s : Session) (role : Role) (message : Sending) (id : String)
    (failures : Nat) : List (Flight × Reply) → Prop
  | ahead (n : Negotiation) (r : Round) (m : Negotiation)
      (hn : s.world.ledger.content id = some n) (hdue : n.IsDue role message failures)
      (hr : s.round = some r) (hduty : r.duty = .send message) (hm : m ∈ r.ahead)
      (hid : m.id = id) : Stage e s role message id failures []
  | aloft (n : Negotiation) (r : Round) (f : Flight)
      (hn : s.world.ledger.content id = some n) (hdue : n.IsDue role message failures)
      (hr : s.round = some r) (hduty : r.duty = .send message) (hf : f ∈ r.airborne)
      (hid : f.leased.id = id) : Stage e s role message id failures []
  | back (n : Negotiation) (f : Flight) (reply : Reply)
      (hn : s.world.ledger.content id = some n) (hsending : f.sending = message)
      (hresolves : message.Resolves role e.retry.limit failures reply n) (hrests : s.Rests id)
      (hover : ∀ r, s.round = some r → Duty.send message ∉ r.later) :
      Stage e s role message id failures [(f, reply)]

variable {message : Sending} {failures : Nat} {replies : List (Flight × Reply)}

/-- The stage is told by the record and the tick alone. -/
theorem Stage.congr {s' : Session} (h : Stage e s role message id failures replies)
    (hcontent : s'.world.ledger.content id = s.world.ledger.content id)
    (hround : s'.round = s.round) : Stage e s' role message id failures replies := by
  cases h with
  | ahead n r m hn hdue hr hduty hm hid =>
    exact .ahead n r m (hcontent.trans hn) hdue (hround.trans hr) hduty hm hid
  | aloft n r f hn hdue hr hduty hf hid =>
    exact .aloft n r f (hcontent.trans hn) hdue (hround.trans hr) hduty hf hid
  | back n f reply hn hsending hresolves hrests hover =>
    exact .back n f reply (hcontent.trans hn) hsending hresolves
      (fun r hr => hrests r (hround ▸ hr)) fun r hr => hover r (hround ▸ hr)

theorem Stage.stored (h : Stage e s role message id failures replies) :
    ∃ n, s.world.ledger.content id = some n ∧ n.role = role := by
  cases h with
  | ahead n r m hn hdue hr hduty hm hid => exact ⟨n, hn, hdue.role⟩
  | aloft n r f hn hdue hr hduty hf hid => exact ⟨n, hn, hdue.role⟩
  | back n f reply hn hsending hresolves hrests hover => exact ⟨n, hn, hresolves.role_eq⟩

/-- A record whose message is due is leased for that. -/
theorem Stage.of_leases (hmessage : Duty.send message ∈ role.duties)
    (hduties : ∀ duty ∈ s.toCome role, duty ∈ role.duties) {s' : Session}
    (hn : s'.world.ledger.content id = some n) (hdue : n.IsDue role message failures)
    (hleases : s.Leases s' role n id) : Stage e s' role message id failures [] := by
  obtain ⟨r', m, hr', hm, hid, hin, hstate⟩ := hleases
  exact .ahead n r' m hn hdue hr' (hdue.duty hmessage (hduties _ hin) hstate) hm hid

/-- A record whose message is resolved calls for no duty but the message's own. -/
theorem not_leases_of_resolves (hmessage : Duty.send message ∈ role.duties)
    (hduties : ∀ duty ∈ s.toCome role, duty ∈ role.duties) {s' : Session} {limit : Nat}
    {reply : Reply} (hresolves : message.Resolves role limit failures reply n)
    (hover : Duty.send message ∉ s.toCome role) : ¬ s.Leases s' role n id := by
  rintro ⟨r', m, hr', hm, hid, hin, hstate⟩
  cases hresolves with
  | again hretryable hmore hdue =>
    rw [hdue.duty hmessage (hduties _ hin) hstate] at hin
    exact hover hin
  | settled hlast hrole hsettles => exact hsettles.state_ne hmessage (hduties _ hin) hstate

/-- The next record is begun. -/
theorem Stage.begun (h : s.IsCoherent e) (hr : s.round = some r) {k : Negotiation}
    {rest : List Negotiation} (hahead : r.ahead = k :: rest) {m : Negotiation}
    (hn : s.world.ledger.content id = some n) (hdue : n.IsDue role message failures)
    (hduty : r.duty = .send message) (hm : m ∈ r.members) (hid : m.id = id)
    (hready : k.id = id → e.guard k = false ∧ e.retry.shouldDelay k s.world.now = false) :
    Stage e (beginOne e s.world r k rest) role message id failures [] := by
  by_cases hne : k.id = id
  -- It is the record's turn.
  · obtain ⟨hguard, hdelay⟩ := hready hne
    obtain ⟨f, hf, hbegin⟩ := beginOne_of_ready h hr hahead hduty hguard hdelay
    rw [hbegin]
    exact .aloft n _ f hn hdue rfl hduty (List.mem_append_right _ List.mem_cons_self)
      (by rw [hf]; exact hne)
  · have hn' := (content_beginOne_of_ne h hr hahead hne).trans hn
    obtain ⟨r', hr'⟩ : ∃ r', (beginOne e s.world r k rest).round = some r' := by
      unfold beginOne
      split <;> exact ⟨_, rfl⟩
    obtain ⟨_, hduty', _, hahead', hair⟩ := beginOne_round hr'
    rcases List.mem_append.mp hm with hm | hm
    · have hrest : m ∈ r'.ahead := by
        rw [hahead']
        rw [hahead] at hm
        rcases List.mem_cons.mp hm with rfl | hm
        · exact absurd hid hne
        · exact hm
      exact .ahead n r' m hn' hdue hr' (hduty'.trans hduty) hrest hid
    · obtain ⟨f, hf, rfl⟩ := List.mem_map.mp hm
      exact .aloft n r' f hn' hdue hr' (hduty'.trans hduty) (hair f hf) hid

/-- A reply to another message arrives. -/
theorem Stage.landed_other (h : s.IsCoherent e) {k : Nat} (reply : Reply) {m : Negotiation}
    (hn : s.world.ledger.content id = some n) (hdue : n.IsDue role message failures)
    (hduty : r.duty = .send message) (hm : m ∈ r.members) (hid : m.id = id)
    (hne : ∀ f, r.airborne[k]? = some f → f.leased.id ≠ id) :
    Stage e (landOne e s.world r k reply) role message id failures [] := by
  have hn' := (content_landOne_of_ne h r reply hne).trans hn
  obtain ⟨r', hr'⟩ : ∃ r', (landOne e s.world r k reply).round = some r' := by
    unfold landOne
    split <;> exact ⟨_, rfl⟩
  obtain ⟨_, hduty', _, hahead', hair⟩ := landOne_round hr'
  rcases List.mem_append.mp hm with hm | hm
  · exact .ahead n r' m hn' hdue hr' (hduty'.trans hduty) (hahead' ▸ hm) hid
  · obtain ⟨f, hf, rfl⟩ := List.mem_map.mp hm
    have hstill : f ∈ r'.airborne := by
      rw [hair]
      obtain ⟨i, hi⟩ := List.mem_iff_getElem?.mp hf
      refine List.mem_eraseIdx_iff_getElem?.mpr ⟨i, ?_, hi⟩
      rintro rfl
      exact hne f hi hid
    exact .aloft n r' f hn' hdue hr' (hduty'.trans hduty) hstill hid

/-- The reply to the record's message arrives. -/
theorem Stage.landed_own (h : s.IsCoherent e) (hord : s.IsOrdered) (hr : s.round = some r)
    {k : Nat} {f : Flight} (hk : r.airborne[k]? = some f)
    (hn : s.world.ledger.content f.leased.id = some n) (hwell : n.IsWellFormed)
    (hdue : n.IsDue role message failures) (hduty : r.duty = .send message) {reply : Reply}
    (hreply : reply ≠ .panicked) :
    Stage e (landOne e s.world r k reply) role message f.leased.id failures [(f, reply)] := by
  have hround := h.round r hr
  have hsending : f.sending = message :=
    Duty.send.inj ((hround.flights f (List.mem_of_getElem? hk)).1.symm.trans hduty)
  subst hsending
  obtain ⟨n', hn', hresolves⟩ := landOne_resolves h hr hk hn hwell hdue hreply
  refine .back n' f reply hn' rfl hresolves (fun r' hr' m hm hid => ?_) fun r' hr' => ?_
  · have hrest : r' = { r with airborne := r.airborne.eraseIdx k } := by
      unfold landOne at hr'
      rw [hk] at hr'
      exact (Option.some.inj hr').symm
    subst hrest
    exact hround.id_ne_of_airborne hk m hm hid.symm
  · rw [(landOne_round hr').2.2.1, ← hduty]
    exact hord.not_later hr

/-- While the record is ahead, or its message is on its way. -/
theorem Stage.of_member (h : s.IsCoherent e) (hord : s.IsOrdered) (hr : s.round = some r)
    {m : Negotiation} (hn : s.world.ledger.content id = some n) (hwell : n.IsWellFormed)
    (hdue : n.IsDue role message failures) (hduty : r.duty = .send message)
    (hm : m ∈ r.members) (hid : m.id = id)
    (hsame : Stage e s role message id failures []) {chore : Chore} (hchore : chore ≠ .start)
    (hready : ∀ k ∈ r.ahead, k.id = id →
      e.guard k = false ∧ e.retry.shouldDelay k s.world.now = false)
    (hreply : ∀ p ∈ s.settledFor id (chore.move role), p.2 ≠ .panicked) :
    Stage e (s.step e (chore.move role)) role message id failures
      (s.settledFor id (chore.move role)) := by
  have hsame : Stage e ⟨s.world, some r⟩ role message id failures [] := hsame.congr rfl hr.symm
  cases chore with
  | start => exact absurd rfl hchore
  | begin =>
    rw [settledFor_eq_nil fun _ _ => Move.noConfusion]
    show Stage e (s.step e .begin) role message id failures []
    simp only [Session.step, hr, stepRound]
    cases hahead : r.ahead with
    | nil => exact hsame
    | cons k rest =>
      simp only
      split
      · exact .begun h hr hahead hn hdue hduty hm hid
          (hready k (hahead ▸ List.mem_cons_self))
      · exact hsame
  | next =>
    rw [settledFor_eq_nil fun _ _ => Move.noConfusion]
    show Stage e (s.step e .next) role message id failures []
    simp only [Session.step, hr, stepRound]
    rw [if_neg (List.ne_nil_of_mem hm)]
    exact hsame
  | land k reply =>
    show Stage e (s.step e (.land k reply)) role message id failures
      (s.settledFor id (.land k reply))
    rw [step_land hr k reply]
    by_cases hne : ∀ f, r.airborne[k]? = some f → f.leased.id ≠ id
    · rw [settledFor_land_of_ne hr hne]
      exact .landed_other h reply hn hdue hduty hm hid hne
    · push Not at hne
      obtain ⟨f, hk, rfl⟩ := hne
      have hsettled : s.settledFor f.leased.id (.land k reply) = [(f, reply)] := by
        unfold settledFor settled
        rw [hr]
        simp [hk]
      have hpanic : reply ≠ .panicked :=
        hreply (f, reply) (by rw [Chore.move, hsettled]; exact List.mem_cons_self)
      rw [hsettled]
      exact .landed_own h hord hr hk hn hwell hdue hduty hpanic

/-- The message is not sent again in the tick. -/
theorem Stage.of_back (h : s.IsCoherent e) (hmessage : Duty.send message ∈ role.duties)
    (hrole : ∀ r, s.round = some r → r.role = role) {f : Flight} {reply : Reply}
    (hn : s.world.ledger.content id = some n) (hsending : f.sending = message)
    (hresolves : message.Resolves role e.retry.limit failures reply n) (hrests : s.Rests id)
    (hover : ∀ r, s.round = some r → Duty.send message ∉ r.later) {chore : Chore}
    (hchore : chore ≠ .start) :
    Stage e (s.step e (chore.move role)) role message id failures
      ([(f, reply)] ++ s.settledFor id (chore.move role)) := by
  obtain ⟨hn', hnext⟩ := hrests.step h hrole hn chore
  rw [hrests.settledFor_eq_nil, List.append_nil]
  cases hr : s.round with
  | none =>
    have hstep : s.step e (chore.move role) = s := by
      cases chore with
      | start => exact absurd rfl hchore
      | begin | land k reply | next => simp only [Session.step, Chore.move, hr]
    rw [hstep]
    exact .back n f reply hn hsending hresolves hrests hover
  | some r =>
    have hcome : s.toCome role = r.later := by
      unfold toCome
      rw [hr]
    have hnot : ¬ s.Leases (s.step e (chore.move role)) role n id :=
      not_leases_of_resolves hmessage (toCome_subset h hrole) hresolves (hcome ▸ hover r hr)
    exact .back n f reply hn' hsending hresolves (hnext.resolve_right hnot) fun r' hr' hin =>
      hover r hr (later_of_step hr hr' _ hin)

/-- What the tick does next brings the record on its way. -/
theorem Stage.step (h : s.IsCoherent e) (hord : s.IsOrdered)
    (hwell : ∀ n, s.world.ledger.content id = some n → n.IsWellFormed)
    (hmessage : Duty.send message ∈ role.duties)
    (hrole : ∀ r, s.round = some r → r.role = role)
    (hstage : Stage e s role message id failures replies) {chore : Chore}
    (hchore : chore ≠ .start)
    (hready : ∀ r m, s.round = some r → m ∈ r.ahead → m.id = id →
      e.guard m = false ∧ e.retry.shouldDelay m s.world.now = false)
    (hreply : ∀ p ∈ s.settledFor id (chore.move role), p.2 ≠ .panicked) :
    Stage e (s.step e (chore.move role)) role message id failures
      (replies ++ s.settledFor id (chore.move role)) := by
  have hsame := hstage
  cases hstage with
  | ahead n r m hn hdue hr hduty hm hid =>
    exact .of_member h hord hr hn (hwell n hn) hdue hduty (List.mem_append_left _ hm) hid hsame
      hchore (fun k hk => hready r k hr hk) hreply
  | aloft n r f hn hdue hr hduty hf hid =>
    exact .of_member h hord hr hn (hwell n hn) hdue hduty
      (List.mem_append_right _ (List.mem_map_of_mem hf)) hid hsame hchore
      (fun k hk => hready r k hr hk) hreply
  | back n f reply hn hsending hresolves hrests hover =>
    exact .of_back h hmessage hrole hn hsending hresolves hrests hover hchore

end Session

end Parley
