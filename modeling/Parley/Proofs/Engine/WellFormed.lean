/-
  Parley.Proofs.Engine.WellFormed
  ────────────────────────────────
  **WHAT EVERY STORED RECORD LOOKS LIKE.**

  The protocol graph knows no roles and no agreements.  That a record in some
  state has an agreement, and that a role stays out of the other's states,
  follows from who moves which records where:

      others       to the states that the role awaits
      decisions    along the role's duties
      answers      from the state in which a message was due

  Each of these leads a well-formed record to a well-formed one
  (`Role.Passes`), and so every record that an engine ever stores is well formed
  (`stored_wellFormed`).
-/
import Parley.Proofs.Engine.Office

namespace Parley

/-! ## §1. What a state says about a record. -/

namespace State

/-- The states in which there is an agreement. -/
def settled : List State :=
  [agreed, verifying, verified, finalizing, finalized]

/-- The states in which there is no agreement yet. -/
def unsettled : List State :=
  [initial, requesting, requested, offering, offered, accepting, accepted, agreeing]

/-- The states of a termination. -/
def ending : List State :=
  [terminating, terminated]

/-- The states in which the request has not been answered. -/
def unanswered : List State :=
  [initial, requesting]

end State

/-- The states that records of a role are never in. -/
def Role.shuns : Role → List State
  | consumer => [.offering, .agreeing, .finalizing]
  | provider => [.initial, .requesting, .accepting, .verifying]

/-- A well-formed record in a state. -/
structure Negotiation.IsWellFormedIn (n : Negotiation) (s : State) : Prop where
  state : n.state = s.code
  role : s ∉ n.role.shuns
  settled : s ∈ State.settled → n.agreement.isSome = true
  unsettled : s ∈ State.unsettled → n.agreement = none
  offered : n.offers ≠ []
  /-- A provider knows the consumer's name for the negotiation. -/
  correlated : n.role = .provider → n.correlationId.isSome = true
  /-- A consumer learns the provider's name from the answer to the request at the earliest. -/
  unnamed : n.role = .consumer → s ∈ State.unanswered → n.correlationId = none
  explained : s = .terminating → n.errorDetail.isSome = true
  silent : s ∉ State.ending → n.errorDetail = none

/-- A well-formed record. -/
def Negotiation.IsWellFormed (n : Negotiation) : Prop :=
  ∃ s, n.IsWellFormedIn s

/-- Whether a record of a role that is well formed in one state is so in another, if nothing but
book keeping changes. -/
def Role.Passes (role : Role) (s t : State) : Prop :=
  t ∉ role.shuns ∧ (t ∈ State.settled → s ∈ State.settled)
    ∧ (t ∈ State.unsettled → s ∈ State.unsettled) ∧ (t ∈ State.unanswered → s ∈ State.unanswered)
    ∧ (t ∉ State.ending → s ∉ State.ending)

instance (role : Role) (s t : State) : Decidable (role.Passes s t) :=
  inferInstanceAs (Decidable (_ ∧ _))

namespace Role

variable {role : Role} {s t : State}

theorem passes_self (hs : s ∉ role.shuns) : role.Passes s s :=
  ⟨hs, id, id, id, id⟩

/-- Every record may be terminated. -/
theorem passes_terminated (role : Role) (s : State) : role.Passes s .terminated := by
  have h : ∀ s ∈ State.all, role.Passes s .terminated := by
    cases role <;> decide
  exact h s (State.mem_all s)

/-- What others do to a record, other than to bring an agreement. -/
theorem passes_of_awaits (hs : s ∉ role.shuns) (hedge : s.canMoveTo t = true)
    (hawaits : role.awaits t = true) (ht : t ≠ .agreed) : role.Passes s t := by
  have h : ∀ s ∈ State.all, ∀ t ∈ State.all, s ∉ role.shuns → s.canMoveTo t = true →
      role.awaits t = true → t ≠ .agreed → role.Passes s t := by
    cases role <;> decide +kernel
  exact h s (State.mem_all s) t (State.mem_all t) hs hedge hawaits ht

/-- Others move no record to a state in which the request has not been answered. -/
theorem not_unanswered_of_awaits (hawaits : role.awaits t = true) : t ∉ State.unanswered := by
  have h : ∀ t ∈ State.all, role.awaits t = true → t ∉ State.unanswered := by
    cases role <;> decide
  exact h t (State.mem_all t) hawaits

/-- A decision, and none is one to terminate. -/
theorem passes_of_decide (hduty : Duty.decide s t ∈ role.duties) :
    role.Passes s t ∧ t ≠ .terminating := by
  cases role <;> simp only [duties, List.mem_cons, Duty.decide.injEq, reduceCtorEq,
    List.not_mem_nil, or_false, false_or] at hduty <;>
    rcases hduty with ⟨rfl, rfl⟩ | ⟨rfl, rfl⟩ | ⟨rfl, rfl⟩ <;> decide

/-- What the answer to a message does to a record, other than to settle an agreement. -/
theorem passes_of_send {message : Sending} (hduty : Duty.send message ∈ role.duties)
    (hmessage : message ≠ .agreement) : role.Passes message.source message.target := by
  cases role <;> cases message <;> first
    | decide
    | exact absurd hduty (by decide)
    | exact absurd rfl hmessage

end Role

/-! ## §2. Records rewritten. -/

namespace Negotiation

variable {n n' : Negotiation} {s t : State} {w : World} {e : Engine}

/-- A record of which only book keeping changes. -/
theorem IsWellFormedIn.passes (h : n.IsWellFormedIn s) (hkeeps : n.Keeps n')
    (hstate : n'.state = t.code) (hpasses : n.role.Passes s t)
    (hagreement : n'.agreement = n.agreement)
    (hname : t ∈ State.unanswered → n'.correlationId = n.correlationId)
    (hexplained : t = .terminating → n'.errorDetail.isSome = true)
    (hsilent : t ∉ State.ending → n'.errorDetail = n.errorDetail) : n'.IsWellFormedIn t := by
  obtain ⟨hshuns, hsettled, hunsettled, hunanswered, hending⟩ := hpasses
  exact
    { state := hstate
      role := by rw [hkeeps.role]; exact hshuns
      settled := fun ht => by rw [hagreement]; exact h.settled (hsettled ht)
      unsettled := fun ht => by rw [hagreement]; exact h.unsettled (hunsettled ht)
      offered := hkeeps.offers_ne_nil h.offered
      correlated := by
        rw [hkeeps.role]
        intro hrole
        rw [hkeeps.correlationId hrole]
        exact h.correlated hrole
      unnamed := by
        rw [hkeeps.role]
        intro hrole ht
        rw [hname ht]
        exact h.unnamed hrole (hunanswered ht)
      explained := hexplained
      silent := fun ht => by rw [hsilent ht]; exact h.silent (hending ht) }

/-- A record that comes by its agreement. -/
theorem IsWellFormedIn.agrees (h : n.IsWellFormedIn s) (hkeeps : n.Keeps n')
    (hstate : n'.state = State.agreed.code) (hset : n'.agreement.isSome = true)
    (hs : s ∉ State.ending) (hsilent : n'.errorDetail = n.errorDetail) :
    n'.IsWellFormedIn .agreed where
  state := hstate
  role := by cases n'.role <;> decide
  settled := fun _ => hset
  unsettled := fun ht => absurd ht (by decide)
  offered := hkeeps.offers_ne_nil h.offered
  correlated := by
    rw [hkeeps.role]
    intro hrole
    rw [hkeeps.correlationId hrole]
    exact h.correlated hrole
  unnamed := fun _ ht => absurd ht (by decide)
  explained := nofun
  silent := fun _ => by rw [hsilent]; exact h.silent hs

theorem IsWellFormedIn.withLease (h : n.IsWellFormedIn s) (lease : Option Lease) :
    (n.withLease lease).IsWellFormedIn s :=
  ⟨h.state, h.role, h.settled, h.unsettled, h.offered, h.correlated, h.unnamed, h.explained,
    h.silent⟩

theorem IsWellFormedIn.withPending (h : n.IsWellFormedIn s) (pending : Bool) :
    (n.withPending pending).IsWellFormedIn s :=
  ⟨h.state, h.role, h.settled, h.unsettled, h.offered, h.correlated, h.unnamed, h.explained,
    h.silent⟩

/-- The edge that was checked starts in the state in which the record is well formed. -/
theorem IsWellFormedIn.edge (h : n.IsWellFormedIn s) (hedge : n.checkEdge t = .ok ()) :
    s.canMoveTo t = true := by
  obtain ⟨s', hs', hst⟩ := checkEdge_eq_ok_iff.mp hedge
  cases State.code_injective (h.state.symm.trans hs')
  exact hst

/-- No termination is followed by an agreement. -/
theorem not_ending_of_agreed (hedge : s.canMoveTo .agreed = true) : s ∉ State.ending := by
  have h : ∀ s ∈ State.all, s.canMoveTo .agreed = true → s ∉ State.ending := by decide
  exact h s (State.mem_all s) hedge

/-- A record that a call opens. -/
theorem isWellFormed_of_opens (h : Call.Opens w n) : n.IsWellFormed := by
  have hinitial : State.initial ∉ Role.consumer.shuns := by decide
  have hrequested : State.requested ∉ Role.provider.shuns := by decide
  have hsound := h.isSound
  have hagreement := h.agreement
  cases h with
  | initiated r hn =>
    subst hn
    exact ⟨.initial, rfl, hinitial, fun hs => absurd hs (by decide), fun _ => hagreement,
      hsound.offered, nofun, fun _ _ => rfl, nofun, fun _ => rfl⟩
  | requested m offer callbackAddress consumerId hn =>
    subst hn
    exact ⟨.requested, rfl, hrequested, fun hs => absurd hs (by decide), fun _ => hagreement,
      hsound.offered, fun _ => rfl, nofun, nofun, fun _ => rfl⟩

/-- A message that is accepted. -/
theorem IsWellFormedIn.accepted (h : n.IsWellFormedIn s) {m : Message} {l : Ledger}
    {now : Instant} (haddr : m.addressee? l = some n.role)
    (hok : m.acceptedBy n.role n now = .ok n') : n'.IsWellFormedIn m.payload.target := by
  have hkeeps := Call.keeps_of_accepted haddr hok
  obtain ⟨_, hcheck, _, rfl⟩ := Message.acceptedBy_eq_ok_iff.mp hok
  have hedge := h.edge hcheck
  have hawaits := Call.awaits_of_addressee haddr
  by_cases hagreement : m.payload.isAgreement = true
  · have htarget := m.payload.isAgreement_iff.mp hagreement
    have hplain : m.payload.target ≠ .terminated := by
      rw [htarget]
      exact State.noConfusion
    rw [htarget] at hedge ⊢
    exact h.agrees hkeeps (by rw [m.state_outcome, htarget])
      (m.isSome_agreement_outcome n now hagreement) (not_ending_of_agreed hedge)
      (m.errorDetail_outcome n now hplain)
  · have hplain : m.payload.target ≠ .agreed := fun htarget =>
      hagreement (m.payload.isAgreement_iff.mpr htarget)
    refine h.passes hkeeps (m.state_outcome n now)
      (Role.passes_of_awaits h.role hedge hawaits hplain)
      (m.agreement_outcome n now (Bool.eq_false_iff.mpr hagreement))
      (fun ht => absurd ht (Role.not_unanswered_of_awaits hawaits))
      (fun ht => absurd ht m.payload.target_ne_terminating) (fun ht => ?_)
    refine m.errorDetail_outcome n now fun htarget => ht ?_
    rw [htarget]
    decide

/-- A record that is to be terminated, for a reason. -/
theorem IsWellFormedIn.doomed (h : n.IsWellFormedIn s) (hedge : n.checkEdge .terminating = .ok ())
    (reason : String) (now : Instant) :
    (Engine.doomed n reason now).IsWellFormedIn .terminating := by
  have hawaits : n.role.awaits .terminating = true := by cases n.role <;> rfl
  exact h.passes (((Keeps.refl n).withPending false).withErrorDetail reason |>.enter _ _) rfl
    (Role.passes_of_awaits h.role (h.edge hedge) hawaits State.noConfusion) rfl
    (fun ht => absurd ht (by decide)) (fun _ => rfl) (fun ht => absurd ht (by decide))

/-- What the reply to a message makes of a record that awaits it. -/
theorem IsWellFormedIn.turned (h : n.IsWellFormedIn s) {f : Flight} {reply : Reply} {kind : State}
    {now : Instant} (hduty : Duty.send f.sending ∈ n.role.duties) (hawaits : n.Awaits f.sending)
    (hagreement : f.sending = .agreement → ∃ a, f.message.payload = .contractAgreement a)
    (hturn : Engine.Turn e f n now reply kind n') (hkeeps : n.Keeps n') :
    n'.IsWellFormed := by
  cases hturn with
  | onward response hcheck hset =>
    have hs : s = f.sending.source :=
      State.code_injective (h.state.symm.trans (hawaits.of_target hcheck))
    by_cases hf : f.sending = .agreement
    · obtain ⟨a, hpayload⟩ := hagreement hf
      have hgained := Engine.agreement_gained_of_payload hf hpayload n response
      rw [hf] at hcheck hkeeps ⊢
      refine ⟨.agreed, h.agrees hkeeps rfl ?_ (not_ending_of_agreed (h.edge hcheck))
        (Engine.errorDetail_gained f n response)⟩
      show (Engine.gained f n response).agreement.isSome = true
      rw [hgained]
      rfl
    · have hpasses := Role.passes_of_send hduty hf
      rw [← hs] at hpasses
      refine ⟨f.sending.target, h.passes hkeeps rfl hpasses
        (Engine.agreement_gained_of_ne hf n response) (fun ht => ?_) (fun ht => ?_)
        (fun _ => Engine.errorDetail_gained f n response)⟩
      · cases hsending : f.sending <;> rw [hsending] at ht <;> exact absurd ht (by decide)
      · cases hsending : f.sending <;> rw [hsending] at ht <;> cases ht
  | ended failure detail hcheck hlast =>
    exact ⟨.terminated, h.passes hkeeps rfl (Role.passes_terminated n.role s) rfl
      (fun ht => absurd ht (by decide)) nofun (fun ht => absurd ht (by decide))⟩
  -- A retry stays in the state.
  | again failure hcheck hkind hmore =>
    have hs : s = f.sending.source :=
      State.code_injective (h.state.symm.trans (hawaits.of_source hcheck))
    rw [← hs] at hkeeps ⊢
    exact ⟨s, h.passes hkeeps rfl (Role.passes_self h.role) rfl (fun _ => rfl) h.explained
      (fun _ => rfl)⟩

end Negotiation

/-! ## §3. The records of an engine. -/

theorem preserves_isWellFormed (e : Engine) : Preserves e fun _ n => n.IsWellFormed where
  mono _ h := h
  withLease := fun lease ⟨s, h⟩ => ⟨s, h.withLease lease⟩
  withPending := fun pending ⟨s, h⟩ => ⟨s, h.withPending pending⟩
  opened := Negotiation.isWellFormed_of_opens
  called := by
    rintro log w n n' hmakes ⟨s, h⟩
    cases hmakes with
    | accepted m haddr hok => exact ⟨_, h.accepted haddr hok⟩
    | doomed reason hedge hn' =>
      subst hn'
      exact ⟨_, h.doomed hedge reason w.now⟩
  decided := by
    rintro log n source target now hduty hstate ⟨s, h⟩
    have hs : s = source := State.code_injective (h.state.symm.trans hstate)
    subst hs
    obtain ⟨hpasses, hplain⟩ := Role.passes_of_decide hduty
    exact ⟨target, h.passes ((Negotiation.Keeps.refl n).enter _ _) rfl hpasses rfl (fun _ => rfl)
      (fun ht => absurd ht hplain) (fun _ => rfl)⟩
  turned := by
    rintro log f reply n n' kind now hin hduty hawaits hleased ⟨payload, sent, hmessage, hpayload⟩
      hturn hkeeps ⟨s, h⟩
    refine h.turned hduty hawaits (fun hf => ?_) hturn hkeeps
    rw [hf] at hpayload
    cases Engine.composes_of_payloadFor hpayload with
    | agreement offer hlast => exact ⟨_, by rw [hmessage]; rfl⟩

namespace Office

/-- Every record that an engine ever stores is well formed, from an empty store on: whatever it is
asked and sent, whatever the guard holds back, and whatever the replies.  So is every record that a
tick works with, and its message can always be made. -/
theorem stored_wellFormed (e : Engine) (now : Instant) (supply : IdSupply) (acts : List Act) :
    (∀ id n, ((blank now supply).run e acts).world.ledger.find? id = some n → n.IsWellFormed)
      ∧ ∀ role r, ((blank now supply).run e acts).round role = some r → ∀ n ∈ r.members,
        n.IsWellFormed ∧ ∀ message now, ∃ payload, e.payloadFor message n now = .ok payload := by
  have hholds := run_preserves (preserves_isWellFormed e) now supply acts
  refine ⟨fun id n hn => ?_, fun role r hr n hn => ?_⟩
  · obtain ⟨s, h⟩ := hholds.stored id _ (Ledger.content_of_find? hn)
    exact ⟨s, h.withLease n.lease⟩
  · obtain ⟨s, h⟩ := hholds.leased role r hr n hn
    exact ⟨⟨s, h⟩, fun message => e.payloadFor_of_offers message h.offered⟩

/-- A consumer that wants to negotiate, until its request is on its way. -/
def untilSent : List Act :=
  let offer : Offer := ⟨"offer", "asset", "provider", {}⟩
  [.call (.initiate ⟨"provider", "http://provider", "dsp", offer⟩),
   .work .consumer .start, .work .consumer .begin, .work .consumer .next, .work .consumer .begin]

/-- The record in REQUESTING is well formed, as it is stored and as the tick has it. -/
theorem wellFormed_while_sent :
    ∃ n r m, ((blank default).run Session.unhindered untilSent).world.ledger.find? "gen-0001"
        = some n
      ∧ n.state = State.requesting.code ∧ n.IsWellFormed
      ∧ ((blank default).run Session.unhindered untilSent).round .consumer = some r
      ∧ m ∈ r.members ∧ m.IsWellFormed := by
  obtain ⟨hstored, hleased⟩ := stored_wellFormed Session.unhindered default .counted untilSent
  have hstate : (((blank default).run Session.unhindered untilSent).world.ledger.find?
      "gen-0001").map (·.state) = some State.requesting.code := by decide +kernel
  have hmember : ((blank default).run Session.unhindered untilSent).round .consumer |>.bind
      (·.members.head?) |>.isSome := by decide +kernel
  obtain ⟨n, hn, hcode⟩ := Option.map_eq_some_iff.mp hstate
  obtain ⟨m, hm⟩ := Option.isSome_iff_exists.mp hmember
  obtain ⟨r, hr, hhead⟩ := Option.bind_eq_some_iff.mp hm
  have hin : m ∈ r.members := List.mem_of_head? hhead
  exact ⟨n, r, m, hn, hcode, hstored _ n hn, hr, hin, (hleased .consumer r hr m hin).1⟩

end Office

end Parley
