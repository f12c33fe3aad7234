/-
  Parley.Proofs.Parties.Stage
  ────────────────────────────────
  **THE STAGES OF A NEGOTIATION.**

  A negotiation in which nothing goes wrong passes through thirteen stages, each
  named for the state of the party whose turn it is.  The other party's record
  may be behind by one state, and the provider has none at first:

      stage        consumer's record    provider's record

      INITIAL      INITIAL
      REQUESTING   REQUESTING
      REQUESTED    REQUESTED            REQUESTED
      OFFERING     REQUESTED            OFFERING
      OFFERED      OFFERED              OFFERED
      ACCEPTING    ACCEPTING            OFFERED

  and so on, up to FINALIZED.  `Meeting.IsAt` says that a wish to negotiate is
  in a stage: who has which record, and what is in it.
-/
import Parley.Proofs.Parties.Correspondence

namespace Parley

/-! ## §1. Stages. -/

namespace State

/-- The states of the consumer's record and of the provider's in a stage. -/
def sides : State → Option (State × Option State)
  | initial => some (initial, none)
  | requesting => some (requesting, none)
  | offering => some (requested, some offering)
  | accepting => some (accepting, some offered)
  | agreeing => some (accepted, some agreeing)
  | verifying => some (verifying, some agreed)
  | finalizing => some (verified, some finalizing)
  | terminating | terminated => none
  | s => some (s, some s)

/-- The position of a state in protocol order. -/
def rank (s : State) : Nat :=
  all.idxOf s

/-- Whether an agreement is reached in a stage. -/
def hasAgreement (s : State) : Bool :=
  decide (agreed.rank ≤ s.rank)

end State

/-- The state of a role's record. -/
def Role.side : Role → State × Option State → Option State
  | consumer, (t, _) => some t
  | provider, (_, u) => u

/-- The stage in which a duty is due. -/
theorem stage_of_due {role : Role} {duty : Duty} (hduty : duty ∈ role.duties) {s : State}
    (hside : s.sides.bind role.side = some duty.state) : s = duty.state := by
  have h : ∀ role : Role, ∀ duty ∈ role.duties, ∀ s ∈ State.all,
      s.sides.bind role.side = some duty.state → s = duty.state := by
    intro role
    cases role <;> decide
  exact h role duty hduty s (State.mem_all s) hside

/-- In every stage but the last it is some party's turn. -/
theorem due_of_stage {s : State} {sides : State × Option State} (hs : s.sides = some sides)
    (hopen : s ≠ .finalized) :
    ∃ role duty, duty ∈ Role.duties role ∧ duty.state = s ∧ role.side sides = some s := by
  have h : ∀ s ∈ State.all, s.sides.isSome = true → s ≠ .finalized →
      (∃ duty ∈ Role.consumer.duties, duty.state = s ∧ s.sides.bind Role.consumer.side = some s)
      ∨ ∃ duty ∈ Role.provider.duties, duty.state = s
          ∧ s.sides.bind Role.provider.side = some s := by
    decide
  rcases h s (State.mem_all s) (by rw [hs]; rfl) hopen with
    ⟨duty, hduty, hstate, hside⟩ | ⟨duty, hduty, hstate, hside⟩
  · rw [hs] at hside
    exact ⟨.consumer, duty, hduty, hstate, hside⟩
  · rw [hs] at hside
    exact ⟨.provider, duty, hduty, hstate, hside⟩

/-- Every duty follows an edge of the graph. -/
theorem duty_canMoveTo (role : Role) :
    ∀ duty ∈ role.duties, duty.state.canMoveTo duty.target = true := by
  cases role <;> decide

/-- A duty of a stage leads to the next. -/
theorem rank_target (role : Role) : ∀ duty ∈ role.duties, duty.state.sides.isSome = true →
    duty.target.rank = duty.state.rank + 1 := by
  cases role <;> decide

/-- A stage has the rank of the record that is ahead. -/
theorem rank_of_sides {s t : State} {u : Option State} (hs : s.sides = some (t, u)) :
    max t.rank (u.elim 0 State.rank) = s.rank := by
  cases s <;> cases hs <;> decide

/-- The last stage has the highest rank. -/
theorem rank_of_stage {s : State} (hs : s.sides.isSome = true) :
    s.rank ≤ 12 ∧ (s.rank = 12 → s = .finalized) := by
  have h : ∀ s ∈ State.all, s.sides.isSome = true →
      s.rank ≤ 12 ∧ (s.rank = 12 → s = .finalized) := by
    decide
  exact h s (State.mem_all s) hs

/-- In no stage is a record about to end without an agreement, or has it ended so. -/
theorem side_ne_terminated {role : Role} {s t : State} (hside : s.sides.bind role.side = some t) :
    t ≠ .terminating ∧ t ≠ .terminated := by
  cases role <;> cases s <;> cases hside <;> decide

/-- The states of the two records after one of the two moved alone. -/
def Role.moved : Role → State → State × Option State → State × Option State
  | consumer, target, (_, u) => (target, u)
  | provider, target, (t, _) => (t, some target)

/-- A decision moves the record of the one who decides. -/
theorem sides_of_decide {role : Role} {source target : State}
    (hduty : Duty.decide source target ∈ role.duties) :
    target.sides = source.sides.map (role.moved target) ∧ source ≠ target
      ∧ target.hasAgreement = source.hasAgreement := by
  cases role <;> simp only [Role.duties, List.mem_cons, Duty.decide.injEq, reduceCtorEq,
    List.not_mem_nil, or_false, false_or] at hduty <;>
    rcases hduty with ⟨rfl, rfl⟩ | ⟨rfl, rfl⟩ | ⟨rfl, rfl⟩ <;> decide

/-- A message, but for the first and the end of a negotiation, moves both records to the same
state. -/
theorem sides_of_send {message : Sending} (hfirst : message ≠ .request)
    (hlast : message ≠ .termination) :
    ∃ t u, message.source.sides = some (t, some u)
      ∧ message.target.sides = some (message.target, some message.target)
      ∧ t.canMoveTo message.target = true ∧ t ≠ message.target
      ∧ u.canMoveTo message.target = true ∧ u ≠ message.target
      ∧ message.target.hasAgreement
        = (message.source.hasAgreement || decide (message = .agreement)) := by
  cases message with
  | request => exact absurd rfl hfirst
  | termination => exact absurd rfl hlast
  | acceptance | verification | offer | agreement | finalization =>
    exact ⟨_, _, rfl, rfl, by decide, by decide, by decide, by decide, by decide⟩

/-- The rank of the state of a record. -/
def Ledger.rank (l : Ledger) (id : String) : Nat :=
  match (l.content id).bind fun n => State.ofCode? n.state with
  | some s => s.rank
  | none => 0

theorem Ledger.rank_of_content {l : Ledger} {id : String} {n : Negotiation} {s : State}
    (hn : l.content id = some n) (hs : n.state = s.code) : l.rank id = s.rank := by
  unfold Ledger.rank
  rw [hn, Option.bind_some, hs, State.ofCode?_code]

/-! ## §2. Records on track. -/

/-- A record with which nothing went wrong: it is in a state, for the first time and not held back;
its offers are the one that was asked for; and so are its name and its agreement. -/
structure Negotiation.IsOnTrack (n : Negotiation) (s : State) (offer : Offer)
    (name : Option String) (agreement : Option Agreement) : Prop where
  state : n.state = s.code
  stateCount : n.stateCount = 0
  pending : n.pending = false
  offers : ∀ o ∈ n.offers, o = offer
  correlationId : n.correlationId = name
  agreement : n.agreement = agreement

namespace Negotiation.IsOnTrack

variable {n : Negotiation} {s t : State} {offer : Offer} {name : Option String}
  {agreement : Option Agreement}

theorem withLease (h : n.IsOnTrack s offer name agreement) (lease : Option Lease) :
    (n.withLease lease).IsOnTrack s offer name agreement :=
  ⟨h.state, h.stateCount, h.pending, h.offers, h.correlationId, h.agreement⟩

theorem of_withLease {lease : Option Lease}
    (h : (n.withLease lease).IsOnTrack s offer name agreement) :
    n.IsOnTrack s offer name agreement :=
  ⟨h.state, h.stateCount, h.pending, h.offers, h.correlationId, h.agreement⟩

/-- A record that moves on is in its new state for the first time. -/
theorem enter (h : n.IsOnTrack s offer name agreement) (hst : s ≠ t) (now : Instant) :
    (n.enter t.code now).IsOnTrack t offer name agreement where
  state := rfl
  stateCount := by
    have hne : n.state ≠ t.code := by
      rw [h.state]
      exact fun hcode => hst (State.code_injective hcode)
    show (if n.state = t.code then n.stateCount + 1 else 0) = 0
    rw [if_neg hne]
  pending := h.pending
  offers := h.offers
  correlationId := h.correlationId
  agreement := h.agreement

/-- The last offer of a record on track is the one that was asked for. -/
theorem lastOffer? (h : n.IsOnTrack s offer name agreement) (hn : n.offers ≠ []) :
    n.lastOffer? = some offer := by
  have hlast : n.lastOffer? = some (n.offers.getLast hn) := List.getLast?_eq_some_getLast hn
  rw [hlast, h.offers _ (List.getLast_mem hn)]

end Negotiation.IsOnTrack

/-- The agreement that a wish to negotiate leads to. -/
structure Agreement.IsFor (a : Agreement) (parties : Party → Engine) (offer : Offer) : Prop where
  assetId : a.assetId = offer.assetId
  policy : a.policy = offer.policy
  consumerId : a.consumerId = (parties .first).participantId
  providerId : a.providerId = (parties .second).participantId

/-! ## §3. Wishes in stages. -/

namespace Meeting

/-- A wish to negotiate, by its id and its offer, is in a stage: the consumer has a record of it
alone, or both parties have records that name each other. -/
inductive IsAt (m : Meeting) (parties : Party → Engine) (id : String) (offer : Offer) :
    State → Prop
  | alone (s t : State) (c : Negotiation) (hs : s.sides = some (t, none))
      (hc : (m.ledger .first).content id = some c) (hcon : c.IsOnTrack t offer none none)
      (hnew : ∀ pid, (m.ledger .second).nameFor pid ≠ some id) :
      IsAt m parties id offer s
  | joint (s t u : State) (c p : Negotiation) (a : Option Agreement)
      (hs : s.sides = some (t, some u))
      (hc : (m.ledger .first).content id = some c) (hcon : c.IsOnTrack t offer (some p.id) a)
      (hp : (m.ledger .second).content p.id = some p) (hpro : p.IsOnTrack u offer (some id) a)
      (hparty : p.counterPartyId = (parties .first).participantId)
      (hset : a.isSome = s.hasAgreement) (hterms : ∀ b, a = some b → b.IsFor parties offer) :
      IsAt m parties id offer s

variable {parties : Party → Engine} {m m' : Meeting} {id : String} {offer : Offer} {s : State}

/-- The consumer has a record of every wish. -/
theorem IsAt.content (h : m.IsAt parties id offer s) :
    ∃ c, (m.ledger .first).content id = some c := by
  cases h with
  | alone t c hs hc hcon hnew => exact ⟨c, hc⟩
  | joint t u c p a hs hc hcon hp hpro hparty hset hterms => exact ⟨c, hc⟩

theorem IsAt.sides_isSome (h : m.IsAt parties id offer s) : s.sides.isSome = true := by
  cases h with
  | alone t c hs hc hcon hnew =>
    rw [hs]
    rfl
  | joint t u c p a hs hc hcon hp hpro hparty hset hterms =>
    rw [hs]
    rfl

/-- A wish stays in its stage while its records stay as they are. -/
theorem IsAt.congr (h : m.IsAt parties id offer s)
    (hc : (m'.ledger .first).content id = (m.ledger .first).content id)
    (hp : ∀ pid p, (m.ledger .second).content pid = some p → p.correlationId = some id →
      (m'.ledger .second).content pid = some p)
    (hnew : ∀ pid, (m'.ledger .second).nameFor pid = some id →
      (m.ledger .second).nameFor pid = some id) : m'.IsAt parties id offer s := by
  cases h with
  | alone t c hs hcontent hcon hnone =>
    exact .alone s t c hs (hc.trans hcontent) hcon fun pid hpid => hnone pid (hnew pid hpid)
  | joint t u c p a hs hcontent hcon hprovider hpro hparty hset hterms =>
    exact .joint s t u c p a hs (hc.trans hcontent) hcon
      (hp p.id p hprovider hpro.correlationId) hpro hparty hset hterms

end Meeting

end Parley
