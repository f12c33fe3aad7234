/-
  Parley.Proofs.Negotiation.Progress
  ────────────────────────────────
  **WHAT MAY BECOME OF A RECORD.**

  Whatever is done with a negotiation, two things hold between the record before
  and the record after:

      Moves    its state follows an edge of the graph
      Keeps    who negotiates, and by which names, stays; offers are only added;
               an agreement that is set stays

  and a sound record stays sound: its state is known, it has an offer, and a
  provider's record has the consumer's name for the negotiation.
-/
import Parley.Negotiation.Basic

namespace Parley

/-! ## §1. Edges. -/

namespace State

/-- A final state has no edge. -/
theorem canMoveTo_of_isFinal {s : State} (h : s.isFinal = true) (t : State) :
    s.canMoveTo t = false := by
  unfold canMoveTo
  rw [h]
  rfl

end State

namespace Negotiation

theorem checkEdge_eq_ok_iff {n : Negotiation} {target : State} :
    n.checkEdge target = .ok () ↔ ∃ s : State, n.state = s.code ∧ s.canMoveTo target = true := by
  unfold checkEdge protocolState
  cases h : State.ofCode? n.state with
  | none =>
    simp only [reduceCtorEq, false_iff]
    rintro ⟨s, hs, _⟩
    rw [hs, State.ofCode?_code] at h
    cases h
  | some s =>
    have hs : n.state = s.code := (State.code_of_ofCode? h).symm
    constructor
    · intro hok
      refine ⟨s, hs, ?_⟩
      by_cases hedge : s.canMoveTo target = true
      · exact hedge
      · simp [hedge] at hok
    · rintro ⟨t, ht, hedge⟩
      have : s = t := State.code_injective (hs.symm.trans ht)
      subst this
      simp [hedge]

/-- A move that succeeds. -/
theorem moveTo_eq_ok {n m : Negotiation} {target : State} {now : Instant}
    (h : n.moveTo target now = .ok m) :
    n.checkEdge target = .ok () ∧ m = n.enter target.code now := by
  unfold moveTo at h
  cases hedge : n.checkEdge target with
  | error err =>
    rw [hedge] at h
    cases h
  | ok _ =>
    rw [hedge] at h
    cases h
    exact ⟨rfl, rfl⟩

/-- An agreement that could be set. -/
theorem agreeOn_eq_ok {n m : Negotiation} {agreement : Agreement} {now : Instant}
    (h : n.agreeOn agreement now = .ok m) :
    n.agreement = none ∧ n.checkEdge .agreed = .ok ()
      ∧ m = { n.enter State.agreed.code now with agreement := some agreement } := by
  unfold agreeOn at h
  cases hset : n.agreement with
  | some known => simp [hset] at h
  | none =>
    cases hmove : n.moveTo .agreed now with
    | error err => simp [hset, hmove] at h
    | ok moved =>
      obtain ⟨hedge, rfl⟩ := moveTo_eq_ok hmove
      simp only [hset, Option.isSome_none, Bool.false_eq_true, if_false, hmove,
        Except.ok.injEq] at h
      exact ⟨rfl, hedge, h.symm⟩

/-! ## §2. Moves. -/

/-- The state of a record follows an edge of the graph. -/
def Moves (n m : Negotiation) : Prop :=
  ∃ s t : State, n.state = s.code ∧ m.state = t.code ∧ s.canMoveTo t = true

theorem moves_of_checkEdge {n m : Negotiation} {target : State}
    (hedge : n.checkEdge target = .ok ()) (hm : m.state = target.code) : n.Moves m := by
  obtain ⟨s, hs, hst⟩ := checkEdge_eq_ok_iff.mp hedge
  exact ⟨s, target, hs, hm, hst⟩

/-! ## §3. What is kept. -/

/-- What stays of a record, and what is only added to. -/
structure Keeps (n m : Negotiation) : Prop where
  id : m.id = n.id
  role : m.role = n.role
  counterPartyId : m.counterPartyId = n.counterPartyId
  counterPartyAddress : m.counterPartyAddress = n.counterPartyAddress
  protocol : m.protocol = n.protocol
  createdAt : m.createdAt = n.createdAt
  traceContext : m.traceContext = n.traceContext
  offers : n.offers <+: m.offers
  agreement : n.agreement = none ∨ m.agreement = n.agreement
  correlationId : n.role = .provider → m.correlationId = n.correlationId

namespace Keeps

theorem refl (n : Negotiation) : n.Keeps n :=
  ⟨rfl, rfl, rfl, rfl, rfl, rfl, rfl, List.prefix_refl _, .inr rfl, fun _ => rfl⟩

theorem trans {n m k : Negotiation} (h : n.Keeps m) (h' : m.Keeps k) : n.Keeps k where
  id := h'.id.trans h.id
  role := h'.role.trans h.role
  counterPartyId := h'.counterPartyId.trans h.counterPartyId
  counterPartyAddress := h'.counterPartyAddress.trans h.counterPartyAddress
  protocol := h'.protocol.trans h.protocol
  createdAt := h'.createdAt.trans h.createdAt
  traceContext := h'.traceContext.trans h.traceContext
  offers := h.offers.trans h'.offers
  agreement := by
    rcases h.agreement with hn | hn
    · exact .inl hn
    · rcases h'.agreement with hm | hm
      · exact .inl (hn.symm.trans hm)
      · exact .inr (hm.trans hn)
  correlationId := fun hr => (h'.correlationId (h.role.trans hr)).trans (h.correlationId hr)

/-- Entering a state keeps what there is. -/
theorem enter {n m : Negotiation} (h : n.Keeps m) (state : Int) (now : Instant) :
    n.Keeps (m.enter state now) :=
  h.trans ⟨rfl, rfl, rfl, rfl, rfl, rfl, rfl, List.prefix_refl _, .inr rfl, fun _ => rfl⟩

theorem withLease {n m : Negotiation} (h : n.Keeps m) (lease : Option Lease) :
    n.Keeps (m.withLease lease) :=
  h.trans ⟨rfl, rfl, rfl, rfl, rfl, rfl, rfl, List.prefix_refl _, .inr rfl, fun _ => rfl⟩

/-- A lease does not count. -/
theorem of_withLease (n : Negotiation) (lease : Option Lease) : (n.withLease lease).Keeps n :=
  ⟨rfl, rfl, rfl, rfl, rfl, rfl, rfl, List.prefix_refl _, .inr rfl, fun _ => rfl⟩

theorem withPending {n m : Negotiation} (h : n.Keeps m) (pending : Bool) :
    n.Keeps (m.withPending pending) :=
  h.trans ⟨rfl, rfl, rfl, rfl, rfl, rfl, rfl, List.prefix_refl _, .inr rfl, fun _ => rfl⟩

theorem withErrorDetail {n m : Negotiation} (h : n.Keeps m) (detail : String) :
    n.Keeps (m.withErrorDetail detail) :=
  h.trans ⟨rfl, rfl, rfl, rfl, rfl, rfl, rfl, List.prefix_refl _, .inr rfl, fun _ => rfl⟩

theorem addOffer {n m : Negotiation} (h : n.Keeps m) (offer : Offer) :
    n.Keeps (m.addOffer offer) :=
  h.trans ⟨rfl, rfl, rfl, rfl, rfl, rfl, rfl, List.prefix_append _ _, .inr rfl, fun _ => rfl⟩

/-- An agreement that is set for the first time. -/
theorem agreed {n m : Negotiation} (h : n.Keeps m) (hm : m.agreement = none)
    (agreement : Agreement) : n.Keeps { m with agreement := some agreement } :=
  h.trans ⟨rfl, rfl, rfl, rfl, rfl, rfl, rfl, List.prefix_refl _, .inl hm, fun _ => rfl⟩

/-- A consumer may learn the provider's name for the negotiation. -/
theorem correlated {n m : Negotiation} (h : n.Keeps m) (hm : m.role = .consumer)
    (correlationId : Option String) : n.Keeps { m with correlationId := correlationId } :=
  h.trans ⟨rfl, rfl, rfl, rfl, rfl, rfl, rfl, List.prefix_refl _, .inr rfl, fun hr => by
    rw [hm] at hr
    cases hr⟩

/-- An agreement once set is the agreement later. -/
theorem agreement_eq {n m : Negotiation} (h : n.Keeps m) {a : Agreement}
    (ha : n.agreement = some a) : m.agreement = some a := by
  rcases h.agreement with hn | hn
  · rw [ha] at hn
    cases hn
  · rw [hn, ha]

/-- What was offered is not withdrawn. -/
theorem offers_ne_nil {n m : Negotiation} (h : n.Keeps m) (hn : n.offers ≠ []) :
    m.offers ≠ [] := by
  intro hm
  have hprefix := h.offers
  rw [hm, List.prefix_nil] at hprefix
  exact hn hprefix

end Keeps

/-! ## §4. Sound records. -/

/-- A record that an engine can work with. -/
structure IsSound (n : Negotiation) : Prop where
  known : ∃ s : State, n.state = s.code
  offered : n.offers ≠ []
  correlated : n.role = .provider → ∃ pid, n.correlationId = some pid

theorem IsSound.of_moves {n m : Negotiation} (h : n.IsSound) (hmoves : n.Moves m)
    (hkeeps : n.Keeps m) : m.IsSound where
  known := by
    obtain ⟨_, t, _, ht, _⟩ := hmoves
    exact ⟨t, ht⟩
  offered := hkeeps.offers_ne_nil h.offered
  correlated := fun hr => by
    have hn : n.role = .provider := hkeeps.role.symm.trans hr
    obtain ⟨pid, hpid⟩ := h.correlated hn
    exact ⟨pid, (hkeeps.correlationId hn).trans hpid⟩

theorem IsSound.withLease {n : Negotiation} (h : n.IsSound) (lease : Option Lease) :
    (n.withLease lease).IsSound :=
  ⟨h.known, h.offered, h.correlated⟩

theorem IsSound.withPending {n : Negotiation} (h : n.IsSound) (pending : Bool) :
    (n.withPending pending).IsSound :=
  ⟨h.known, h.offered, h.correlated⟩

/-- A sound record has a last offer. -/
theorem IsSound.lastOffer? {n : Negotiation} (h : n.IsSound) :
    ∃ offer, n.lastOffer? = some offer :=
  ⟨n.offers.getLast h.offered, List.getLast?_eq_some_getLast h.offered⟩

end Negotiation

end Parley
