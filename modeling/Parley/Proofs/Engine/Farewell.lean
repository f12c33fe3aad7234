/-
  Parley.Proofs.Engine.Farewell
  ────────────────────────────────
  **WHOM A TERMINATION ENDS.**

  A termination message carries both names of a negotiation and not its sender.
  The receiver asks its store who is meant: the provider's record of the
  provider's name, else the consumer's record of the consumer's.  That is the
  record of the counter party, whichever of the two is the sender, while each
  party has a store of its own.

  Where the two share one store a provider's message finds the provider's own
  record first, and ends that one.  The counter party learns nothing
  (`farewell_ends_counterpart_unless_shared`).
-/
import Parley.Proofs.Engine.Acceptance

namespace Parley

open Petition

/-! ## §1. Records of one negotiation. -/

namespace Negotiation

/-- Two records of one negotiation: one for either side, and each has the other's name. -/
structure IsMateOf (n m : Negotiation) : Prop where
  roles : n.role ≠ m.role
  knows : n.correlationId = some m.id
  known : m.correlationId = some n.id

/-- A record in a state that is not final. -/
def IsOpen (n : Negotiation) : Prop :=
  ∃ s : State, n.state = s.code ∧ s.isFinal = false

/-- The message by which the side of a record ends the negotiation. -/
def farewell (n : Negotiation) (reason : Option String) (policy : Option Policy) : Message :=
  .forNegotiation n (.termination reason policy)

/-- The record as the counter party's termination leaves it. -/
def ended (n : Negotiation) (reason : Option String) (now : Instant) : Negotiation :=
  { n.explained reason with
    state := State.terminated.code
    stateCount := 0
    stateTimestamp := n.stateTimestamp.later now
    updatedAt := now
    pending := false
    lease := none }

variable {n m : Negotiation} {reason : Option String} {policy : Option Policy}

/-- Two records of one negotiation have different ids where they are in one store. -/
theorem IsMateOf.ne_of_stored {l : Ledger} {k : Negotiation} (h : n.IsMateOf m)
    (hm : l.find? m.id = some m) (hk : l.find? n.id = some k) (hrole : k.role = n.role) :
    n.id ≠ m.id := by
  intro hid
  rw [hid, hm] at hk
  cases hk
  exact h.roles hrole.symm

theorem IsOpen.canMoveTo_terminated (h : n.IsOpen) :
    ∃ s : State, n.state = s.code ∧ s.canMoveTo .terminated = true := by
  obtain ⟨s, hs, hfinal⟩ := h
  refine ⟨s, hs, ?_⟩
  cases s <;> first
    | rfl
    | cases hfinal

theorem IsOpen.ne_terminated (h : n.IsOpen) : n.state ≠ State.terminated.code := by
  obtain ⟨s, hs, hfinal⟩ := h
  intro hcode
  rw [State.code_injective (hs.symm.trans hcode)] at hfinal
  cases hfinal

/-! ## §2. Names in the message. -/

/-- The message names the counter party's record for the counter party's role. -/
theorem processIdFor_farewell (h : n.IsMateOf m) :
    (n.farewell reason policy).processIdFor m.role = some m.id := by
  have hroles := h.roles
  unfold farewell Message.forNegotiation
  rw [h.knows]
  cases hn : n.role <;> cases hm : m.role <;> first
    | rfl
    | exact absurd (hn.trans hm.symm) hroles

/-- It names the sender's record for the sender's role. -/
theorem processIdFor_farewell_own (n : Negotiation) (reason : Option String)
    (policy : Option Policy) : (n.farewell reason policy).processIdFor n.role = some n.id := by
  unfold farewell Message.forNegotiation
  cases n.role <;> rfl

/-- The message is for the record of a role that is stored under the name it has for that role. -/
theorem isFor_of_stored {message : Message} {l : Ledger} {role : Role} {id : String}
    (hpid : message.processIdFor role = some id) :
    message.isFor l role = true ↔ ∃ k, l.find? id = some k ∧ k.role = role := by
  unfold Message.isFor
  rw [hpid]
  simp only
  cases l.find? id with
  | none => simp
  | some k => simp

/-- Whether a store takes a provider's message to be for the provider's own record: it has a
provider's record of that name. -/
def MistakesSender (l : Ledger) (n : Negotiation) : Prop :=
  n.role = .provider ∧ ∃ k, l.find? n.id = some k ∧ k.role = .provider

theorem addressee?_farewell (h : n.IsMateOf m) {l : Ledger} (hm : l.find? m.id = some m)
    (hknown : ¬ MistakesSender l n) :
    (n.farewell reason policy).addressee? l = some m.role := by
  have hmate : (n.farewell reason policy).isFor l m.role = true :=
    (isFor_of_stored (processIdFor_farewell h)).mpr ⟨m, hm, rfl⟩
  show (if (n.farewell reason policy).isFor l .provider then some Role.provider
    else if (n.farewell reason policy).isFor l .consumer then some Role.consumer else none) = _
  cases hrole : m.role with
  | provider =>
    rw [hrole] at hmate
    rw [if_pos hmate]
  | consumer =>
    -- The sender is the provider, and its own record is not found.
    have hn : n.role = .provider := by
      cases hn : n.role with
      | provider => rfl
      | consumer => exact absurd (hn.trans hrole.symm) h.roles
    have hown := processIdFor_farewell_own n reason policy
    rw [hn] at hown
    have hnot : ¬ (n.farewell reason policy).isFor l .provider = true := fun hfor =>
      hknown ⟨hn, (isFor_of_stored hown).mp hfor⟩
    rw [hrole] at hmate
    rw [if_neg hnot, if_pos hmate]

theorem addressee?_farewell_mistaken {l : Ledger} (h : MistakesSender l n)
    (reason : Option String) (policy : Option Policy) :
    (n.farewell reason policy).addressee? l = some .provider := by
  obtain ⟨hn, hstored⟩ := h
  have hown := processIdFor_farewell_own n reason policy
  rw [hn] at hown
  exact if_pos ((isFor_of_stored hown).mpr hstored)

/-! ## §3. Who is ended. -/

/-- The petition that the counter party take the message. -/
abbrev leaving (n : Negotiation) (reason : Option String) (policy : Option Policy) : Petition :=
  .message .terminated (n.farewell reason policy)

theorem id?_leaving {l : Ledger} {role : Role}
    (haddr : (n.farewell reason policy).addressee? l = some role) :
    (n.leaving reason policy).id? l = (n.farewell reason policy).processIdFor role :=
  id?_message .terminated haddr

theorem made_leaving (hopen : m.IsOpen) (now : Instant) :
    (n.leaving reason policy).made m now = m.ended reason now := by
  have hcount : (if m.state = State.terminated.code then m.stateCount + 1 else 0) = 0 :=
    if_neg hopen.ne_terminated
  show ({ m.explained reason with
    state := State.terminated.code
    stateCount := if m.state = State.terminated.code then m.stateCount + 1 else 0
    stateTimestamp := m.stateTimestamp.later now
    updatedAt := now
    pending := false
    lease := none } : Negotiation) = m.ended reason now
  rw [hcount]
  rfl

end Negotiation

/-- What it means that an operation ends the record of a negotiation and leaves all others alone. -/
structure World.Ends (w : World) (m : Negotiation) (reason : Option String)
    (answer : Handled × World) : Prop where
  accepted : ∃ found, answer.1 = .ok found ∧ found.withLease none = m.ended reason w.now
  record : answer.2.ledger.find? m.id = some (m.ended reason w.now)
  others : ∀ id, id ≠ m.id → answer.2.ledger.find? id = w.ledger.find? id

namespace Engine

variable {e : Engine} {w : World} {n m : Negotiation} {reason : Option String}
  {policy : Option Policy}

/-- The record that the message is taken to be about is ended. -/
theorem ends_addressee {role : Role}
    (haddr : (n.farewell reason policy).addressee? w.ledger = some role)
    (hpid : (n.farewell reason policy).processIdFor role = some m.id) (hrole : m.role = role)
    (hm : w.ledger.find? m.id = some m) (hopen : m.IsOpen)
    (hfree : ¬ w.ledger.Shields m.id e.handle.holder w.now) :
    w.Ends m reason (e.notify .direct .terminated (n.farewell reason policy) w) := by
  have hlegal : (n.leaving reason policy).IsLegal e w m :=
    { expected := rfl
      named := (Negotiation.id?_leaving haddr).trans hpid
      stored := hm
      suited := haddr.trans (congrArg some hrole.symm)
      free := hfree
      edge := hopen.canMoveTo_terminated
      unset := fun h => State.noConfusion h }
  have hsettled : (n.leaving reason policy).Settled e w
      (e.notify .direct .terminated (n.farewell reason policy) w) :=
    settled_comply State.noConfusion
  generalize e.notify .direct .terminated (n.farewell reason policy) w = answer at hsettled ⊢
  cases hsettled with
  | away err hillegal => exact absurd hlegal (hillegal m)
  | back err id hid hnot hillegal => exact absurd hlegal (hillegal m)
  | written k hk =>
    have hkm : k = m := by
      obtain ⟨_, hfind⟩ := hk.find? hlegal.named
      exact Option.some.inj (hfind.symm.trans hm)
    subst hkm
    have hgrants := grants_commit (n.leaving reason policy) e w k
    refine ⟨⟨_, rfl, ?_⟩, ?_, hgrants.others⟩
    · rw [Negotiation.made_leaving hopen]
      rfl
    · rw [hgrants.record, Negotiation.made_leaving hopen]

/-- A message that is taken to be about another record does not end a record. -/
theorem not_ends_of_misnamed {id : String} (hopen : m.IsOpen)
    (hm : w.ledger.find? m.id = some m) (hid : (n.leaving reason policy).id? w.ledger = some id)
    (hne : id ≠ m.id) :
    ¬ w.Ends m reason (e.notify .direct .terminated (n.farewell reason policy) w) := by
  intro hends
  have hsettled : (n.leaving reason policy).Settled e w
      (e.notify .direct .terminated (n.farewell reason policy) w) :=
    settled_comply State.noConfusion
  have hrecord := hends.record
  obtain ⟨found, hfound, _⟩ := hends.accepted
  generalize e.notify .direct .terminated (n.farewell reason policy) w = answer
    at hsettled hrecord hfound
  cases hsettled with
  | away err hillegal => cases hfound
  | back err id hid hnot hillegal => cases hfound
  | written k hk =>
    have hname : k.id = id := (hk.find? hid).1
    have hothers := (grants_commit (n.leaving reason policy) e w k).others m.id
      (fun h => hne (hname.symm.trans h.symm))
    -- The record is as it was, and it was open.
    rw [hothers, hm] at hrecord
    exact hopen.ne_terminated (congrArg (·.state) (Option.some.inj hrecord))

/-- A termination message that is built for one of two records of a negotiation and handed to the
engine that has the other one ends that other one, with the reason of the message, and changes no
record besides, exactly unless the sender is the provider and the receiving store has a provider's
record of the sender's name.  So it is where both are in one store: there the provider's message
ends the provider's own record, and changes no record besides.  Where leases have ends nothing breaks
down on the way. -/
theorem farewell_ends_counterpart_unless_shared (e : Engine) (w : World) (n m : Negotiation)
    (hmates : n.IsMateOf m) (hm : w.ledger.find? m.id = some m) (hopen : m.IsOpen)
    (hfree : ¬ w.ledger.Shields m.id e.handle.holder w.now) (reason : Option String)
    (policy : Option Policy) :
    (w.Ends m reason (e.notify .direct .terminated (n.farewell reason policy) w)
        ↔ ¬ Negotiation.MistakesSender w.ledger n)
      ∧ (n.role = .provider → w.ledger.find? n.id = some n → n.IsOpen →
          ¬ w.ledger.Shields n.id e.handle.holder w.now →
          w.Ends n reason (e.notify .direct .terminated (n.farewell reason policy) w))
      ∧ (w.IsTimely e.handle →
          (e.notify .strict .terminated (n.farewell reason policy)).run w
            = (some (e.notify .direct .terminated (n.farewell reason policy) w).1,
              (e.notify .direct .terminated (n.farewell reason policy) w).2)) := by
  refine ⟨⟨fun hends hmistaken => ?_, fun hknown => ?_⟩, fun hrole hn hnopen hnfree => ?_,
    ((Access.strictly e.handle).passage.notify .terminated _).run w⟩
  · obtain ⟨hrole, k, hk, hkrole⟩ := hmistaken
    have haddr := Negotiation.addressee?_farewell_mistaken ⟨hrole, k, hk, hkrole⟩ reason policy
    have hown := Negotiation.processIdFor_farewell_own n reason policy
    rw [hrole] at hown
    exact not_ends_of_misnamed hopen hm ((Negotiation.id?_leaving haddr).trans hown)
      (hmates.ne_of_stored hm hk (hkrole.trans hrole.symm)) hends
  · exact ends_addressee (Negotiation.addressee?_farewell hmates hm hknown)
      (Negotiation.processIdFor_farewell hmates) rfl hm hopen hfree
  · have haddr := Negotiation.addressee?_farewell_mistaken ⟨hrole, n, hn, hrole⟩ reason policy
    have hown := Negotiation.processIdFor_farewell_own n reason policy
    rw [hrole] at hown
    exact ends_addressee haddr hown hrole hn hnopen hnfree

/-- A consumer's record and the provider's record of the same negotiation. -/
def wooing : Negotiation :=
  { Negotiation.new "c" .consumer "provider" "http://provider" "dsp" default with
    state := State.requested.code
    correlationId := some "p" }

@[inherit_doc wooing]
def wooed : Negotiation :=
  { Negotiation.new "p" .provider "consumer" "http://consumer" "dsp" default with
    state := State.requested.code
    correlationId := some "c" }

/-- With both in one store, the provider's message ends the provider's record. -/
theorem provider_ends_itself :
    let e : Engine := ⟨"both", "http://both", 10, 1, ⟨7, .immediate⟩, ⟨"both", 60000⟩,
      fun _ => false⟩
    let w : World := ⟨(Ledger.empty.put wooing).put wooed, default, .counted, []⟩
    let answer := e.notify .direct .terminated (wooed.farewell (some "stop") none) w
    ¬ w.Ends wooing (some "stop") answer ∧ w.Ends wooed (some "stop") answer
      ∧ (e.notify .strict .terminated (wooed.farewell (some "stop") none)).run w
        = (some answer.1, answer.2) := by
  intro e w answer
  have hmates : wooed.IsMateOf wooing := ⟨Role.noConfusion, rfl, rfl⟩
  have hopen : wooing.IsOpen := ⟨.requested, rfl, rfl⟩
  have hfree : ∀ id, ¬ w.ledger.Shields id e.handle.holder w.now := by
    rintro id ⟨lease, hlease, _⟩
    have hin : ∀ n ∈ w.ledger.entries, n.lease = none := by decide
    obtain ⟨n, hn, hnlease⟩ := Ledger.find?_of_lease? hlease
    rw [hin n (Ledger.mem_of_find? hn)] at hnlease
    cases hnlease
  obtain ⟨hiff, hown, hstrict⟩ := farewell_ends_counterpart_unless_shared e w wooed wooing hmates rfl hopen
    (hfree _) (some "stop") none
  refine ⟨fun hends => hiff.mp hends ⟨rfl, wooed, rfl, rfl⟩, ?_, hstrict (by decide +kernel)⟩
  exact hown rfl rfl ⟨.requested, rfl, rfl⟩ (hfree _)

end Engine

end Parley
