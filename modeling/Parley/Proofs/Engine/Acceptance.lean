/-
  Parley.Proofs.Engine.Acceptance
  ────────────────────────────────
  **WHAT AN ENGINE GRANTS, AND WHAT THAT CHANGES.**

  An engine is asked to take a message about a negotiation, or to end one.  It
  grants what is legal (`Petition.IsLegal`) and refuses all else, whatever is
  stored and whatever the time:

      granted    the record is written as it was asked for (`Petition.made`),
                 and this is announced, once; nothing else changes
      refused    no record changes, but for the lease on the record that was
                 named; nothing is announced

  The record is leased before it is checked, so what is refused late may have
  cost it the lease that it had.

  Leases have to be judged for all this, so it is said of worlds in which they
  have ends, and where there is room for one count more.
-/
import Parley.Proofs.Engine.Reception
import Parley.Proofs.Engine.Timely
import Parley.Proofs.Negotiation.Progress

namespace Parley

/-! ## §1. Petitions. -/

/-- The state that a message handed to an operation is to lead to. -/
def Inlet.target : Inlet → State
  | requested => .requested
  | offered => .offered
  | accepted => .accepted
  | agreed => .agreed
  | verified => .verified
  | finalized => .finalized
  | terminated => .terminated

theorem Inlet.target_of_takes {inlet : Inlet} {payload : Payload}
    (h : inlet.takes payload = true) : payload.target = inlet.target := by
  cases payload with
  | negotiationEvent event =>
    cases event <;> cases inlet <;> first
      | rfl
      | cases h
  | _ =>
    cases inlet <;> first
      | rfl
      | cases h

/-- What an engine is asked: that one of its operations take a message, or that it end a
negotiation. -/
inductive Petition where
  | message (inlet : Inlet) (m : Message)
  | ending (id reason : String)
deriving DecidableEq, Repr

namespace Petition

/-- The state that a petition is to lead to. -/
def target : Petition → State
  | message inlet _ => inlet.target
  | ending .. => .terminating

/-- Whether the operation takes such a payload. -/
def isExpected : Petition → Bool
  | message inlet m => inlet.takes m.payload
  | ending .. => true

/-- The id that a petition names.  A message names one for the role that it is for. -/
def id? : Petition → Ledger → Option String
  | message _ m, l => (m.addressee? l).bind m.processIdFor
  | ending id _, _ => some id

/-- Whether a petition may be about a record of a role. -/
def suits : Petition → Ledger → Role → Prop
  | message _ m, l, role => m.addressee? l = some role
  | ending .., _, _ => True

/-- What a petition adds to a record. -/
def enrich : Petition → Negotiation → Negotiation
  | message _ m, n => m.enrich n
  | ending _ reason, n => n.withErrorDetail reason

/-- What a petition makes of a record. -/
def made (p : Petition) (n : Negotiation) (now : Instant) : Negotiation :=
  { p.enrich n with
    state := p.target.code
    stateCount := if n.state = p.target.code then n.stateCount + 1 else 0
    stateTimestamp := n.stateTimestamp.later now
    updatedAt := now
    pending := false
    lease := none }

/-- What it takes for a petition about a record to be granted. -/
structure IsLegal (p : Petition) (e : Engine) (w : World) (n : Negotiation) : Prop where
  expected : p.isExpected = true
  named : p.id? w.ledger = some n.id
  stored : w.ledger.find? n.id = some n
  suited : p.suits w.ledger n.role
  /-- No live lease of another one is on the record. -/
  free : ¬ w.ledger.Shields n.id e.handle.holder w.now
  edge : ∃ s : State, n.state = s.code ∧ s.canMoveTo p.target = true
  unset : p.target = .agreed → n.agreement = none

/-- How the world is after a petition about a record was granted. -/
structure Grants (p : Petition) (e : Engine) (w : World) (n found : Negotiation) (w' : World) :
    Prop where
  record : w'.ledger.find? n.id = some (p.made n w.now)
  others : ∀ id, id ≠ n.id → w'.ledger.find? id = w.ledger.find? id
  /-- The answer is the record as it was written, with the lease under which that was done. -/
  answer : found = (p.made n w.now).withLease (some (e.handle.leaseAt w.now))
  announced : w'.announced = w.announced ++ [⟨p.target, found⟩]
  supply : w'.supply = w.supply
  now : w'.now = w.now

/-- How the world is after a petition was refused. -/
structure Refuses (p : Petition) (e : Engine) (w w' : World) : Prop where
  kept : ∀ id, w'.ledger.find? id = w.ledger.find? id
    ∨ p.id? w.ledger = some id ∧ ¬ w.ledger.Shields id e.handle.holder w.now
      ∧ w'.ledger.find? id = (w.ledger.find? id).map (·.withLease none)
  announced : w'.announced = w.announced
  supply : w'.supply = w.supply
  now : w'.now = w.now

end Petition

/-- Do what a petition asks for, or refuse it. -/
def Engine.comply {M : Type → Type} [Monad M] (e : Engine) (a : Access M) : Petition → M Handled
  | .message inlet m => e.notify a inlet m
  | .ending id reason => e.terminate a id reason

/-- A petition is complied with in the same way. -/
theorem Passage.comply {M N : Type → Type} [Monad M] [Monad N] {a : Access M} {b : Access N}
    {e : Engine} (φ : Passage a b e) (p : Petition) :
    φ.rel Handled.isRefused (e.comply a p) (e.comply b p) := by
  cases p with
  | message inlet m => exact φ.notify inlet m
  | ending id reason => exact φ.terminate id reason

/-- Whether there is room to count every stored record once more. -/
def Ledger.HasRoom (l : Ledger) : Prop :=
  ∀ id n, l.find? id = some n → n.stateCount < Lifecycle.maxCount

/-! ## §2. The two ways in which a petition is settled. -/

namespace Petition

variable {p : Petition} {e : Engine} {w : World} {n : Negotiation}

/-- How a petition is settled: the named record is written, or the engine turns away before it has
leased anything, or it gives the lease back. -/
inductive Settled (p : Petition) (e : Engine) (w : World) : Handled × World → Prop
  | written (n : Negotiation) (hlegal : p.IsLegal e w n) :
      Settled p e w (.ok ((p.made n w.now).withLease (some (e.handle.leaseAt w.now))),
        (w.lend e.handle n.id).commit p.target
          ((p.made n w.now).withLease (some (e.handle.leaseAt w.now))))
  | away (err : NegotiationError) (hillegal : ∀ n, ¬ p.IsLegal e w n) :
      Settled p e w (.error err, w)
  | back (err : NegotiationError) (id : String) (hid : p.id? w.ledger = some id)
      (hfree : ¬ w.ledger.Shields id e.handle.holder w.now) (hillegal : ∀ n, ¬ p.IsLegal e w n) :
      Settled p e w (.error err, (w.lend e.handle id).free id)

/-- A legal petition is about the record that is stored for the id that it names. -/
theorem IsLegal.find? (h : p.IsLegal e w n) {id : String} (hid : p.id? w.ledger = some id) :
    n.id = id ∧ w.ledger.find? id = some n := by
  have hname : n.id = id := Option.some.inj (h.named.symm.trans hid)
  exact ⟨hname, hname ▸ h.stored⟩

/-- Where nothing is stored nothing is legal. -/
theorem not_isLegal_of_absent {id : String} (hid : p.id? w.ledger = some id)
    (habsent : w.ledger.find? id = none) (n : Negotiation) : ¬ p.IsLegal e w n := by
  intro h
  rw [(h.find? hid).2] at habsent
  cases habsent

/-- What is shielded is not to be touched. -/
theorem not_isLegal_of_shields {id : String} (hid : p.id? w.ledger = some id)
    (hs : w.ledger.Shields id e.handle.holder w.now) (n : Negotiation) : ¬ p.IsLegal e w n := by
  intro h
  rw [← (h.find? hid).1] at hs
  exact h.free hs

/-- What a message makes of a leased record. -/
theorem outcome_eq_made {inlet : Inlet} {m : Message} (hm : inlet.takes m.payload = true)
    (n : Negotiation) (lease : Option Lease) (now : Instant) :
    m.outcome (n.withLease lease) now = ((message inlet m).made n now).withLease lease := by
  have htarget := Inlet.target_of_takes hm
  have henrich : (message inlet m).enrich n = m.enrich n := rfl
  unfold Message.outcome made
  rw [htarget, henrich]
  unfold Message.enrich
  cases m.payload with
  | termination reason policy => cases reason <;> rfl
  | _ => rfl

/-- A message about a stored record that is not shielded is legal exactly if it is accepted. -/
theorem isLegal_message_iff {inlet : Inlet} {m : Message} {role : Role}
    (htakes : inlet.takes m.payload = true) (haddr : m.addressee? w.ledger = some role)
    (hpid : m.processIdFor role = some n.id) (hn : w.ledger.find? n.id = some n)
    (hfree : ¬ w.ledger.Shields n.id e.handle.holder w.now) (lease : Option Lease) :
    (message inlet m).IsLegal e w n
      ↔ ∃ n', m.acceptedBy role (n.withLease lease) w.now = .ok n' := by
  have htarget := Inlet.target_of_takes htakes
  have hedge : (n.withLease lease).checkEdge m.payload.target = .ok ()
      ↔ ∃ s : State, n.state = s.code ∧ s.canMoveTo inlet.target = true := by
    rw [htarget]
    exact Negotiation.checkEdge_eq_ok_iff
  have hset : m.payload.isAgreement = true ↔ inlet.target = .agreed := by
    rw [m.payload.isAgreement_iff, htarget]
  constructor
  · intro h
    have hrole : role = n.role := Option.some.inj (haddr.symm.trans h.suited)
    refine ⟨_, Message.acceptedBy_eq_ok_iff.mpr ⟨hrole.symm, hedge.mpr h.edge, ?_, rfl⟩⟩
    exact fun hagreement => h.unset (hset.mp hagreement)
  · rintro ⟨n', hok⟩
    obtain ⟨hrole, hcheck, hunset, _⟩ := Message.acceptedBy_eq_ok_iff.mp hok
    have hrole' : n.role = role := hrole
    exact
      { expected := htakes
        named := by
          show (m.addressee? w.ledger).bind m.processIdFor = some n.id
          rw [haddr]
          exact hpid
        stored := hn
        suited := by
          show m.addressee? w.ledger = some n.role
          rw [haddr, hrole']
        free := hfree
        edge := hedge.mp hcheck
        unset := fun htarget => hunset (hset.mpr htarget) }

theorem id?_message {m : Message} {l : Ledger} {role : Role} (inlet : Inlet)
    (haddr : m.addressee? l = some role) : (message inlet m).id? l = m.processIdFor role := by
  show (m.addressee? l).bind m.processIdFor = _
  rw [haddr]
  rfl

/-- A message for a role that is not shielded from the record that it names. -/
theorem settled_received {inlet : Inlet} {m : Message} {role : Role}
    (htakes : inlet.takes m.payload = true) (haddr : m.addressee? w.ledger = some role)
    (hfree : ∀ id, m.processIdFor role = some id →
      ¬ w.ledger.Shields id e.handle.holder w.now) :
    Settled (message inlet m) e w (e.received w m role) := by
  have hid := id?_message inlet haddr
  unfold Engine.received
  cases hpid : m.processIdFor role with
  | none =>
    refine .away _ fun n h => ?_
    have hnamed := h.named
    rw [hid, hpid] at hnamed
    cases hnamed
  | some id =>
    rw [hpid] at hid
    simp only
    cases hn : w.ledger.find? id with
    | none => exact .away _ (not_isLegal_of_absent hid hn)
    | some n =>
      have hname : n.id = id := Ledger.id_of_find? hn
      subst hname
      have hiff := isLegal_message_iff htakes haddr hpid hn (hfree n.id hpid)
        (some (e.handle.leaseAt w.now))
      simp only
      cases hok : m.acceptedBy role (n.withLease (some (e.handle.leaseAt w.now))) w.now with
      | error err =>
        refine .back err n.id hid (hfree n.id hpid) fun n' h => ?_
        cases (h.find? hid).2.symm.trans hn
        obtain ⟨made, hmade⟩ := hiff.mp h
        cases hok.symm.trans hmade
      | ok n' =>
        obtain ⟨_, _, _, rfl⟩ := Message.acceptedBy_eq_ok_iff.mp hok
        simp only
        rw [Inlet.target_of_takes htakes, outcome_eq_made htakes]
        exact .written n (hiff.mpr ⟨_, hok⟩)

/-- A message that is handed to an operation. -/
theorem settled_message {inlet : Inlet} (hinlet : inlet.target ≠ .requested) (m : Message) :
    Settled (message inlet m) e w (e.notify .direct inlet m w) := by
  rw [Engine.notify_eq]
  by_cases htakes : inlet.takes m.payload = true
  · rw [if_pos htakes]
    have hplain : m.payload.target ≠ .requested := by
      rw [Inlet.target_of_takes htakes]
      exact hinlet
    cases haddr : m.addressee? w.ledger with
    | none =>
      rw [Engine.receive_eq_acquire hplain, haddr]
      refine .away _ fun n h => ?_
      have hsuited : m.addressee? w.ledger = some n.role := h.suited
      rw [haddr] at hsuited
      cases hsuited
    | some role =>
      by_cases hshield : ∃ id, m.processIdFor role = some id
          ∧ w.ledger.Shields id e.handle.holder w.now
      -- A lease of another one is noticed before anything else.
      · obtain ⟨id, hpid, hs⟩ := hshield
        have hid := (id?_message inlet haddr).trans hpid
        have hillegal := not_isLegal_of_shields hid hs
        obtain ⟨lease, hlease, hlive⟩ := hs
        rw [Engine.receive_of_lease? hplain haddr hpid hlease hlive]
        exact .away _ hillegal
      · have hfree : ∀ id, m.processIdFor role = some id →
            ¬ w.ledger.Shields id e.handle.holder w.now :=
          fun id hpid hs => hshield ⟨id, hpid, hs⟩
        rw [Engine.receive_of_not_shields hplain haddr hfree]
        exact settled_received htakes haddr hfree
  · rw [if_neg htakes]
    exact .away _ fun n h => htakes h.expected

/-- The wish to end a negotiation. -/
theorem settled_ending (id reason : String) :
    Settled (.ending id reason) e w (e.terminate .direct id reason w) := by
  have hid : (ending id reason).id? w.ledger = some id := rfl
  by_cases hshield : w.ledger.Shields id e.handle.holder w.now
  · have hillegal := not_isLegal_of_shields hid hshield
    obtain ⟨lease, hlease, hlive⟩ := hshield
    rw [Engine.terminate_of_lease? hlease hlive]
    exact .away _ hillegal
  · rw [Engine.terminate_direct hshield]
    cases hn : w.ledger.find? id with
    | none => exact .away _ (not_isLegal_of_absent hid hn)
    | some n =>
      have hname : n.id = id := Ledger.id_of_find? hn
      subst hname
      simp only
      cases hedge : n.checkEdge .terminating with
      | error err =>
        refine .back _ n.id hid hshield fun n' h => ?_
        cases (h.find? hid).2.symm.trans hn
        cases hedge.symm.trans (Negotiation.checkEdge_eq_ok_iff.mpr h.edge)
      | ok _ =>
        refine .written n
          { expected := rfl
            named := hid
            stored := hn
            suited := trivial
            free := hshield
            edge := Negotiation.checkEdge_eq_ok_iff.mp hedge
            unset := fun htarget => by cases htarget }

theorem settled_comply (hp : p.target ≠ .requested) : Settled p e w (e.comply .direct p w) := by
  cases p with
  | message inlet m => exact settled_message hp m
  | ending id reason => exact settled_ending id reason

/-! ## §3. Granted and refused. -/

theorem id_made (p : Petition) (n : Negotiation) (now : Instant) : (p.made n now).id = n.id := by
  show (p.enrich n).id = n.id
  cases p with
  | message inlet m => exact m.id_enrich n
  | ending id reason => rfl

/-- Writing the record that a petition names. -/
theorem grants_commit (p : Petition) (e : Engine) (w : World) (n : Negotiation) :
    p.Grants e w n ((p.made n w.now).withLease (some (e.handle.leaseAt w.now)))
      ((w.lend e.handle n.id).commit p.target
        ((p.made n w.now).withLease (some (e.handle.leaseAt w.now)))) := by
  have hid : (((p.made n w.now).withLease (some (e.handle.leaseAt w.now))).withLease none).id
      = n.id := p.id_made n w.now
  refine ⟨?_, fun id hne => ?_, rfl, rfl, rfl, rfl⟩
  · rw [World.ledger_commit, Ledger.find?_put, if_pos hid]
    rfl
  · rw [World.ledger_commit, Ledger.find?_put, if_neg (by rw [hid]; exact hne.symm),
      World.ledger_lend, Ledger.find?_setLease, if_neg hne]

/-- Giving back the lease on the record that a petition names. -/
theorem refuses_free {id : String} (hid : p.id? w.ledger = some id)
    (hfree : ¬ w.ledger.Shields id e.handle.holder w.now) :
    p.Refuses e w ((w.lend e.handle id).free id) := by
  refine ⟨fun other => ?_, rfl, rfl, rfl⟩
  rw [World.ledger_free, Ledger.find?_setLease, World.ledger_lend, Ledger.find?_setLease]
  by_cases hother : other = id
  · subst hother
    refine .inr ⟨hid, hfree, ?_⟩
    rw [if_pos rfl, if_pos rfl, Option.map_map]
    rfl
  · rw [if_neg hother, if_neg hother]
    exact .inl rfl

end Petition

namespace Petition

variable {p : Petition} {e : Engine} {w : World}

/-- The count of a record that is written has room. -/
theorem IsLegal.count_le {n : Negotiation} (h : p.IsLegal e w n) (hroom : w.ledger.HasRoom)
    (now : Instant) : (p.made n now).stateCount ≤ Lifecycle.maxCount := by
  have hcount := hroom n.id n h.stored
  show (if n.state = p.target.code then n.stateCount + 1 else 0) ≤ Lifecycle.maxCount
  split
  · exact hcount
  · exact Nat.zero_le _

/-- How a petition was settled says what came of it. -/
theorem Settled.exactly {answer : Handled} {w' : World} (hsettled : p.Settled e w (answer, w')) :
    ((∃ found, answer = .ok found) ↔ ∃ n, p.IsLegal e w n)
      ∧ (∀ found, answer = .ok found → ∃ n, p.IsLegal e w n ∧ p.Grants e w n found w')
      ∧ ∀ err, answer = .error err → p.Refuses e w w' := by
  cases hsettled with
  | written n hlegal =>
    refine ⟨⟨fun _ => ⟨n, hlegal⟩, fun _ => ⟨_, rfl⟩⟩, ?_, fun err herr => by cases herr⟩
    rintro found ⟨⟩
    exact ⟨n, hlegal, p.grants_commit e w n⟩
  | away err hillegal =>
    refine ⟨⟨fun ⟨found, h⟩ => (by cases h), fun ⟨n, h⟩ => (hillegal n h).elim⟩,
      fun found h => (by cases h), fun _ _ => ⟨fun id => .inl rfl, rfl, rfl, rfl⟩⟩
  | back err id hid hfree hillegal =>
    refine ⟨⟨fun ⟨found, h⟩ => (by cases h), fun ⟨n, h⟩ => (hillegal n h).elim⟩,
      fun found h => (by cases h), fun _ _ => Petition.refuses_free hid hfree⟩

end Petition

/-- Whatever is stored and whatever the time, if leases have ends and counts have room: a message that
is handed to an operation, other than that for requests, and the wish to end a negotiation are answered,
and granted exactly if they are legal.  What is granted writes the record as it was asked for, changes
nothing else, and is announced once.  What is refused changes nothing but the lease on the record that
is named, and that only if no live lease of another one is on it. -/
theorem comply_grants_exactly_legal (e : Engine) (p : Petition) (hp : p.target ≠ .requested)
    (w : World) (hw : w.IsTimely e.handle) (hroom : w.ledger.HasRoom) :
    ∃ (answer : Handled) (w' : World), (e.comply .strict p).run w = (some answer, w')
      ∧ ((∃ found, answer = .ok found) ↔ ∃ n, p.IsLegal e w n)
      ∧ (∀ found, answer = .ok found → ∃ n, p.IsLegal e w n ∧ p.Grants e w n found w'
          ∧ found.stateCount ≤ Lifecycle.maxCount)
      ∧ ∀ err, answer = .error err → p.Refuses e w w' := by
  have hsettled : p.Settled e w (e.comply .direct p w) := Petition.settled_comply hp
  obtain ⟨hlegal, hgranted, hrefused⟩ := hsettled.exactly
  refine ⟨_, _, ((Access.strictly e.handle).passage.comply p).run w hw, hlegal, ?_, hrefused⟩
  intro found hfound
  obtain ⟨n, hn, hgrants⟩ := hgranted found hfound
  refine ⟨n, hn, hgrants, ?_⟩
  rw [hgrants.answer]
  exact hn.count_le hroom w.now

/-- A consumer's negotiation that waits for the agreement.  Another worker's lease on it ran out
just now. -/
def standing : Negotiation :=
  { Negotiation.new "n" .consumer "provider" "http://provider" "dsp" default with
    state := State.accepted.code
    offers := [⟨"offer", "asset", "provider", {}⟩]
    lease := some ⟨"other", default, 0⟩ }

/-- The agreement that it waits for. -/
def bringsAgreement : Message :=
  ⟨"dsp", "http://consumer", "n", none,
    .contractAgreement ⟨"agreement", "provider", "consumer", "asset", {}, default⟩⟩

/-- The agreement is taken. -/
theorem agreement_granted_after_lapse :
    let e : Engine := ⟨"consumer", "http://consumer", 10, 1, ⟨7, .immediate⟩, ⟨"consumer", 60000⟩,
      fun _ => false⟩
    let w : World := ⟨Ledger.empty.put standing, default, .counted, []⟩
    Inlet.agreed.target ≠ .requested ∧ w.IsTimely e.handle ∧ w.ledger.HasRoom
      ∧ ∃ found w', (e.comply .strict (.message .agreed bringsAgreement)).run w
          = (some (.ok found), w')
        ∧ w'.ledger.find? "n"
          = some ((Petition.message .agreed bringsAgreement).made standing w.now) := by
  intro e w
  have hplain : Inlet.agreed.target ≠ .requested := by decide
  have hstored : w.ledger.find? "n" = some standing := rfl
  have htimely : w.IsTimely e.handle := by decide +kernel
  have hroom : w.ledger.HasRoom := by
    intro id n hn
    have hn : (Ledger.empty.put standing).find? id = some n := hn
    rw [Ledger.find?_put] at hn
    split at hn
    · cases hn
      decide
    · cases hn
  have hlegal : (Petition.message .agreed bringsAgreement).IsLegal e w standing :=
    { expected := rfl
      named := rfl
      stored := hstored
      suited := rfl
      free := by
        rintro ⟨lease, hlease, hlive⟩
        cases hlease
        revert hlive
        decide
      edge := ⟨.accepted, rfl, rfl⟩
      unset := fun _ => rfl }
  obtain ⟨answer, w', hrun, hiff, hgranted, _⟩ :=
    comply_grants_exactly_legal e (.message .agreed bringsAgreement) hplain w htimely hroom
  obtain ⟨found, rfl⟩ := hiff.mpr ⟨standing, hlegal⟩
  obtain ⟨n, hn, hgrants, _⟩ := hgranted found rfl
  obtain ⟨hname, hfind⟩ := hn.find? hlegal.named
  cases hfind.symm.trans hstored
  exact ⟨hplain, htimely, hroom, found, w', hrun, hgrants.record⟩

end Parley
