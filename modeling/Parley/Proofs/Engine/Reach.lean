/-
  Parley.Proofs.Engine.Reach
  ────────────────────────────────
  **HOW FAR AN OPERATION REACHES.**

  Where several engines share a store, what one operation may change is limited
  in two ways (`World.Reach`): it is about one record and leaves the others
  alone, and that record stays as it is as well if another engine's live lease
  is on it.

  Every use of the store keeps within these limits, so every operation does, and
  no case has to be made of what the store refuses:

      begin, land       reach the record that the engine leased
      messages          reach the record that they are about
      the wish to end   reaches the record of its id
      new records       have the id that was drawn for them
-/
import Parley.Proofs.Engine.Session
import Parley.Proofs.Ledger.Shield

namespace Parley

open Parley.Batch
open Parley.Retry

/-! ## §1. Limits. -/

/-- Between two worlds only the record of an id differs, and not even that if a live lease of
another one was on it. -/
structure World.Reach (h : Handle) (id : String) (w w' : World) : Prop where
  others : ∀ other, other ≠ id → w'.ledger.find? other = w.ledger.find? other
  shielded : w.ledger.Shields id h.holder w.now → w'.ledger.find? id = w.ledger.find? id
  now : w'.now = w.now
  supply : w'.supply = w.supply

namespace World.Reach

variable {h : Handle} {id : String} {w w' w'' : World}

theorem refl (h : Handle) (id : String) (w : World) : w.Reach h id w :=
  ⟨fun _ _ => rfl, fun _ => rfl, rfl, rfl⟩

theorem trans (h₁ : w.Reach h id w') (h₂ : w'.Reach h id w'') : w.Reach h id w'' where
  others other hne := (h₂.others other hne).trans (h₁.others other hne)
  shielded hs := by
    have hstays := h₁.shielded hs
    -- The lease is still there for what comes second.
    have hs' : w'.ledger.Shields id h.holder w'.now := by
      unfold Ledger.Shields
      rw [Ledger.lease?_congr hstays, h₁.now]
      exact hs
    exact (h₂.shielded hs').trans hstays
  now := h₂.now.trans h₁.now
  supply := h₂.supply.trans h₁.supply

/-- A record that is put in where none is shielded. -/
theorem put {n : Negotiation} (hn : n.id = id) (hfree : ¬ w.ledger.Shields id h.holder w.now) :
    w.Reach h id (w.withLedger (w.ledger.put n)) where
  others other hne := by
    rw [World.ledger_withLedger, Ledger.find?_put, if_neg]
    rw [hn]
    exact Ne.symm hne
  shielded hs := absurd hs hfree
  now := rfl
  supply := rfl

/-- A lease that is set where none is shielded. -/
theorem setLease (lease : Option Lease) (hfree : ¬ w.ledger.Shields id h.holder w.now) :
    w.Reach h id (w.withLedger (w.ledger.setLease id lease)) where
  others other hne := by
    rw [World.ledger_withLedger, Ledger.find?_setLease, if_neg hne]
  shielded hs := absurd hs hfree
  now := rfl
  supply := rfl

end World.Reach

/-- An operation that keeps within the limits from every world, and whose result meets a
condition. -/
def Confined (h : Handle) (id : String) (x : StateM World α)
    (result : α → Prop := fun _ => True) : Prop :=
  ∀ w, w.Reach h id (x w).2 ∧ result (x w).1

namespace Confined

variable {h : Handle} {id : String} {result : α → Prop}

theorem pure {a : α} (ha : result a) : Confined h id (Pure.pure a : StateM World α) result :=
  fun w => ⟨.refl h id w, ha⟩

theorem bind {x : StateM World α} {f : α → StateM World β} {result' : β → Prop}
    (hx : Confined h id x result) (hf : ∀ a, result a → Confined h id (f a) result') :
    Confined h id (x >>= f) result' := by
  intro w
  obtain ⟨hreach, ha⟩ := hx w
  obtain ⟨hreach', hb⟩ := hf _ ha (x w).2
  exact ⟨hreach.trans hreach', hb⟩

/-! ## §2. Uses of the store. -/

theorem now : Confined h id Access.direct.now :=
  fun w => ⟨.refl h id w, trivial⟩

theorem announce (news : Announcement) : Confined h id (Access.direct.announce news) :=
  fun _ => ⟨⟨fun _ _ => rfl, fun _ => rfl, rfl, rfl⟩, trivial⟩

theorem find : Confined h id (Access.direct.find id) fun found => ∀ n, found = some n → n.id = id :=
  fun w => ⟨.refl h id w, fun _ hn => Ledger.id_of_find? hn⟩

theorem save {n : Negotiation} (hn : n.id = id) :
    Confined h id (Access.direct.save h n) := by
  intro w
  rw [Access.save, Access.direct_attempt]
  cases hsave : w.ledger.save h w.now n with
  | error err => exact ⟨.refl h id w, trivial⟩
  | ok l =>
    obtain ⟨hfree, rfl⟩ := Ledger.save_eq_ok hsave
    exact ⟨.put hn (hn ▸ hfree), trivial⟩

theorem findAndLease :
    Confined h id (Access.direct.findAndLease h id) fun r => ∀ n, r = .ok n → n.id = id := by
  intro w
  rw [Access.findAndLease, Access.direct_attempt]
  cases hfound : w.ledger.findAndLease h w.now id with
  | error err =>
    refine ⟨.refl h id w, fun n hn => ?_⟩
    simp only [reduceCtorEq] at hn
  | ok found =>
    obtain ⟨n, l⟩ := found
    obtain ⟨hfree, ⟨stored, hstored, rfl⟩, rfl⟩ := Ledger.findAndLease_eq_ok hfound
    refine ⟨.setLease _ hfree, fun n hn => ?_⟩
    cases hn
    show stored.id = id
    exact Ledger.id_of_find? hstored

theorem breakLease : Confined h id (Access.direct.breakLease h id) := by
  intro w
  rw [Access.breakLease, Access.direct_attempt]
  cases hbroken : w.ledger.breakLease h w.now id with
  | error err => exact ⟨.refl h id w, trivial⟩
  | ok l =>
    obtain ⟨hfree, rfl⟩ := Ledger.breakLease_eq_ok hbroken
    exact ⟨.setLease none hfree, trivial⟩

theorem release : Confined h id (Access.direct.release h id) := by
  unfold Access.release
  exact breakLease.bind fun _ _ => pure trivial

/-! ## §3. Transitions. -/

variable {e : Engine} {n : Negotiation}

theorem persist (hn : n.id = id) (kind : State) :
    Confined e.handle id (e.persist .direct kind n) := by
  unfold Engine.persist
  refine (save hn).bind fun saved _ => ?_
  cases saved with
  | error err => exact pure trivial
  | ok _ => exact (announce _).bind fun _ _ => pure trivial

theorem transition (hn : n.id = id) (target : State) :
    Confined e.handle id (e.transition .direct n target) := by
  unfold Engine.transition
  refine now.bind fun instant _ => ?_
  cases hmove : n.moveTo target instant with
  | error err => exact pure trivial
  | ok m =>
    have hm : m.id = id := by
      rw [(Negotiation.moveTo_eq_ok hmove).2]
      exact hn
    exact persist hm target

theorem transitionAgreed (hn : n.id = id) (agreement : Agreement) :
    Confined e.handle id (e.transitionAgreed .direct n agreement) := by
  unfold Engine.transitionAgreed
  refine now.bind fun instant _ => ?_
  cases hagree : n.agreeOn agreement instant with
  | error err => exact pure trivial
  | ok m =>
    have hm : m.id = id := by
      rw [(Negotiation.agreeOn_eq_ok hagree).2.2]
      exact hn
    exact persist hm .agreed

theorem transitionTerminated (hn : n.id = id) (detail : Option String) :
    Confined e.handle id (e.transitionTerminated .direct n detail) := by
  unfold Engine.transitionTerminated
  refine now.bind fun instant _ => ?_
  cases hmove : n.moveTo .terminated instant with
  | error err => exact pure trivial
  | ok m =>
    have hm : m.id = id := by
      rw [(Negotiation.moveTo_eq_ok hmove).2]
      exact hn
    cases detail with
    | none => exact persist hm .terminated
    | some reason => exact persist (n := m.withErrorDetail reason) hm .terminated

/-! ## §4. Replies. -/

variable {f : Flight}

/-- A transition is judged by whether it succeeds. -/
theorem verdict {x : StateM World Handled} (hx : Confined h id x) :
    Confined h id (x >>= fun handled => Pure.pure handled.verdict) :=
  hx.bind fun _ _ => pure trivial

theorem onAnswer (hn : n.id = id) (response : Json) :
    Confined e.handle id (e.onAnswer .direct f n response) := by
  unfold Engine.onAnswer
  split
  · exact transition ((Engine.id_correlate n response).trans hn) .requested
  · exact transitionAgreed hn _
  · exact transitionTerminated hn none
  · exact transition hn _

/-- What an outcome of a send leads to, if it was classified by the record of an id. -/
theorem onOutcome {stored : Option Negotiation} (hstored : ∀ n, stored = some n → n.id = id)
    (result : Except DispatchFailure Json) :
    Confined e.handle id (e.onOutcome .direct f (e.retry.classify stored result)) := by
  unfold RetryPolicy.classify
  cases stored with
  | none => exact pure trivial
  | some n =>
    have hn := hstored n rfl
    cases result with
    | ok response => exact (onAnswer hn response).verdict
    | error failure =>
      simp only
      split
      · exact (transitionTerminated hn _).verdict
      · split
        · exact (transitionTerminated hn _).verdict
        · exact (transition hn _).verdict

theorem settle (hf : f.leased.id = id) (reply : Reply) :
    Confined e.handle id (e.settle .direct f reply) := by
  subst hf
  unfold Engine.settle
  cases reply with
  | panicked => exact pure trivial
  | answered response => exact find.bind fun stored hstored => onOutcome hstored _
  | failed failure => exact find.bind fun stored hstored => onOutcome hstored _

theorem conclude (hn : n.id = id) (role : Role) (duty : Duty) (verdict : Verdict) :
    Confined e.handle id ((e.job role duty).conclude .direct n verdict) := by
  subst hn
  cases verdict with
  | handled => exact pure trivial
  | unchanged | failed | panicked => exact release.bind fun _ _ => pure trivial

theorem land (role : Role) (f : Flight) (reply : Reply) :
    Confined e.handle f.leased.id (e.land .direct role f reply) := by
  unfold Engine.land
  exact (settle rfl reply).bind fun verdict _ => conclude rfl role _ verdict

/-! ## §5. The named record. -/

theorem leaseById : Confined e.handle id (e.leaseById .direct id) fun r =>
    ∀ n, r = .ok n → n.id = id := by
  unfold Engine.leaseById
  refine findAndLease.bind fun found hfound => ?_
  split
  · rename_i n
    refine pure fun m hm => ?_
    cases hm
    exact hfound n rfl
  · refine pure fun m hm => ?_
    cases hm
  · refine pure fun m hm => ?_
    cases hm

theorem refuse (hn : n.id = id) (error : NegotiationError) :
    Confined e.handle id (e.refuse .direct n error) := by
  subst hn
  unfold Engine.refuse
  exact release.bind fun _ _ => pure trivial

theorem acquire {m : Message} {role : Role} (hm : m.processIdFor role = some id) (target : State)
    {goOn : Negotiation → StateM World Handled}
    (hgo : ∀ n, n.id = id → Confined e.handle id (goOn n)) :
    Confined e.handle id (e.acquire .direct m role target goOn) := by
  unfold Engine.acquire
  rw [hm]
  refine leaseById.bind fun leased hleased => ?_
  cases leased with
  | error err => exact pure trivial
  | ok n =>
    have hn := hleased n rfl
    simp only
    split
    · exact refuse hn _
    · split
      · exact refuse hn _
      · exact hgo _ hn

theorem terminate (reason : String) :
    Confined e.handle id (e.terminate .direct id reason) := by
  unfold Engine.terminate
  refine leaseById.bind fun leased hleased => ?_
  cases leased with
  | error err => exact pure trivial
  | ok n =>
    have hn := hleased n rfl
    simp only
    split
    · exact refuse hn _
    · exact transition (n := (n.withPending false).withErrorDetail reason) hn .terminating

end Confined

/-! ## §6. Records that are begun. -/

namespace Engine

variable {e : Engine} {w : World} {n : Negotiation}

/-- How far a duty gets without a reply: to its end, within the limits, or up to a message, and then
nothing has changed. -/
inductive TakeReach (e : Engine) (w : World) (n : Negotiation) : Taken × World → Prop
  | concluded (verdict : Verdict) (w' : World) (hw : w.Reach e.handle n.id w') :
      TakeReach e w n (.concluded verdict, w')
  | inFlight (f : Flight) (hf : f.leased = n) : TakeReach e w n (.inFlight f, w)

theorem take_reach (e : Engine) (duty : Duty) (n : Negotiation) (w : World) :
    TakeReach e w n (e.take .direct duty n w) := by
  cases duty with
  | decide source target =>
    exact .concluded _ _ (Confined.transition (e := e) (n := n) rfl target w).1
  | send message =>
    simp only [take]
    rw [run_bind, Access.direct_now]
    simp only
    cases e.payloadFor message n w.now with
    | error reason =>
      exact .concluded _ _ (Confined.transitionTerminated (e := e) (n := n) rfl (some reason) w).1
    | ok payload =>
      simp only
      split
      · exact .concluded _ _ (.refl e.handle n.id w)
      · exact .inFlight _ rfl

/-- How far the handling of a record gets without a reply. -/
inductive BeginReach (e : Engine) (w : World) (n : Negotiation) : Begun × World → Prop
  | done (handled : Bool) (w' : World) (hw : w.Reach e.handle n.id w') :
      BeginReach e w n (.done handled, w')
  | sending (f : Flight) (hf : f.leased = n) : BeginReach e w n (.sending f, w)

theorem begin_reach (e : Engine) (role : Role) (duty : Duty) (n : Negotiation) (w : World) :
    BeginReach e w n (e.begin .direct role duty n w) := by
  unfold begin
  split
  · have hpark : Confined e.handle n.id (Access.direct.save e.handle (n.withPending true)) :=
      Confined.save rfl
    exact .done false _ (hpark w).1
  · rw [run_bind]
    have htake := take_reach e duty n w
    generalize e.take .direct duty n w = taken at htake ⊢
    cases htake with
    | concluded verdict w' hw =>
      have hconclude := Confined.conclude (e := e) (n := n) rfl role duty verdict w'
      exact .done _ _ (hw.trans hconclude.1)
    | inFlight f hf => exact .sending f hf

/-! ## §7. Calls. -/

theorem leaseById_absent {id : String} (hid : w.ledger.find? id = none) :
    e.leaseById .direct id w = (.error (.notFound id), w) := by
  have hfound : w.ledger.findAndLease e.handle w.now id = .error (.notFound id) := by
    unfold Ledger.findAndLease
    rw [hid]
  rw [leaseById, run_bind, Access.findAndLease, Access.direct_attempt, hfound]
  rfl

theorem terminate_absent {id : String} (hid : w.ledger.find? id = none) (reason : String) :
    (e.terminate .direct id reason w).2 = w := by
  rw [terminate, run_bind, leaseById_absent hid]
  rfl

theorem acquire_absent {m : Message} {role : Role} {id : String}
    (hm : m.processIdFor role = some id) (hid : w.ledger.find? id = none) (target : State)
    (goOn : Negotiation → StateM World Handled) :
    (e.acquire .direct m role target goOn w).2 = w := by
  rw [acquire, hm]
  simp only
  rw [run_bind, leaseById_absent hid]
  rfl

end Engine

/-- The record that a call is about, if it is about one: the one whose end is wished, or the one
that a message names for the role that it is for. -/
def Call.subject? (w : World) : Call → Option String
  | terminate id _ => some id
  | notify inlet m =>
    if inlet.takes m.payload then (m.addressee? w.ledger).bind m.processIdFor else none
  | _ => none

/-- What a call may touch: no record, or the stored one that it is about, or the one of an id that
is drawn. -/
inductive Call.Contact (e : Engine) (w : World) (c : Call) (w' : World) : Prop
  | nothing (hledger : w'.ledger = w.ledger) (hsupply : w'.supply = w.supply)
  | subject (id : String) (n : Negotiation) (hid : c.subject? w = some id)
      (hn : w.ledger.find? id = some n) (hw : w.Reach e.handle id w')
  | drawn (hw : w.draw.Reach e.handle w.nextId w')

namespace Call

variable {e : Engine} {w : World}

/-- A message that is about a record. -/
theorem acquire_contact {inlet : Inlet} {m : Message} {role : Role}
    (htakes : inlet.takes m.payload = true) (haddr : m.addressee? w.ledger = some role)
    (target : State) {goOn : Negotiation → StateM World Handled}
    (hgo : ∀ id n, n.id = id → Confined e.handle id (goOn n)) :
    Contact e w (.notify inlet m) (e.acquire .direct m role target goOn w).2 := by
  cases hm : m.processIdFor role with
  | none =>
    rw [Engine.acquire, hm]
    exact .nothing rfl rfl
  | some id =>
    cases hid : w.ledger.find? id with
    | none =>
      rw [Engine.acquire_absent hm hid]
      exact .nothing rfl rfl
    | some n =>
      refine .subject id n ?_ hid (Confined.acquire hm target (hgo id) w).1
      simp only [subject?, htakes, if_true, haddr]
      exact hm

theorem receive_contact {inlet : Inlet} {m : Message} (htakes : inlet.takes m.payload = true) :
    Contact e w (.notify inlet m) (e.receive .direct m w).2 := by
  unfold Engine.receive
  cases hm : m.payload with
  | contractRequest offer callbackAddress consumerId =>
    simp only [Engine.notifyRequested, hm]
    rw [run_bind, Access.direct_read]
    cases Engine.knownRequest? m.consumerPid w.ledger with
    | some n => exact .nothing rfl rfl
    | none =>
      simp only
      rw [run_bind, Access.direct_drawId, run_bind, Access.direct_now]
      have hopened (n : Negotiation) (hn : n.id = w.nextId) :
          w.draw.Reach e.handle w.nextId (e.transition .direct n .requested w.draw).2 :=
        (Confined.transition hn .requested w.draw).1
      exact .drawn (hopened _ rfl)
  | contractOffer offer =>
    simp only [Engine.notifyOffered, hm]
    refine acquire_contact htakes (by simp [Message.addressee?, hm]) _ fun id n hn => ?_
    refine Confined.transition ?_ .offered
    exact hn
  | negotiationEvent event =>
    cases event with
    | accepted =>
      simp only [Engine.notifyAccepted, hm]
      exact acquire_contact htakes (by simp [Message.addressee?, hm]) _ fun id n hn =>
        Confined.transition hn _
    | finalized =>
      simp only [Engine.notifyFinalized, hm]
      exact acquire_contact htakes (by simp [Message.addressee?, hm]) _ fun id n hn =>
        Confined.transition hn _
  | contractAgreement agreement =>
    simp only [Engine.notifyAgreed, hm]
    refine acquire_contact htakes (by simp [Message.addressee?, hm]) _ fun id n hn => ?_
    split
    · exact Confined.refuse hn _
    · exact Confined.transitionAgreed hn agreement
  | agreementVerification =>
    simp only [Engine.notifyVerified, hm]
    exact acquire_contact htakes (by simp [Message.addressee?, hm]) _ fun id n hn =>
      Confined.transition hn _
  | termination reason policy =>
    simp only [Engine.notifyTerminated, hm]
    rw [run_bind, Engine.receivingRole?_direct hm]
    cases haddr : m.addressee? w.ledger with
    | none => exact .nothing rfl rfl
    | some role =>
      exact acquire_contact htakes haddr _ fun id n hn => Confined.transitionTerminated hn reason

theorem contact (e : Engine) (w : World) (c : Call) : Contact e w c (c.run e w) := by
  unfold run
  cases c with
  | initiate r =>
    simp only [Engine.initiate]
    rw [run_bind, Access.direct_drawId, run_bind, Access.direct_now]
    have hopened (n : Negotiation) (hn : n.id = w.nextId) :
        w.draw.Reach e.handle w.nextId (e.persist .direct .initial n w.draw).2 :=
      (Confined.persist hn .initial w.draw).1
    exact .drawn (hopened _ rfl)
  | notify inlet m =>
    simp only
    rw [e.notify_eq]
    split
    · rename_i htakes
      exact receive_contact htakes
    · exact .nothing rfl rfl
  | terminate id reason =>
    simp only
    cases hid : w.ledger.find? id with
    | none =>
      rw [Engine.terminate_absent hid]
      exact .nothing rfl rfl
    | some n => exact .subject id n rfl hid (Confined.terminate reason w).1
  | advance ms => exact .nothing rfl rfl

end Call

/-! ## §8. Batches. -/

/-- A batch is work that the store hands out, or nothing. -/
theorem Engine.lease_cases (e : Engine) (role : Role) (duty : Duty) (w : World) :
    (e.job role duty).lease .direct w = ([], w)
      ∨ ∃ batch l, w.ledger.nextNotLeased e.handle w.now e.batchSize (e.job role duty).criteria
            = .ok (batch, l)
          ∧ (e.job role duty).lease .direct w = (batch, w.withLedger l) := by
  unfold Job.lease Access.nextNotLeased
  cases Query.validate (e.job role duty).criteria with
  | error err => exact .inl rfl
  | ok _ =>
    simp only
    rw [run_bind, Access.direct_attempt]
    cases hnext : w.ledger.nextNotLeased (e.job role duty).handle w.now (e.job role duty).batchSize
        (e.job role duty).criteria with
    | error err => exact .inl rfl
    | ok taken => exact .inr ⟨taken.1, taken.2, hnext, rfl⟩

end Parley
