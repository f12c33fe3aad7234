/-
  Parley.Proofs.Engine.Calls
  ────────────────────────────────
  **WHICH CALL DOES WHAT TO A RECORD.**

  A call writes one record at most.  It is the one that is named, by the message
  that comes in or by the wish to end it; or it is a new one, for the wish to
  negotiate or for a contract request that is not known (`Call.Touches`).  A
  record that a call does not name stays as it is (`content_of_not_names`).
-/
import Parley.Proofs.Engine.Office

namespace Parley

namespace Call

/-! ## §1. The record that a call is about. -/

/-- Whether a call names a record: a message does for either role, and so does the wish to end it. -/
def names (id : String) : Call → Bool
  | initiate _ | advance _ => false
  | notify _ m => m.processIdFor .consumer == some id || m.processIdFor .provider == some id
  | terminate other _ => other == id

theorem names_notify {inlet : Inlet} {m : Message} {role : Role} {id : String}
    (hpid : m.processIdFor role = some id) : (notify inlet m).names id = true := by
  show (m.processIdFor .consumer == some id || m.processIdFor .provider == some id) = true
  cases role with
  | consumer => rw [hpid, beq_self_eq_true, Bool.true_or]
  | provider => rw [hpid, beq_self_eq_true, Bool.or_true]

theorem names_terminate (id reason : String) : (terminate id reason).names id = true :=
  beq_self_eq_true id

/-! ## §2. What becomes of a record. -/

/-- What a call makes of what is stored for an id. -/
inductive Touches (e : Engine) (w : World) (c : Call) (id : String) : Prop
  | kept (hcontent : (c.run e w).ledger.content id = w.ledger.content id)
  | accepted (inlet : Inlet) (m : Message) (n : Negotiation) (hcall : c = .notify inlet m)
      (haddr : m.addressee? w.ledger = some n.role) (hpid : m.processIdFor n.role = some id)
      (hn : w.ledger.content id = some n)
      (hok : m.acceptedBy n.role n w.now = .ok (m.outcome n w.now))
      (hn' : (c.run e w).ledger.content id = some ((m.outcome n w.now).withLease none))
  | doomed (reason : String) (n : Negotiation) (hcall : c = .terminate id reason)
      (hn : w.ledger.content id = some n) (hedge : n.checkEdge .terminating = .ok ())
      (hn' : (c.run e w).ledger.content id
        = some ((Engine.doomed n reason w.now).withLease none))
  | initiated (r : ContractRequest) (hcall : c = .initiate r) (hid : id = w.nextId)
      (hn' : (c.run e w).ledger.content id = some ((r.opened id w.now).withLease none))
  | requested (inlet : Inlet) (m : Message) (offer : Offer) (callbackAddress consumerId : String)
      (hcall : c = .notify inlet m) (hid : id = w.nextId)
      (hunknown : Engine.knownRequest? m.consumerPid w.ledger = none)
      (hn' : (c.run e w).ledger.content id
        = some ((m.opened offer callbackAddress consumerId id w.now).withLease none))

variable {e : Engine} {w : World}

/-- Writing the next record touches that record only. -/
theorem content_of_bears {w' : World} {n : Negotiation} (h : w.Bears w' n) (id : String) :
    id = w.nextId ∧ w'.ledger.content id = some (n.withLease none)
      ∨ w'.ledger.content id = w.ledger.content id := by
  rw [h.content]
  by_cases hid : n.id = id
  · rw [if_pos hid]
    exact .inl ⟨hid.symm.trans h.id, rfl⟩
  · rw [if_neg hid]
    exact .inr rfl

theorem touches_of_receipt {inlet : Inlet} {m : Message} {r : Handled} {w' : World}
    (hw' : ((notify inlet m).run e w) = w') (h : Engine.Receipt e w m r w') (id : String) :
    Touches e w (notify inlet m) id := by
  subst hw'
  cases h with
  | refused err hr hm hno hsame => exact .kept (hsame.content id)
  | known offer callbackAddress consumerId n hm hn hr hsame => exact .kept (by rw [hsame])
  | accepted role n found haddr hpid hn hok hr hid hputs =>
    obtain ⟨hrole, _⟩ := Message.acceptedBy_eq_ok_iff.mp hok
    subst hrole
    by_cases hname : n.id = id
    · subst hname
      have hself := hputs.content_self
      rw [Message.id_outcome] at hself
      exact .accepted inlet m n rfl haddr hpid hn hok hself
    · exact .kept (hputs.content_of_ne (by rw [Message.id_outcome]; exact hname))
  | opened offer callbackAddress consumerId hm hunknown hr hbears =>
    rcases content_of_bears hbears id with ⟨rfl, hn'⟩ | hkept
    · exact .requested inlet m offer callbackAddress consumerId rfl rfl hunknown hn'
    · exact .kept hkept

theorem touches (hw : w.ledger.HeldBy e.handle.holder) (c : Call) (id : String) :
    Touches e w c id := by
  cases c with
  | advance ms => exact .kept rfl
  | initiate r =>
    rcases content_of_bears (e.initiate_effect hw r).1 id with ⟨rfl, hn'⟩ | hkept
    · exact .initiated r rfl rfl hn'
    · exact .kept hkept
  | notify inlet m =>
    by_cases htakes : inlet.takes m.payload = true
    · have hrun : (notify inlet m).run e w = (e.receive .direct m w).2 := by
        unfold run
        simp only
        rw [e.notify_eq, if_pos htakes]
      exact touches_of_receipt hrun (e.receive_effect hw m).1 id
    -- The operation does not take such messages.
    · have hrun : (notify inlet m).run e w = w := by
        unfold run
        simp only
        rw [e.notify_eq, if_neg htakes]
        rfl
      exact .kept (by rw [hrun])
  | terminate other reason =>
    rcases (e.terminate_effect hw other reason).1 with hsame | ⟨n, hn, hedge, hputs⟩
    · exact .kept (hsame.content id)
    · have hname : n.id = other := Ledger.id_of_content hn
      by_cases hid : other = id
      · subst hid
        have hself := hputs.content_self
        have hdoomed : (Engine.doomed n reason w.now).id = other := hname
        rw [hdoomed] at hself
        exact .doomed reason n rfl hn hedge hself
      · exact .kept (hputs.content_of_ne fun hdoomed => hid (hname.symm.trans hdoomed))

/-- The wish to end a record that may be ended is granted. -/
theorem terminate_of_edge (hw : w.ledger.HeldBy e.handle.holder) {id : String} {n : Negotiation}
    (hn : w.ledger.content id = some n) (hedge : n.checkEdge .terminating = .ok ())
    (reason : String) : (e.terminate .direct id reason w).1.isOk = true
      ∧ ((terminate id reason).run e w).ledger.content id
        = some ((Engine.doomed n reason w.now).withLease none) := by
  obtain ⟨stored, hstored, rfl⟩ := Ledger.find?_of_content hn
  have hid : stored.id = id := Ledger.id_of_find? hstored
  subst hid
  have hedge' : stored.checkEdge .terminating = .ok () := hedge
  unfold run
  simp only
  rw [Engine.terminate_direct (hw.not_shields stored.id w.now), hstored]
  simp only [hedge']
  exact ⟨rfl, (World.puts_lend_commit w e.handle .terminating
    (Engine.doomed (stored.withLease (some (e.handle.leaseAt w.now))) reason w.now)).content_self⟩

/-- A record that a call does not name stays as it is. -/
theorem content_of_not_names (hw : w.IsOrderly e.handle.holder) {c : Call} {id : String}
    (hnames : c.names id = false) {n : Negotiation} (hn : w.ledger.content id = some n) :
    (c.run e w).ledger.content id = some n := by
  -- The id of a new record was free.
  have hnew (hid : id = w.nextId) : (c.run e w).ledger.content id = some n := by
    rw [hid, hw.content_nextId] at hn
    cases hn
  cases touches hw.held c id with
  | kept hcontent => exact hcontent.trans hn
  | accepted inlet m n hcall haddr hpid hm hok hn' =>
    rw [hcall, names_notify hpid] at hnames
    cases hnames
  | doomed reason n hcall hm hedge hn' =>
    rw [hcall, names_terminate] at hnames
    cases hnames
  | initiated r hcall hid hn' => exact hnew hid
  | requested inlet m offer callbackAddress consumerId hcall hid hunknown hn' => exact hnew hid

end Call

end Parley
