/-
  Parley.Proofs.Parties.Exchange
  ────────────────────────────────
  **ONE RECORD HANDLED IN A MEETING.**

  A party handles a record alone, or it sends a message: then the message is
  delivered, or not (`Delivery`), and what the reply makes of the record is
  written (`Landing`).  The other party's records change by the delivery only,
  and the party's own by the rest (`handle_effect`).
-/
import Parley.Proofs.Engine.Coherence
import Parley.Proofs.Parties.Meeting

namespace Parley

namespace Meeting

variable {parties : Party → Engine} {luck : Luck} {m m' : Meeting} {q : Party}

/-! ## §1. Sends. -/

/-- The reply that comes back for what a party made of a message. -/
def replyFor (msg : Message) : Handled → Reply
  | .ok n => .answered (msg.payload.acknowledgement n)
  | .error err => .failed err.asFailure

/-- How a message is delivered. -/
inductive Delivery (parties : Party → Engine) (q : Party) (msg : Message) (m : Meeting) :
    Fate → Meeting → Reply → Prop
  | undelivered (why : String) :
      Delivery parties q msg m (.undelivered why) m (.failed ⟨.retryable, why⟩)
  | returned (fate : Fate) (r : Handled) (w : World)
      (hr : Engine.Receipt (parties q.other) (m.world q.other) msg r w)
      (hheld : w.ledger.HeldBy (parties q.other).handle.holder)
      (hfate : fate = .returned ∨ ∃ err, r = .error err) :
      Delivery parties q msg m fate (m.setWorld q.other w) (replyFor msg r)
  | lost (why : String) (n : Negotiation) (w : World)
      (hr : Engine.Receipt (parties q.other) (m.world q.other) msg (.ok n) w)
      (hheld : w.ledger.HeldBy (parties q.other).handle.holder) :
      Delivery parties q msg m (.answerLost why)
        { m.setWorld q.other w with lost := m.lost ++ [msg] } (.failed ⟨.retryable, why⟩)

/-- The answer of the other party. -/
theorem answer_eq (e : Engine) (p : Party) (msg : Message) (m : Meeting) :
    e.answer (seat p) msg m = (replyFor msg (e.receive .direct msg (m.world p)).1,
      m.setWorld p (e.receive .direct msg (m.world p)).2) := by
  have hentry : within p (e.receive .direct msg) = e.receive (seat p) msg :=
    (entry p e.handle).passage.receive msg
  unfold Engine.answer
  rw [← hentry, run_bind]
  unfold within
  cases (e.receive .direct msg (m.world p)).1 <;> rfl

theorem deliver_answerLost (msg : Message) (why : String) (m : Meeting) :
    deliver parties q msg (.answerLost why) m
      = match (parties q.other).answer (seat q.other) msg m with
        | (.answered _, m') => (.failed ⟨.retryable, why⟩, { m' with lost := m'.lost ++ [msg] })
        | (reply, m') => (reply, m') := by
  unfold deliver deliverBy
  simp only
  rw [run_bind]
  generalize (parties q.other).answer (seat q.other) msg m = result
  obtain ⟨reply, m'⟩ := result
  cases reply <;> rfl

theorem deliver_effect (ho : (m.ledger q.other).HeldBy (parties q.other).handle.holder)
    (msg : Message) (f : Fate) :
    Delivery parties q msg m f (deliver parties q msg f m).2 (deliver parties q msg f m).1 := by
  obtain ⟨hr, hheld⟩ := (parties q.other).receive_effect (w := m.world q.other) ho msg
  cases f with
  | undelivered why => exact .undelivered why
  | returned =>
    show Delivery parties q msg m .returned
      ((parties q.other).answer (seat q.other) msg m).2
      ((parties q.other).answer (seat q.other) msg m).1
    rw [answer_eq]
    exact .returned .returned _ _ hr hheld (.inl rfl)
  | answerLost why =>
    rw [deliver_answerLost, answer_eq]
    generalize (parties q.other).receive .direct msg (m.world q.other) = result at hr hheld ⊢
    obtain ⟨r, w⟩ := result
    cases r with
    | error err => exact .returned (.answerLost why) _ w hr hheld (.inr ⟨err, rfl⟩)
    | ok n =>
      have hlost : (m.setWorld q.other w).lost = m.lost := lost_setWorld m q.other w
      have hdelivery := @Delivery.lost parties q msg m why n w hr hheld
      rw [← hlost] at hdelivery
      exact hdelivery

/-- A delivery leaves the sender's own records as they are. -/
theorem Delivery.ledger {msg : Message} {f : Fate} {reply : Reply}
    (h : Delivery parties q msg m f m' reply) : m'.ledger q = m.ledger q := by
  cases h with
  | undelivered why => rfl
  | returned fate r w hr hheld hfate => exact ledger_setWorld_other_self m q _
  | lost why n w hr hheld => exact ledger_setWorld_other_self m q _

/-- The meeting with one more send and its reply on record. -/
def logged (m : Meeting) (reply : Reply) : Meeting :=
  { m with sent := m.sent + 1, replies := m.replies ++ [reply] }

@[simp] theorem ledger_logged (m : Meeting) (reply : Reply) (q : Party) :
    (m.logged reply).ledger q = m.ledger q := by
  cases q <;> rfl

@[simp] theorem world_logged (m : Meeting) (reply : Reply) (q : Party) :
    (m.logged reply).world q = m.world q := by
  cases q <;> rfl

theorem send_eq (parties : Party → Engine) (luck : Luck) (q : Party) (f : Flight)
    (m : Meeting) :
    send parties luck q f m = ((deliver parties q f.message (luck.fate m.sent) m).1,
      (deliver parties q f.message (luck.fate m.sent) m).2.logged
        (deliver parties q f.message (luck.fate m.sent) m).1) := rfl

/-! ## §2. One record. -/

/-- How a record is handled: alone, or with a message. -/
inductive Exchange (parties : Party → Engine) (luck : Luck) (q : Party) (duty : Duty)
    (n : Negotiation) (m m' : Meeting) : Prop
  | alone (handled : Bool) (w : World)
      (hb : Engine.Beginning (parties q) (m.world q) duty n (.done handled) w)
      (hheld : w.ledger.HeldBy (parties q).handle.holder) (hm : m' = m.setWorld q w)
  | sent (message : Sending) (payload : Payload) (reply : Reply) (mid : Meeting) (w : World)
      (counts : Bool) (hduty : duty = .send message) (hguard : (parties q).guard n = false)
      (hpayload : (parties q).payloadFor message n m.now = .ok payload)
      (hd : Delivery parties q (.forNegotiation n payload) m (luck.fate m.sent) mid reply)
      (hl : Engine.Landing (parties q) (mid.world q) ⟨message, n, .forNegotiation n payload⟩ reply
        counts w)
      (hheld : w.ledger.HeldBy (parties q).handle.holder)
      (hm : m' = (mid.logged reply).setWorld q w)

/-- What is done in a party's world is done in the meeting. -/
theorem begin_seat (e : Engine) (q : Party) (role : Role) (duty : Duty) (n : Negotiation)
    (m : Meeting) :
    e.begin (seat q) role duty n m = ((e.begin .direct role duty n (m.world q)).1,
      m.setWorld q (e.begin .direct role duty n (m.world q)).2) := by
  have hentry : within q (e.begin .direct role duty n) = e.begin (seat q) role duty n :=
    (entry q e.handle).passage.begin role duty n
  rw [← hentry]
  rfl

theorem land_seat (e : Engine) (q : Party) (role : Role) (f : Flight) (reply : Reply)
    (m : Meeting) :
    e.land (seat q) role f reply m = ((e.land .direct role f reply (m.world q)).1,
      m.setWorld q (e.land .direct role f reply (m.world q)).2) := by
  have hentry : within q (e.land .direct role f reply) = e.land (seat q) role f reply :=
    (entry q e.handle).passage.land role f reply
  rw [← hentry]
  rfl

/-- Handling a record, step by step. -/
theorem handleRecord_eq (e : Engine) (q : Party) (role : Role) (duty : Duty) (n : Negotiation)
    (m : Meeting) :
    e.handleRecord (conduct parties luck q) role duty n m
      = match e.begin (seat q) role duty n m with
        | (.done handled, m') => (handled, m')
        | (.sending f, m') => e.land (seat q) role f (send parties luck q f m').1
            (send parties luck q f m').2 := by
  unfold Engine.handleRecord
  rw [run_bind]
  show _ = match e.begin (conduct parties luck q).toAccess role duty n m with
    | (.done handled, m') => (handled, m')
    | (.sending f, m') => e.land (seat q) role f (send parties luck q f m').1
        (send parties luck q f m').2
  generalize e.begin (conduct parties luck q).toAccess role duty n m = result
  obtain ⟨b, m'⟩ := result
  cases b <;> rfl

theorem handle_effect (hq : (m.ledger q).HeldBy (parties q).handle.holder)
    (ho : (m.ledger q.other).HeldBy (parties q.other).handle.holder) (role : Role) (duty : Duty)
    {n : Negotiation} (hn : n.offers ≠ []) :
    Exchange parties luck q duty n m
      ((parties q).handleRecord (conduct parties luck q) role duty n m).2 := by
  obtain ⟨hb, hheld⟩ := (parties q).begin_effect (w := m.world q) hq role duty hn
  rw [handleRecord_eq, begin_seat]
  generalize (parties q).begin .direct role duty n (m.world q) = result at hb hheld ⊢
  obtain ⟨b, w⟩ := result
  cases b with
  | done handled => exact .alone handled w hb hheld rfl
  | sending f =>
    cases hb with
    | parked hguard hb hw => cases hb
    | decided source target hduty hedge hb hw => cases hb
    | undecided source target hduty hedge hb hw => cases hb
    | delayed message hduty hdelay hb hw => cases hb
    | sending message payload hduty hguard hpayload hb hw =>
      cases hb
      have hworld : w = m.world q := hw
      subst hworld
      simp only [setWorld_world]
      rw [send_eq]
      -- The sender's own records are as they were when the reply comes.
      have hd := deliver_effect (q := q) ho (.forNegotiation n payload) (luck.fate m.sent)
      generalize deliver parties q (.forNegotiation n payload) (luck.fate m.sent) m = delivered at hd ⊢
      obtain ⟨reply, mid⟩ := delivered
      have hmid : (mid.ledger q).HeldBy (parties q).handle.holder := by
        rw [hd.ledger]
        exact hq
      obtain ⟨hl, hheld'⟩ := (parties q).land_effect (w := mid.world q) hmid role
        ⟨message, n, .forNegotiation n payload⟩ reply
      rw [land_seat, world_logged]
      exact .sent message payload reply mid _ _ hduty hguard hpayload hd hl hheld' rfl

/-! ## §3. What is left alone. -/

/-- Two parties that have their worlds to themselves and filled them themselves. -/
def IsOrderly (m : Meeting) (parties : Party → Engine) : Prop :=
  ∀ q, (m.world q).IsOrderly (parties q).handle.holder

/-- The other records of the party stay as they are. -/
theorem Exchange.content_of_ne {duty : Duty} {n : Negotiation}
    (h : Exchange parties luck q duty n m m') {id : String} (hid : n.id ≠ id) :
    (m'.ledger q).content id = (m.ledger q).content id := by
  cases h with
  | alone handled w hb hheld hm =>
    subst hm
    rw [ledger_setWorld_self]
    cases hb with
    | parked hguard hb hputs => exact hputs.content_of_ne hid
    | decided source target hduty hedge hb hputs => exact hputs.content_of_ne hid
    | undecided source target hduty hedge hb hsame => exact hsame.content id
    | delayed message hduty hdelay hb hsame => exact hsame.content id
    | sending message payload hduty hguard hpayload hb hw => cases hb
  | sent message payload reply mid w counts hduty hguard hpayload hd hl hheld hm =>
    subst hm
    rw [ledger_setWorld_self, ← hd.ledger]
    cases hl with
    | gone hn hw =>
      rw [hw]
      rfl
    | idle current hn hup hcounts hsame => exact hsame.content id
    | turned current n' kind hn hup hcounts hputs =>
      refine hputs.content_of_ne ?_
      rw [(Engine.turn_of_upshot hup).id, Ledger.id_of_content hn]
      exact hid

end Meeting

end Parley
