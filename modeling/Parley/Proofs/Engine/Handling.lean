/-
  Parley.Proofs.Engine.Handling
  ────────────────────────────────
  **HANDLING ONE RECORD, IN PLAIN WORDS.**

  Up to the message (`begin_direct`): a record that the guard holds back is
  stored as it was leased, but pending; a decision is taken at once; otherwise a
  message goes out, unless its delay has not passed.

  From the reply on (`land_direct`): the record is read again, and what the
  reply makes of it (`upshot`) is stored.  If it makes nothing of it the lease is
  given back, and if the record is gone nothing happens.

  Both hold wherever the record is not shielded from the engine
  (`begin_of_not_shields`, `land_of_not_shields`).
-/
import Parley.Proofs.Engine.Direct

namespace Parley

open Parley.Batch
open Parley.Retry

namespace Engine

variable {e : Engine} {w : World} {n : Negotiation}

/-! ## §1. Up to the message. -/

theorem conclude_direct (hn : ¬ w.ledger.Shields n.id e.handle.holder w.now) (role : Role)
    (duty : Duty) (verdict : Verdict) :
    (e.job role duty).conclude .direct n verdict w
      = if verdict = .handled then (true, w) else (false, w.free n.id) := by
  cases verdict with
  | handled => rfl
  | unchanged | failed | panicked =>
    show (Access.direct.release e.handle n.id >>= fun _ => pure false) w = (false, w.free n.id)
    rw [run_bind, Access.direct_release hn]
    rfl

theorem park_direct (hn : ¬ w.ledger.Shields n.id e.handle.holder w.now) (role : Role)
    (duty : Duty) :
    (e.job role duty).park .direct n w
      = ((), w.withLedger (w.ledger.put ((n.withPending true).withLease none))) := by
  show (Access.direct.save e.handle (n.withPending true) >>= fun _ => pure ()) w = _
  have hpending : ¬ w.ledger.Shields (n.withPending true).id e.handle.holder w.now := hn
  rw [run_bind, Access.direct_save hpending]
  rfl

/-- What a decision or a missing offer makes of a record, and whether it counts as handled. -/
def decided (w : World) (n : Negotiation) (target : State) (detail : Option String) :
    Begun × World :=
  match n.moveTo target w.now with
  | .error _ => (.done false, w.free n.id)
  | .ok m => (.done true, w.commit target (m.explained detail))

/-- What becomes of a duty for a record that the guard lets through. -/
def undertaken (e : Engine) (w : World) (n : Negotiation) : Duty → Begun × World
  | .decide _ target => decided w n target none
  | .send message =>
    match e.payloadFor message n w.now with
    | .error reason => decided w n .terminated (some reason)
    | .ok payload =>
      if e.retry.shouldDelay n w.now then (.done false, w.free n.id)
      else (.sending ⟨message, n, .forNegotiation n payload⟩, w)

/-- A duty up to its end, if it ends without a message. -/
theorem concluded_direct (hn : ¬ w.ledger.Shields n.id e.handle.holder w.now) (role : Role)
    (duty : Duty) (verdict : Verdict) (hv : verdict ≠ .handled) :
    ((e.job role duty).conclude .direct n verdict >>= fun b => pure (Begun.done b)) w
      = (.done false, w.free n.id) := by
  rw [run_bind, conclude_direct hn, if_neg hv]
  rfl

/-- Handling up to the message: a record that is held back is stored as it was leased. -/
theorem begin_of_not_shields (hn : ¬ w.ledger.Shields n.id e.handle.holder w.now) (role : Role)
    (duty : Duty) :
    e.begin .direct role duty n w =
      if e.guard n then
        (.done false, w.withLedger (w.ledger.put ((n.withPending true).withLease none)))
      else e.undertaken w n duty := by
  unfold begin
  split
  · rw [run_bind, park_direct hn]
    rfl
  · rw [run_bind]
    unfold undertaken
    cases duty with
    | decide source target =>
      have htake : e.take .direct (.decide source target) n w
          = (.concluded (e.transition .direct n target w).1.verdict,
              (e.transition .direct n target w).2) := rfl
      simp only [htake, transition_direct hn, decided]
      cases n.moveTo target w.now with
      | error err => exact concluded_direct hn role _ .failed (by decide)
      | ok m => rfl
    | send message =>
      have htake : e.take .direct (.send message) n w
          = (match e.payloadFor message n w.now with
            | .error reason => (do
                return Taken.concluded (← e.transitionTerminated .direct n (some reason)).verdict)
            | .ok payload =>
              if e.retry.shouldDelay n w.now then pure (.concluded .unchanged)
              else pure (.inFlight ⟨message, n, .forNegotiation n payload⟩)
            : StateM World Taken) w := rfl
      rw [htake]
      simp only
      cases e.payloadFor message n w.now with
      -- Without an offer the record ends here.
      | error reason =>
        simp only [run_bind, transitionTerminated_direct hn, decided]
        cases n.moveTo .terminated w.now with
        | error err => exact concluded_direct hn role _ .failed (by decide)
        | ok m => rfl
      | ok payload =>
        cases e.retry.shouldDelay n w.now with
        | true => exact concluded_direct hn role _ .unchanged (by decide)
        | false => rfl

theorem begin_direct (hw : w.ledger.HeldBy e.handle.holder) (role : Role) (duty : Duty)
    (n : Negotiation) :
    e.begin .direct role duty n w =
      if e.guard n then
        (.done false, w.withLedger (w.ledger.put ((n.withPending true).withLease none)))
      else e.undertaken w n duty :=
  begin_of_not_shields (hw.not_shields n.id w.now) role duty

/-! ## §2. From the reply on. -/

/-- A transition that may be refused, with its kind. -/
def toward (target : State) (moved : Except TransitionError Negotiation) :
    Option (State × Negotiation) :=
  match moved with
  | .ok m => some (target, m)
  | .error _ => none

/-- What a reply makes of the record as it is stored by then. -/
def upshot (e : Engine) (f : Flight) (current : Negotiation) (now : Instant) :
    Reply → Option (State × Negotiation)
  | .panicked => none
  | .answered response =>
    match f.sending, f.message.payload with
    | .request, _ => toward .requested ((correlate current response).moveTo .requested now)
    | .agreement, .contractAgreement agreement => toward .agreed (current.agreeOn agreement now)
    | .termination, _ => toward .terminated (current.moveTo .terminated now)
    | sending, _ => toward sending.target (current.moveTo sending.target now)
  | .failed failure =>
    if failure.isFatal then
      toward .terminated ((current.moveTo .terminated now).map (·.explained failure.message))
    else if e.retry.isExhausted current then
      toward .terminated ((current.moveTo .terminated now).map (·.explained (givenUp f failure)))
    else toward f.sending.source (current.moveTo f.sending.source now)

/-- The verdict on a transition, and the world it leads to. -/
def judged (w : World) : Option (State × Negotiation) → Verdict × World
  | none => (.failed, w)
  | some (kind, m) => (.handled, w.commit kind m)

theorem transition_judged (hn : ¬ w.ledger.Shields n.id e.handle.holder w.now)
    (target : State) :
    (e.transition .direct n target >>= fun r => pure r.verdict) w
      = judged w (toward target (n.moveTo target w.now)) := by
  rw [run_bind, transition_direct hn]
  cases n.moveTo target w.now <;> rfl

theorem transitionAgreed_judged (hn : ¬ w.ledger.Shields n.id e.handle.holder w.now)
    (agreement : Agreement) :
    (e.transitionAgreed .direct n agreement >>= fun r => pure r.verdict) w
      = judged w (toward .agreed (n.agreeOn agreement w.now)) := by
  rw [run_bind, transitionAgreed_direct hn]
  cases n.agreeOn agreement w.now <;> rfl

theorem transitionTerminated_judged (hn : ¬ w.ledger.Shields n.id e.handle.holder w.now)
    (detail : Option String) :
    (e.transitionTerminated .direct n detail >>= fun r => pure r.verdict) w
      = judged w (toward .terminated
          ((n.moveTo .terminated w.now).map (·.explained detail))) := by
  rw [run_bind, transitionTerminated_direct hn]
  cases n.moveTo .terminated w.now <;> rfl

theorem settle_answered (f : Flight) (response : Json) (w : World) :
    e.settle .direct f (.answered response) w
      = e.onOutcome .direct f
          (e.retry.classify (w.ledger.find? f.leased.id) (.ok response)) w := rfl

theorem settle_failed (f : Flight) (failure : DispatchFailure) (w : World) :
    e.settle .direct f (.failed failure) w
      = e.onOutcome .direct f
          (e.retry.classify (w.ledger.find? f.leased.id) (.error failure)) w := rfl

/-- A counterparty's id is noted without a change of one's own. -/
theorem id_correlate (n : Negotiation) (response : Json) : (correlate n response).id = n.id := by
  unfold correlate
  split <;> rfl

theorem onAnswer_judged (hn : ¬ w.ledger.Shields n.id e.handle.holder w.now) (f : Flight)
    (response : Json) :
    (e.onAnswer .direct f n response >>= fun r => pure r.verdict) w
      = judged w (e.upshot f n w.now (.answered response)) := by
  unfold onAnswer upshot
  cases f.sending with
  | request =>
    rw [← id_correlate n response] at hn
    exact transition_judged hn _
  | agreement =>
    cases f.message.payload with
    | contractAgreement agreement => exact transitionAgreed_judged hn _
    | _ => exact transition_judged hn _
  | termination =>
    have := transitionTerminated_judged hn none
    rw [this]
    cases n.moveTo .terminated w.now <;> rfl
  | _ => exact transition_judged hn _

/-- What becomes of a send whose record is still there. -/
theorem settle_direct {f : Flight}
    (hfree : ¬ w.ledger.Shields f.leased.id e.handle.holder w.now)
    {current : Negotiation} (hf : w.ledger.find? f.leased.id = some current) {reply : Reply}
    (hr : reply ≠ .panicked) :
    e.settle .direct f reply w = judged w (e.upshot f current w.now reply) := by
  rw [← Ledger.id_of_find? hf] at hfree
  cases reply with
  | panicked => exact absurd rfl hr
  | answered response =>
    -- An answer is judged by the record as it is stored by now.
    rw [settle_answered, hf]
    exact onAnswer_judged hfree f response
  | failed failure =>
    rw [settle_failed, hf]
    unfold RetryPolicy.classify upshot
    simp only
    -- The three kinds of failure are told apart in the same order on both sides.
    by_cases hfatal : failure.isFatal = true
    · rw [if_pos hfatal, if_pos hfatal]
      exact transitionTerminated_judged hfree _
    · rw [if_neg hfatal, if_neg hfatal]
      by_cases hlast : e.retry.isExhausted current = true
      · rw [if_pos hlast, if_pos hlast]
        exact transitionTerminated_judged hfree _
      · rw [if_neg hlast, if_neg hlast]
        exact transition_judged hfree _

/-- What becomes of a send whose record is gone. -/
theorem settle_direct_of_absent {f : Flight} (hf : w.ledger.find? f.leased.id = none)
    {reply : Reply} (hr : reply ≠ .panicked) : e.settle .direct f reply w = (.handled, w) := by
  cases reply with
  | panicked => exact absurd rfl hr
  | answered response =>
    rw [settle_answered, hf]
    rfl
  | failed failure =>
    rw [settle_failed, hf]
    rfl

/-- Handling from the reply on. -/
def landed (e : Engine) (w : World) (f : Flight) (reply : Reply) : Bool × World :=
  match w.ledger.find? f.leased.id with
  | none => (decide (reply ≠ .panicked), w)
  | some current =>
    match e.upshot f current w.now reply with
    | none => (false, w.free f.leased.id)
    | some (kind, m) => (true, w.commit kind m)

theorem land_of_not_shields {f : Flight}
    (hfree : ¬ w.ledger.Shields f.leased.id e.handle.holder w.now) (role : Role) (reply : Reply) :
    e.land .direct role f reply w = e.landed w f reply := by
  unfold land
  rw [run_bind]
  -- A panic settles nothing: the lease is given back, and that is all.
  by_cases hr : reply = .panicked
  · subst hr
    show (e.job role (.send f.sending)).conclude .direct f.leased .panicked w = _
    rw [conclude_direct hfree, landed]
    cases hf : w.ledger.find? f.leased.id with
    | none =>
      rw [World.free, Ledger.setLease_of_absent hf]
      rfl
    | some current => rfl
  · unfold landed
    cases hf : w.ledger.find? f.leased.id with
    | none =>
      rw [settle_direct_of_absent hf hr]
      show (true, w) = (decide (reply ≠ .panicked), w)
      rw [decide_eq_true hr]
    | some current =>
      rw [settle_direct hfree hf hr]
      simp only
      cases e.upshot f current w.now reply with
      | none =>
        show (e.job role (.send f.sending)).conclude .direct f.leased .failed w = _
        rw [conclude_direct hfree]
        rfl
      | some moved => rfl

theorem land_direct (hw : w.ledger.HeldBy e.handle.holder) (role : Role) (f : Flight)
    (reply : Reply) : e.land .direct role f reply w = e.landed w f reply :=
  land_of_not_shields (hw.not_shields f.leased.id w.now) role reply

end Engine

end Parley
