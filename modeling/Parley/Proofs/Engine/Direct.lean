/-
  Parley.Proofs.Engine.Direct
  ────────────────────────────────
  **THE OPERATIONS OF AN ENGINE ON A WORLD AT HAND.**

  With nothing in between, an operation of an engine is a function from one
  world to the next.  On a record that is not shielded from the engine, and that
  is every record of a store that no other worker uses, a world changes in three
  ways:

      commit    a record is written, which ends its lease, and announced
      lend      a record is leased
      free      the lease on a record ends

  and each operation is a choice among these.
-/
import Parley.Engine.Inbound
import Parley.Engine.Tick
import Parley.Proofs.Ledger.Batch

namespace Parley

open Parley.Batch
open Parley.Query

/-! ## §1. Steps of a world. -/

namespace World

/-- The world with another ledger. -/
def withLedger (w : World) (l : Ledger) : World :=
  { w with ledger := l }

/-- A record is written, without a lease, and announced. -/
def commit (w : World) (kind : State) (n : Negotiation) : World :=
  (w.withLedger (w.ledger.put (n.withLease none))).announce ⟨kind, n⟩

/-- The record of an id is leased. -/
def lend (w : World) (h : Handle) (id : String) : World :=
  w.withLedger (w.ledger.setLease id (some (h.leaseAt w.now)))

/-- The lease on the record of an id ends. -/
def free (w : World) (id : String) : World :=
  w.withLedger (w.ledger.setLease id none)

@[simp] theorem ledger_withLedger (w : World) (l : Ledger) : (w.withLedger l).ledger = l := rfl
@[simp] theorem now_withLedger (w : World) (l : Ledger) : (w.withLedger l).now = w.now := rfl
@[simp] theorem supply_withLedger (w : World) (l : Ledger) : (w.withLedger l).supply = w.supply := rfl

@[simp] theorem ledger_commit (w : World) (kind : State) (n : Negotiation) :
    (w.commit kind n).ledger = w.ledger.put (n.withLease none) := rfl
@[simp] theorem now_commit (w : World) (kind : State) (n : Negotiation) :
    (w.commit kind n).now = w.now := rfl
@[simp] theorem supply_commit (w : World) (kind : State) (n : Negotiation) :
    (w.commit kind n).supply = w.supply := rfl

@[simp] theorem ledger_lend (w : World) (h : Handle) (id : String) :
    (w.lend h id).ledger = w.ledger.setLease id (some (h.leaseAt w.now)) := rfl
@[simp] theorem now_lend (w : World) (h : Handle) (id : String) : (w.lend h id).now = w.now := rfl
@[simp] theorem supply_lend (w : World) (h : Handle) (id : String) :
    (w.lend h id).supply = w.supply := rfl

@[simp] theorem ledger_free (w : World) (id : String) :
    (w.free id).ledger = w.ledger.setLease id none := rfl
@[simp] theorem now_free (w : World) (id : String) : (w.free id).now = w.now := rfl
@[simp] theorem supply_free (w : World) (id : String) : (w.free id).supply = w.supply := rfl

end World

/-! ## §2. Access. -/

/-- One operation after another. -/
theorem run_bind {σ : Type} (x : StateM σ α) (f : α → StateM σ β) (s : σ) :
    (x >>= f) s = f (x s).1 (x s).2 := rfl

namespace Access

theorem direct_now (w : World) : direct.now w = (w.now, w) := rfl

theorem direct_drawId (w : World) :
    direct.drawId w = (w.supply.next, { w with supply := w.supply.draw }) := rfl

theorem direct_read (f : Ledger → α) (w : World) : direct.read f w = (f w.ledger, w) := rfl

theorem direct_find (id : String) (w : World) : direct.find id w = (w.ledger.find? id, w) := rfl

/-- A use that the store refuses leaves the world as it is. -/
theorem direct_attempt (judged : Ledger → Bool)
    (f : Instant → Ledger → Except StoreError (α × Ledger)) (w : World) :
    direct.attempt judged f w = match f w.now w.ledger with
      | .error e => (.error e, w)
      | .ok (a, l) => (.ok a, w.withLedger l) := by
  unfold attempt
  simp only [direct, modifyGet, MonadStateOf.modifyGet, StateT.modifyGet]
  cases f w.now w.ledger <;> rfl

variable {h : Handle} {w : World}

theorem direct_save {n : Negotiation} (hn : ¬ w.ledger.Shields n.id h.holder w.now) :
    direct.save h n w = (.ok (), w.withLedger (w.ledger.put (n.withLease none))) := by
  rw [save, direct_attempt, Ledger.save_of_not_shields hn]
  rfl

theorem direct_findAndLease {id : String} (hid : ¬ w.ledger.Shields id h.holder w.now) :
    direct.findAndLease h id w = match w.ledger.find? id with
      | none => (.error (.notFound id), w)
      | some n => (.ok (n.withLease (some (h.leaseAt w.now))), w.lend h id) := by
  rw [findAndLease, direct_attempt, Ledger.findAndLease_of_not_shields hid]
  cases w.ledger.find? id <;> rfl

theorem direct_findAndLease_of_lease? {id : String} {lease : Lease}
    (hlease : w.ledger.lease? id = some lease)
    (hlive : lease.shieldsFrom h.holder w.now = true) :
    direct.findAndLease h id w = (.error (.leaseConflict id lease.holder), w) := by
  rw [findAndLease, direct_attempt, Ledger.findAndLease_of_lease? hlease hlive]

theorem direct_release {id : String} (hid : ¬ w.ledger.Shields id h.holder w.now) :
    direct.release h id w = ((), w.free id) := by
  rw [release, run_bind, breakLease, direct_attempt, Ledger.breakLease_of_not_shields hid]
  cases hf : w.ledger.find? id with
  -- What is not there has no lease to end.
  | none =>
    show ((), w) = ((), w.free id)
    rw [World.free, Ledger.setLease_of_absent hf]
    rfl
  | some _ => rfl

end Access

/-! ## §3. Transitions. -/

/-- The record with a reason for its end, if one is known. -/
def Negotiation.explained (n : Negotiation) : Option String → Negotiation
  | some detail => n.withErrorDetail detail
  | none => n

namespace Negotiation

variable {n m : Negotiation} {now : Instant}

theorem id_explained (n : Negotiation) (detail : Option String) :
    (n.explained detail).id = n.id := by
  cases detail <;> rfl

theorem id_of_moveTo {target : State} (h : n.moveTo target now = .ok m) : m.id = n.id := by
  obtain ⟨_, _, _, rfl⟩ := moveTo_eq_ok_iff.mp h
  rfl

theorem id_of_agreeOn {agreement : Agreement} (h : n.agreeOn agreement now = .ok m) :
    m.id = n.id := by
  unfold agreeOn at h
  split at h
  · cases h
  · split at h
    · cases h
    · rename_i moved hmove
      cases h
      show moved.id = n.id
      exact id_of_moveTo hmove

end Negotiation

namespace Engine

variable {e : Engine} {w : World}

theorem persist_direct {n : Negotiation} (hn : ¬ w.ledger.Shields n.id e.handle.holder w.now)
    (kind : State) : e.persist .direct kind n w = (.ok n, w.commit kind n) := by
  rw [persist, run_bind, Access.direct_save hn]
  rfl

variable {n : Negotiation}

theorem transition_direct (hn : ¬ w.ledger.Shields n.id e.handle.holder w.now) (target : State) :
    e.transition .direct n target w = match n.moveTo target w.now with
      | .error err => (.error (.transition err), w)
      | .ok m => (.ok m, w.commit target m) := by
  rw [transition, run_bind, Access.direct_now]
  cases hm : n.moveTo target w.now with
  | error err => rfl
  | ok m =>
    rw [← Negotiation.id_of_moveTo hm] at hn
    exact persist_direct hn target

theorem transitionAgreed_direct (hn : ¬ w.ledger.Shields n.id e.handle.holder w.now)
    (agreement : Agreement) :
    e.transitionAgreed .direct n agreement w = match n.agreeOn agreement w.now with
      | .error err => (.error (.transition err), w)
      | .ok m => (.ok m, w.commit .agreed m) := by
  rw [transitionAgreed, run_bind, Access.direct_now]
  cases hm : n.agreeOn agreement w.now with
  | error err => rfl
  | ok m =>
    have hid : m.id = n.id := Negotiation.id_of_agreeOn hm
    rw [← hid] at hn
    exact persist_direct hn .agreed

theorem transitionTerminated_direct (hn : ¬ w.ledger.Shields n.id e.handle.holder w.now)
    (detail : Option String) :
    e.transitionTerminated .direct n detail w = match n.moveTo .terminated w.now with
      | .error err => (.error (.transition err), w)
      | .ok m => (.ok (m.explained detail), w.commit .terminated (m.explained detail)) := by
  rw [transitionTerminated, run_bind, Access.direct_now]
  cases hm : n.moveTo .terminated w.now with
  | error err => rfl
  | ok m =>
    have hid : (m.explained detail).id = n.id := by
      rw [Negotiation.id_explained, Negotiation.id_of_moveTo hm]
    rw [← hid] at hn
    cases detail <;> exact persist_direct hn .terminated

/-! ## §4. The named record. -/

theorem leaseById_direct {id : String} (hid : ¬ w.ledger.Shields id e.handle.holder w.now) :
    e.leaseById .direct id w = match w.ledger.find? id with
      | none => (.error (.notFound id), w)
      | some n => (.ok (n.withLease (some (e.handle.leaseAt w.now))), w.lend e.handle id) := by
  rw [leaseById, run_bind, Access.direct_findAndLease hid]
  cases w.ledger.find? id <;> rfl

theorem leaseById_of_lease? {id : String} {lease : Lease}
    (hlease : w.ledger.lease? id = some lease)
    (hlive : lease.shieldsFrom e.handle.holder w.now = true) :
    e.leaseById .direct id w = (.error (.store (.leaseConflict id lease.holder)), w) := by
  rw [leaseById, run_bind, Access.direct_findAndLease_of_lease? hlease hlive]
  rfl

theorem heldBy_lend (hw : w.ledger.HeldBy e.handle.holder) (id : String) :
    (w.lend e.handle id).ledger.HeldBy e.handle.holder := by
  rw [World.ledger_lend]
  refine hw.setLease id ?_
  rintro lease ⟨⟩
  rfl

theorem heldBy_free {holder : String} (hw : w.ledger.HeldBy holder) (id : String) :
    (w.free id).ledger.HeldBy holder := by
  rw [World.ledger_free]
  refine hw.setLease id ?_
  rintro lease ⟨⟩

/-- What an engine has just leased is not shielded from it. -/
theorem not_shields_lend (e : Engine) (w : World) (id : String) :
    ¬ (w.lend e.handle id).ledger.Shields id e.handle.holder (w.lend e.handle id).now :=
  Ledger.not_shields_setLease w.ledger id e.handle w.now w.now

theorem refuse_direct (hn : ¬ w.ledger.Shields n.id e.handle.holder w.now)
    (error : NegotiationError) :
    e.refuse .direct n error w = (.error error, w.free n.id) := by
  rw [refuse, run_bind, Access.direct_release hn]
  rfl

/-- How the record that a message names is acquired: it is leased first and checked then, and a
refusal gives the lease back. -/
theorem acquire_direct {m : Message} {role : Role}
    (hm : ∀ id, m.processIdFor role = some id → ¬ w.ledger.Shields id e.handle.holder w.now)
    (target : State) (goOn : Negotiation → StateM World Handled) :
    e.acquire .direct m role target goOn w = match m.processIdFor role with
      | none => (.error (.noProcessId m.typeName role), w)
      | some id =>
        match w.ledger.find? id with
        | none => (.error (.notFound id), w)
        | some n =>
          if n.role ≠ role then
            (.error (.unexpectedRole id role n.role), (w.lend e.handle id).free id)
          else
            match n.checkEdge target with
            | .error err => (.error (.transition err), (w.lend e.handle id).free id)
            | .ok () =>
              goOn ((n.withLease (some (e.handle.leaseAt w.now))).withPending false)
                (w.lend e.handle id) := by
  unfold acquire
  cases hpid : m.processIdFor role with
  | none => rfl
  | some id =>
    simp only [run_bind, leaseById_direct (hm id hpid)]
    cases hf : w.ledger.find? id with
    | none => rfl
    | some n =>
      -- The leased record has the id, the role and the edges of the stored one.
      have hid : n.id = id := Ledger.id_of_find? hf
      subst hid
      have hlent := not_shields_lend e w n.id
      have hrefuse (error : NegotiationError) :
          e.refuse .direct (n.withLease (some (e.handle.leaseAt w.now))) error
              (w.lend e.handle n.id)
            = (.error error, (w.lend e.handle n.id).free n.id) := refuse_direct hlent error
      have hedge : (n.withLease (some (e.handle.leaseAt w.now))).checkEdge target
          = n.checkEdge target := rfl
      by_cases hrole : n.role = role
      · have hrole' : (n.withLease (some (e.handle.leaseAt w.now))).role = role := hrole
        simp only [hrole, hrole', ne_eq, not_true_eq_false, if_false, hedge]
        cases n.checkEdge target with
        | error err => simp only [hrefuse]
        | ok _ => rfl
      · have hrole' : (n.withLease (some (e.handle.leaseAt w.now))).role ≠ role := hrole
        simp only [ne_eq, hrole, hrole', not_false_eq_true, if_true, hrefuse]
        rfl

/-- A record that another worker has leased is not acquired. -/
theorem acquire_of_lease? {m : Message} {role : Role} {id : String} {lease : Lease}
    (hm : m.processIdFor role = some id) (hlease : w.ledger.lease? id = some lease)
    (hlive : lease.shieldsFrom e.handle.holder w.now = true) (target : State)
    (goOn : Negotiation → StateM World Handled) :
    e.acquire .direct m role target goOn w
      = (.error (.store (.leaseConflict id lease.holder)), w) := by
  unfold acquire
  rw [hm]
  simp only [run_bind, leaseById_of_lease? hlease hlive]
  rfl

end Engine

end Parley
