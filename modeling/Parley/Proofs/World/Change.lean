/-
  Parley.Proofs.World.Change
  ────────────────────────────────
  **WHAT ONE OPERATION CHANGES.**

  Apart from leases and announcements an operation leaves a world as it is
  (`Same`), writes one record (`Puts`), or draws an id and writes a new record
  (`Bears`).
-/
import Parley.Proofs.Engine.Reception

namespace Parley

namespace World

/-! ## §1. Three kinds of change. -/

/-- A world that says the same as another.  Leases may have ended. -/
structure Same (w w' : World) : Prop where
  content : ∀ id, w'.ledger.content id = w.ledger.content id
  leases : ∀ id, w'.ledger.IsLeased id → w.ledger.IsLeased id
  supply : w'.supply = w.supply
  now : w'.now = w.now

/-- A world that says the same as another, but for one record, which is not leased. -/
structure Puts (w w' : World) (n : Negotiation) : Prop where
  content : ∀ id, w'.ledger.content id
    = if n.id = id then some (n.withLease none) else w.ledger.content id
  leases : ∀ id, w'.ledger.IsLeased id → w.ledger.IsLeased id ∧ n.id ≠ id
  supply : w'.supply = w.supply
  now : w'.now = w.now

/-- A world that says the same as another, but for a record that has the next id. -/
structure Bears (w w' : World) (n : Negotiation) : Prop where
  id : n.id = w.nextId
  content : ∀ id, w'.ledger.content id
    = if n.id = id then some (n.withLease none) else w.ledger.content id
  leases : ∀ id, w'.ledger.IsLeased id → w.ledger.IsLeased id
  supply : w'.supply = w.supply.draw
  now : w'.now = w.now

theorem Same.refl (w : World) : w.Same w := ⟨fun _ => rfl, fun _ h => h, rfl, rfl⟩

/-- The lease of the record that is written does not matter. -/
theorem Puts.congr {w w' : World} {n m : Negotiation} (h : w.Puts w' n)
    (hnm : n.withLease none = m.withLease none) : w.Puts w' m := by
  have hid : n.id = m.id := congrArg (·.id) hnm
  exact
    { content := fun id => by rw [h.content, hnm, hid]
      leases := fun id hl => hid ▸ h.leases id hl
      supply := h.supply
      now := h.now }

theorem same_free (w : World) (id : String) : w.Same (w.free id) where
  content other := by rw [ledger_free, Ledger.content_setLease]
  leases other h := (Ledger.isLeased_setLease_none h).1
  supply := rfl
  now := rfl

/-- A record that was leased for a while. -/
theorem same_lend_free (w : World) (h : Handle) (id : String) :
    w.Same ((w.lend h id).free id) where
  content other := by
    rw [ledger_free, Ledger.content_setLease, ledger_lend, Ledger.content_setLease]
  leases other hl := by
    obtain ⟨hlent, hid⟩ := Ledger.isLeased_setLease_none hl
    exact Ledger.isLeased_setLease hlent hid
  supply := rfl
  now := rfl

theorem puts_commit (w : World) (kind : State) (n : Negotiation) : w.Puts (w.commit kind n) n where
  content id := by rw [ledger_commit, Ledger.content_put]; rfl
  leases id h := Ledger.isLeased_put h
  supply := rfl
  now := rfl

/-- A record that was leased and then written. -/
theorem puts_lend_commit (w : World) (h : Handle) (kind : State) (n : Negotiation) :
    w.Puts ((w.lend h n.id).commit kind n) n where
  content id := by
    rw [ledger_commit, Ledger.content_put, ledger_lend, Ledger.content_setLease]
    rfl
  leases id hl := by
    obtain ⟨hlent, hid⟩ := Ledger.isLeased_put hl
    exact ⟨Ledger.isLeased_setLease hlent hid, hid⟩
  supply := rfl
  now := rfl

theorem puts_park (w : World) (n : Negotiation) :
    w.Puts (w.withLedger (w.ledger.put (n.withLease none))) n where
  content id := by rw [ledger_withLedger, Ledger.content_put]; rfl
  leases id h := Ledger.isLeased_put h
  supply := rfl
  now := rfl

theorem bears_commit (w : World) (kind : State) {n : Negotiation} (hn : n.id = w.nextId) :
    w.Bears (w.draw.commit kind n) n where
  id := hn
  content id := by rw [ledger_commit, Ledger.content_put]; rfl
  leases id h := (Ledger.isLeased_put h).1
  supply := rfl
  now := rfl

/-- What is said about an id after a record was written. -/
theorem Puts.content_self {w w' : World} {n : Negotiation} (h : w.Puts w' n) :
    w'.ledger.content n.id = some (n.withLease none) := by
  rw [h.content, if_pos rfl]

theorem Puts.content_of_ne {w w' : World} {n : Negotiation} (h : w.Puts w' n) {id : String}
    (hid : n.id ≠ id) : w'.ledger.content id = w.ledger.content id := by
  rw [h.content, if_neg hid]

/-! ## §2. One worker. -/

theorem heldBy_commit {w : World} {holder : String} (hw : w.ledger.HeldBy holder) (kind : State)
    (n : Negotiation) : (w.commit kind n).ledger.HeldBy holder := by
  rw [ledger_commit]
  exact hw.put n

end World

end Parley
