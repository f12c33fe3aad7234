/-
  Parley.Access
  ────────────────────────────────
  **HOW AN OPERATION GETS AT THE WORLD.**

  An operation reads the clock, draws ids, uses the store, and announces what it
  did.  Each use of the store is a step of its own:

      ask    the time is read, for leases are judged and dated by it
      have   the store is read or changed

  Others may act between two uses, and between asking and having, so what an
  operation read in one use may be out of date in the next.

  A use that changes the store judges leases: that on the record that it names,
  or all of them to find free ones.  A lease without an end cannot be judged,
  and the use breaks down.

  How the steps are carried out is left open (`Access`).  Where nothing happens
  in between, an operation is a function from one world to the next:

      strict   it may break down, and leaves the world as it was just then
      direct   no lease is without an end, so it does not
-/
import Parley.World

namespace Parley

open Parley.Query

/-- The steps by which an operation gets at the world.  A use of the store says first whether the
leases that it judges have ends. -/
structure Access (M : Type → Type) where
  now : M Instant
  advance : Int → M Unit
  drawId : M String
  read : {α : Type} → (Ledger → α) → M α
  use : {α : Type} → (Ledger → Bool) → (Instant → Ledger → α × Ledger) → M α
  announce : Announcement → M Unit

namespace Access

variable {M : Type → Type}

/-! ## §1. Uses of the store. -/

/-- Use the store in a way that it may refuse; then nothing changes. -/
def attempt (a : Access M) (judged : Ledger → Bool)
    (f : Instant → Ledger → Except StoreError (α × Ledger)) : M (Except StoreError α) :=
  a.use judged fun now l =>
    match f now l with
    | .error e => (.error e, l)
    | .ok (x, l) => (.ok x, l)

/-- The record of an id. -/
def find (a : Access M) (id : String) : M (Option Negotiation) :=
  a.read (·.find? id)

/-- Write a record. -/
def save (a : Access M) (h : Handle) (n : Negotiation) : M (Except StoreError Unit) :=
  a.attempt (·.leaseEnds n.id) fun now l => (l.save h now n).map fun l => ((), l)

/-- Lease the record of an id. -/
def findAndLease (a : Access M) (h : Handle) (id : String) : M (Except StoreError Negotiation) :=
  a.attempt (·.leaseEnds id) fun now l => l.findAndLease h now id

/-- End the lease on a record. -/
def breakLease (a : Access M) (h : Handle) (id : String) : M (Except StoreError Unit) :=
  a.attempt (·.leaseEnds id) fun now l => (l.breakLease h now id).map fun l => ((), l)

/-- Take a record out, whatever lease is on it, and say whether there was one. -/
def erase (a : Access M) (id : String) : M Bool :=
  a.use (fun _ => true) fun _ l => ((l.find? id).isSome, l.erase id)

variable [Monad M]

/-- End the lease on a record.  If the store refuses, another worker has it, and it stays so. -/
def release (a : Access M) (h : Handle) (id : String) : M Unit := do
  let _ ← a.breakLease h id

/-- Lease work.  Faulty criteria are refused before the store is used. -/
def nextNotLeased (a : Access M) (h : Handle) (max : Nat) (criteria : List Criterion) :
    M (Except StoreError (List Negotiation)) :=
  match validate criteria with
  | .error e => return .error (.invalidQuery e)
  | .ok () => a.attempt (·.leasesEnd) fun now l => l.nextNotLeased h now max criteria

/-! ## §2. Access with nothing in between. -/

/-- Act on a world that is at hand, in which every lease has an end. -/
def direct : Access (StateM World) where
  now := return (← get).now
  advance ms := modify (·.advance ms)
  drawId := modifyGet World.drawId
  read f := return f (← get).ledger
  use _ f := modifyGet fun w =>
    let (a, l) := f w.now w.ledger
    (a, { w with ledger := l })
  announce news := modify (·.announce news)

/-- Act on a world that is at hand, and break down where a lease without an end is judged. -/
def strict : Access (OptionT (StateM World)) where
  now := OptionT.lift direct.now
  advance ms := OptionT.lift (direct.advance ms)
  drawId := OptionT.lift direct.drawId
  read f := OptionT.lift (direct.read f)
  use judged f := do
    if judged (← get).ledger then OptionT.lift (direct.use judged f) else failure
  announce news := OptionT.lift (direct.announce news)

/-- What was saved is found. -/
example (h : Handle) (n : Negotiation) (w : World) (hw : w.ledger.find? n.id = none) :
    (direct.save h n w).2.ledger = w.ledger.put (n.withLease none) := by
  simp [save, attempt, direct, Ledger.save, hw, modifyGet, MonadStateOf.modifyGet,
    StateT.modifyGet, Except.map, pure]

end Access

end Parley
