/-
  Parley.Proofs.Engine.Timely
  ────────────────────────────────
  **WHERE NOTHING BREAKS DOWN.**

  A use of the store breaks down if it has to judge a lease without an end.
  There is none to judge if every lease that is stored has an end, and every
  lease that is taken: the clock and the handle decide that (`World.IsTimely`).
  An operation does not move the clock, so it leaves such a world as it found it.

      standing    operations leave the clock alone
      strictly    in such a world an operation that may break down does not, and
                  does what it does directly
-/
import Parley.Proofs.Engine.Direct
import Parley.Proofs.Engine.Passage
import Parley.Proofs.Engine.Reception

namespace Parley

open Parley.Batch
open Parley.Query

/-! ## §1. The clock. -/

namespace Access

/-- An operation leaves the clock alone. -/
def standing (h : Handle) : Pairing direct direct h where
  rel x y := x = y ∧ ∀ w, (x w).2.now = w.now
  given _ := ⟨rfl, fun _ => rfl⟩
  andThen := by
    rintro _ _ x _ f g ⟨rfl, hx⟩ hg
    refine ⟨congrArg (x >>= ·) (funext fun v => (hg v).1), fun w => ?_⟩
    rw [run_bind]
    exact ((hg _).2 _).trans (hx w)
  now := ⟨rfl, fun _ => rfl⟩
  drawId := ⟨rfl, fun _ => rfl⟩
  read _ := ⟨rfl, fun _ => rfl⟩
  save _ := ⟨rfl, fun _ => rfl⟩
  findAndLease _ := ⟨rfl, fun _ => rfl⟩
  breakLease _ := ⟨rfl, fun _ => rfl⟩
  nextNotLeased max criteria := by
    refine ⟨rfl, fun w => ?_⟩
    unfold nextNotLeased
    cases validate criteria <;> rfl
  announce _ := ⟨rfl, fun _ => rfl⟩

end Access

/-! ## §2. Leases with ends. -/

namespace Ledger

variable {l l' : Ledger} {h : Handle} {now : Instant} {id : String}

theorem leasesEnd_iff :
    l.leasesEnd = true ↔ ∀ id lease, l.lease? id = some lease → lease.hasEnd = true := by
  unfold leasesEnd
  rw [List.all_eq_true]
  refine ⟨fun hall id lease hlease => ?_, fun hall n hn => ?_⟩
  · obtain ⟨n, hn, hlease⟩ := find?_of_lease? hlease
    have hend := hall n (mem_of_find? hn)
    rw [hlease] at hend
    exact hend
  · cases hlease : n.lease with
    | none => rfl
    | some lease => exact hall n.id lease (lease?_eq_some (find?_of_mem hn) hlease)

theorem leaseEnds_iff :
    l.leaseEnds id = true ↔ ∀ lease, l.lease? id = some lease → lease.hasEnd = true := by
  unfold leaseEnds lease?
  cases l.find? id with
  | none => exact ⟨fun _ => nofun, fun _ => rfl⟩
  | some n =>
    cases hlease : n.lease with
    | none => simp [hlease]
    | some lease => simp [hlease]

theorem leaseEnds_congr (hl : l'.find? id = l.find? id) : l'.leaseEnds id = l.leaseEnds id := by
  unfold leaseEnds
  rw [hl]

/-- If every lease has an end, that on a single record has one. -/
theorem leaseEnds_of_leasesEnd (hl : l.leasesEnd = true) (id : String) : l.leaseEnds id = true :=
  leaseEnds_iff.mpr fun lease hlease => leasesEnd_iff.mp hl id lease hlease

theorem leasesEnd_empty : empty.leasesEnd = true := rfl

theorem leasesEnd_put (hl : l.leasesEnd = true) (n : Negotiation) :
    (l.put (n.withLease none)).leasesEnd = true := by
  rw [leasesEnd_iff] at hl ⊢
  intro id lease hlease
  unfold lease? at hlease
  rw [find?_put] at hlease
  split at hlease
  · cases hlease
  · exact hl id lease hlease

theorem leasesEnd_setLease (hl : l.leasesEnd = true) (id : String) {lease : Option Lease}
    (hend : ∀ given, lease = some given → given.hasEnd = true) :
    (l.setLease id lease).leasesEnd = true := by
  rw [leasesEnd_iff] at hl ⊢
  intro other found hfound
  obtain ⟨n, hn, hlease⟩ := find?_of_lease? hfound
  rw [find?_setLease] at hn
  split at hn
  · obtain ⟨stored, _, rfl⟩ := Option.map_eq_some_iff.mp hn
    exact hend found hlease
  · exact hl other found (lease?_eq_some hn hlease)

theorem leasesEnd_leaseEach (hl : l.leasesEnd = true) (ids : List String) {lease : Lease}
    (hend : lease.hasEnd = true) : (l.leaseEach ids lease).leasesEnd = true := by
  rw [leasesEnd_iff] at hl ⊢
  intro other found hfound
  obtain ⟨n, hn, hlease⟩ := find?_of_lease? hfound
  rw [find?_leaseEach] at hn
  split at hn
  · obtain ⟨stored, _, rfl⟩ := Option.map_eq_some_iff.mp hn
    cases hlease
    exact hend
  · exact hl other found (lease?_eq_some hn hlease)

theorem leasesEnd_erase (hl : l.leasesEnd = true) (id : String) :
    (l.erase id).leasesEnd = true := by
  rw [leasesEnd_iff] at hl ⊢
  intro other lease hlease
  obtain ⟨n, hn, hlease⟩ := find?_of_lease? hlease
  rw [find?_erase] at hn
  split at hn
  · cases hn
  · exact hl other lease (lease?_eq_some hn hlease)

end Ledger

/-- Whether every lease in a world has an end, and so has one that is taken now. -/
structure World.IsTimely (w : World) (h : Handle) : Prop where
  stored : w.ledger.leasesEnd = true
  taken : (h.leaseAt w.now).hasEnd = true

namespace World

variable {w w' : World} {h : Handle}

instance (w : World) (h : Handle) : Decidable (w.IsTimely h) :=
  decidable_of_iff (w.ledger.leasesEnd = true ∧ (h.leaseAt w.now).hasEnd = true)
    ⟨fun hw => ⟨hw.1, hw.2⟩, fun hw => ⟨hw.stored, hw.taken⟩⟩

/-- It does not matter in whose name leases are taken. -/
theorem IsTimely.withHolder (hw : w.IsTimely h) (holder : String) :
    w.IsTimely (h.withHolder holder) :=
  ⟨hw.stored, hw.taken⟩

end World

/-! ## §3. Operations that may break down. -/

/-- One operation after another, if the first does not break down. -/
theorem run_bind_strict {σ : Type} (y : OptionT (StateM σ) α) (g : α → OptionT (StateM σ) β)
    (s : σ) : (y >>= g).run s = match y.run s with
      | (some a, s') => (g a).run s'
      | (none, s') => (none, s') := by
  rw [OptionT.run_bind]
  unfold Option.elimM
  rw [run_bind]
  generalize y.run s = result
  obtain ⟨a, s'⟩ := result
  cases a <;> rfl

/-- Whether an operation that may break down does what another one does, as long as all is well, and
leaves all well. -/
structure Echoes {σ : Type} (well : σ → Prop) (x : StateM σ α) (y : OptionT (StateM σ) α) :
    Prop where
  run : ∀ s, well s → y.run s = (some (x s).1, (x s).2)
  keeps : ∀ s, well s → well (x s).2

namespace Echoes

variable {σ : Type} {well : σ → Prop}

theorem pure (a : α) : Echoes well (Pure.pure a) (Pure.pure a) :=
  ⟨fun _ _ => rfl, fun _ hs => hs⟩

theorem bind {x : StateM σ α} {y : OptionT (StateM σ) α} {f : α → StateM σ β}
    {g : α → OptionT (StateM σ) β} (hx : Echoes well x y) (hg : ∀ a, Echoes well (f a) (g a)) :
    Echoes well (x >>= f) (y >>= g) where
  run s hs := by
    rw [run_bind_strict, hx.run s hs]
    exact (hg (x s).1).run (x s).2 (hx.keeps s hs)
  keeps s hs := (hg (x s).1).keeps (x s).2 (hx.keeps s hs)

/-- What judges no lease does not break down. -/
theorem lift {x : StateM σ α} (hx : ∀ s, well s → well (x s).2) : Echoes well x (OptionT.lift x) :=
  ⟨fun _ _ => rfl, hx⟩

end Echoes

/-- What is made of a result that is not a refusal. -/
theorem ok_of_map {x : Except ε α} {f : α → β} {b : β} (h : x.map f = .ok b) :
    ∃ a, x = .ok a ∧ f a = b := by
  cases x with
  | error err => cases h
  | ok a => exact ⟨a, rfl, Except.ok.inj h⟩

namespace Access

variable {h : Handle}

/-- A use of the store breaks down exactly where it has to judge a lease without an end, and then
changes nothing. -/
theorem strict_attempt (judged : Ledger → Bool)
    (f : Instant → Ledger → Except StoreError (α × Ledger)) (w : World) :
    (strict.attempt judged f).run w
      = if judged w.ledger then
          (some (direct.attempt judged f w).1, (direct.attempt judged f w).2)
        else (none, w) := by
  show (if judged w.ledger = true then OptionT.lift (direct.attempt judged f)
    else failure : OptionT (StateM World) _).run w = _
  split <;> rfl

/-- What is made of the answer does not matter for that. -/
theorem strict_attempt_map (judged : Ledger → Bool)
    (f : Instant → Ledger → Except StoreError (α × Ledger)) (g : Except StoreError α → β)
    (w : World) : OptionT.run (do return g (← strict.attempt judged f)) w
      = if judged w.ledger then
          (some (g (direct.attempt judged f w).1), (direct.attempt judged f w).2)
        else (none, w) := by
  rw [run_bind_strict, strict_attempt]
  cases judged w.ledger <;> rfl

/-- A use of the store does not break down if the leases that it judges have ends, and keeps the
world as it has to be if it makes leases with ends only. -/
theorem echoes_attempt {judged : Ledger → Bool}
    {f : Instant → Ledger → Except StoreError (α × Ledger)}
    (hjudged : ∀ l, l.leasesEnd = true → judged l = true)
    (hf : ∀ w : World, w.IsTimely h → ∀ a l, f w.now w.ledger = .ok (a, l) → l.leasesEnd = true) :
    Echoes (World.IsTimely · h) (direct.attempt judged f) (strict.attempt judged f) where
  run w hw := by
    rw [strict_attempt, if_pos (hjudged _ hw.stored)]
  keeps w hw := by
    rw [direct_attempt]
    cases hresult : f w.now w.ledger with
    | error err => exact hw
    | ok result => exact ⟨hf w hw result.1 result.2 hresult, hw.taken⟩

/-- Where every lease has an end no operation breaks down. -/
def strictly (h : Handle) : Pairing direct strict h where
  rel := Echoes (World.IsTimely · h)
  given := .pure
  andThen := .bind
  now := .lift fun _ hw => hw
  drawId := .lift fun _ hw => ⟨hw.stored, hw.taken⟩
  read _ := .lift fun _ hw => hw
  save n := by
    refine echoes_attempt (fun l hl => Ledger.leaseEnds_of_leasesEnd hl n.id) ?_
    intro w hw _ l hl
    obtain ⟨l', hsave, heq⟩ := ok_of_map hl
    cases heq
    obtain ⟨_, rfl⟩ := Ledger.save_eq_ok hsave
    exact Ledger.leasesEnd_put hw.stored n
  findAndLease id := by
    refine echoes_attempt (fun l hl => Ledger.leaseEnds_of_leasesEnd hl id) ?_
    intro w hw n l hl
    obtain ⟨_, _, rfl⟩ := Ledger.findAndLease_eq_ok hl
    refine Ledger.leasesEnd_setLease hw.stored id ?_
    rintro _ ⟨⟩
    exact hw.taken
  breakLease id := by
    refine echoes_attempt (fun l hl => Ledger.leaseEnds_of_leasesEnd hl id) ?_
    intro w hw _ l hl
    obtain ⟨l', hbreak, heq⟩ := ok_of_map hl
    cases heq
    obtain ⟨_, rfl⟩ := Ledger.breakLease_eq_ok hbreak
    exact Ledger.leasesEnd_setLease hw.stored id nofun
  nextNotLeased max criteria := by
    unfold nextNotLeased
    cases validate criteria with
    | error err => exact .pure _
    | ok _ =>
      refine echoes_attempt (fun l hl => hl) ?_
      intro w hw batch l hl
      obtain ⟨rfl, _⟩ := Ledger.nextNotLeased_eq_ok hl
      exact Ledger.leasesEnd_leaseEach hw.stored _ hw.taken
  announce news := .lift fun _ hw => ⟨hw.stored, hw.taken⟩

end Access

/-- A message is handled in the same way by the operation that it is handed to. -/
theorem Passage.notify {M N : Type → Type} [Monad M] [Monad N] {a : Access M} {b : Access N}
    {e : Engine} (φ : Passage a b e) (inlet : Inlet) (m : Message) :
    φ.rel Handled.isRefused (e.notify a inlet m) (e.notify b inlet m) := by
  rw [Engine.notify_eq, Engine.notify_eq]
  split
  · exact φ.receive m
  · exact φ.unexpected _ m

end Parley
