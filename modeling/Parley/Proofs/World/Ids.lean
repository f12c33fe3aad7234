/-
  Parley.Proofs.World.Ids
  ────────────────────────────────
  **NO ID IS DRAWN TWICE.**

  While every record has the id of an earlier draw (`IsNumbered`), the next draw
  gives an id that no record has.
-/
import Parley.Proofs.Ledger.Content
import Parley.World

namespace Parley

namespace IdSupply

/-- A supply that others come from by drawing. -/
structure Precedes (s t : IdSupply) : Prop where
  name : t.name = s.name
  drawn : s.drawn ≤ t.drawn

variable {s t : IdSupply}

theorem Precedes.refl (s : IdSupply) : s.Precedes s := ⟨rfl, Nat.le_refl _⟩

theorem precedes_of_eq (h : t = s) : s.Precedes t := h ▸ .refl s

theorem precedes_draw (s : IdSupply) : s.Precedes s.draw := ⟨rfl, Nat.le_succ _⟩

/-- The supply when others have drawn from it, so often in all. -/
def skipTo (s : IdSupply) (k : Nat) : IdSupply :=
  { s with drawn := max s.drawn k }

theorem precedes_skipTo (s : IdSupply) (k : Nat) : s.Precedes (s.skipTo k) :=
  ⟨rfl, Nat.le_max_left _ _⟩

end IdSupply

namespace Ledger

/-- Every record has the id of one of the draws so far. -/
def IsNumbered (l : Ledger) (s : IdSupply) : Prop :=
  ∀ id n, l.content id = some n → ∃ k, k ≤ s.drawn ∧ id = s.name k

variable {l : Ledger} {s t : IdSupply}

theorem IsNumbered.mono (h : l.IsNumbered s) (hst : s.Precedes t) : l.IsNumbered t := by
  intro id n hn
  obtain ⟨i, hi, rfl⟩ := h id n hn
  exact ⟨i, Nat.le_trans hi hst.drawn, by rw [hst.name]⟩

/-- The id of the next draw is free. -/
theorem IsNumbered.content_next (h : l.IsNumbered s) : l.content s.next = none := by
  cases hn : l.content s.next with
  | none => rfl
  | some n =>
    obtain ⟨k, hk, heq⟩ := h _ n hn
    have := s.distinct heq
    omega

end Ledger

end Parley
