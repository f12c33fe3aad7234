/-
  Parley.Ids
  ────────────────────────────────
  **THE SUPPLY OF IDS.**

  The ids of new negotiations are drawn from a supply.  Of a supply it is only
  known that no two draws give the same id: whether it counts (`counted`) or
  takes ids at random, nothing else about the ids is made use of.
-/
import Parley.Text.Digits

namespace Parley

/-- An id for each draw, none for two of them, and the number of draws so far. -/
structure IdSupply where
  name : Nat → String
  distinct : ∀ {j k : Nat}, name j = name k → j = k
  drawn : Nat := 0

namespace IdSupply

/-- The id that is drawn next. -/
def next (s : IdSupply) : String :=
  s.name (s.drawn + 1)

/-- The supply after the next draw. -/
def draw (s : IdSupply) : IdSupply :=
  { s with drawn := s.drawn + 1 }

@[simp] theorem name_draw (s : IdSupply) : s.draw.name = s.name := rfl
@[simp] theorem drawn_draw (s : IdSupply) : s.draw.drawn = s.drawn + 1 := rfl

/-- The supply that counts: the k-th id is the number k with zeros in front. -/
def counted : IdSupply where
  name k := "gen-" ++ String.ofList (Text.padded 4 k)
  distinct {j k} h := by
    have hdigits := String.ofList_injective ((String.append_right_inj _).mp h)
    rw [← Text.ofDigitChars_padded 4 j, hdigits, Text.ofDigitChars_padded]

instance : Inhabited IdSupply := ⟨counted⟩

end IdSupply

end Parley
