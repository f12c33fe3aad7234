/-
  Parley.Decimal.Word
  ────────────────────────────────
  **WORDS.**

  The greatest numbers that words of 32 and of 64 bits can hold, with a sign and
  without.  The least one with a sign is below zero by one more.
-/

namespace Parley.Word

/-- The greatest number of 32 bits without a sign. -/
def unsigned32 : Nat := 4294967295

/-- The greatest number of 64 bits without a sign. -/
def unsigned64 : Nat := 18446744073709551615

/-- The greatest number of 32 bits with a sign. -/
def signed32 : Nat := 2147483647

/-- The greatest number of 64 bits with a sign. -/
def signed64 : Nat := 9223372036854775807

/-- All bits are ones. -/
example : unsigned32 + 1 = Nat.pow 2 32 ∧ unsigned64 + 1 = Nat.pow 2 64
    ∧ signed32 + 1 = Nat.pow 2 31 ∧ signed64 + 1 = Nat.pow 2 63 := by decide +kernel

end Parley.Word
