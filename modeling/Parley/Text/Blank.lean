/-
  Parley.Text.Blank
  ────────────────────────────────
  **BLANK CHARACTERS.**

  A character is blank when it has the Unicode property White_Space: twenty-five
  code points in ten ranges.  Trimming removes them from both ends of a text:

      trim "\u3000 like\n" = "like"
-/

namespace Parley.Text

/-! ## §1. The property. -/

/-- The code points with the property White_Space, as closed ranges in ascending order. -/
def blankRanges : List (Nat × Nat) :=
  [(0x09, 0x0D), (0x20, 0x20), (0x85, 0x85), (0xA0, 0xA0), (0x1680, 0x1680),
   (0x2000, 0x200A), (0x2028, 0x2029), (0x202F, 0x202F), (0x205F, 0x205F), (0x3000, 0x3000)]

/-- Whether a character is blank. -/
def isBlank (c : Char) : Bool :=
  blankRanges.any fun r => r.1 ≤ c.toNat && c.toNat ≤ r.2

/-- Every character that counts as white space in ASCII is blank. -/
theorem isBlank_of_isWhitespace (c : Char) (h : c.isWhitespace = true) : isBlank c = true := by
  simp only [Char.isWhitespace, Bool.or_eq_true, decide_eq_true_eq] at h
  rcases h with ((h | h) | h) | h <;> subst h <;> decide

/-! ## §2. Trimming. -/

/-- A list of characters without the blanks it begins with. -/
def dropBlanks (cs : List Char) : List Char :=
  cs.dropWhile isBlank

/-- A list of characters without the blanks at either end. -/
def trimChars (cs : List Char) : List Char :=
  (dropBlanks (dropBlanks cs).reverse).reverse

/-- A text without the blanks at either end. -/
def trim (s : String) : String :=
  String.ofList (trimChars s.toList)

/-- A list of characters without the byte order mark it may begin with. -/
def dropMark : List Char → List Char
  | '\ufeff' :: cs => cs
  | cs => cs

/-- A text with nothing but blanks in it, the empty text included. -/
def isBlankText (s : String) : Bool :=
  s.toList.all isBlank

/-- Dropping blanks leaves nothing exactly when there was nothing but blanks. -/
theorem dropBlanks_eq_nil_iff (cs : List Char) :
    dropBlanks cs = [] ↔ ∀ c ∈ cs, isBlank c = true := by
  induction cs with
  | nil => simp [dropBlanks]
  | cons c t ih =>
    by_cases h : isBlank c = true
    · rw [dropBlanks, List.dropWhile_cons_of_pos h, List.forall_mem_cons]
      exact ⟨fun ht => ⟨h, ih.mp ht⟩, fun ht => ih.mpr ht.2⟩
    · simp [dropBlanks, h]

/-- Trimming leaves nothing exactly when there was nothing but blanks. -/
theorem trimChars_eq_nil_iff (cs : List Char) :
    trimChars cs = [] ↔ ∀ c ∈ cs, isBlank c = true := by
  rw [trimChars, List.reverse_eq_nil_iff, dropBlanks_eq_nil_iff]
  simp only [List.mem_reverse]
  constructor
  · intro h
    cases hd : dropBlanks cs with
    | nil => exact (dropBlanks_eq_nil_iff cs).mp hd
    | cons c t =>
      have hblank := h c (by simp [hd])
      have hhead := List.head?_dropWhile_not isBlank cs
      rw [← dropBlanks, hd] at hhead
      simp [hblank] at hhead
  · intro h c hc
    exact h c ((List.dropWhile_sublist isBlank).subset hc)

end Parley.Text
