/-
  Parley.Query.Like
  ────────────────────────────────
  **PATTERNS.**

  In a pattern `%` stands for any run of characters, the empty one included, `_`
  for exactly one character, and any other character for itself.  A text is
  matched row by row: after each character of the pattern the row says which
  initial parts of the text the pattern so far accepts.
-/

namespace Parley.Query

/-! ## §1. Rows. -/

/-- The row in which a place is marked from the first marked place of another row on. -/
def markFrom : Bool → List Bool → List Bool
  | _, [] => []
  | seen, b :: row => (seen || b) :: markFrom (seen || b) row

/-- The row after one more character of the pattern.  A row has a place before the text and one
after each of its characters. -/
def nextRow (text : List Char) (row : List Bool) (p : Char) : List Bool :=
  if p = '%' then markFrom false row
  else if p = '_' then false :: row.take text.length
  else false :: List.zipWith (fun b c => b && c == p) row text

/-- The row of the empty pattern: only the empty part of the text is accepted. -/
def firstRow (text : List Char) : List Bool :=
  true :: text.map fun _ => false

/-! ## §2. Matching. -/

/-- Whether a pattern accepts the whole of a text. -/
def likeChars (text pattern : List Char) : Bool :=
  (pattern.foldl (nextRow text) (firstRow text)).getLastD false

/-- Whether a pattern accepts a text. -/
def like (text pattern : String) : Bool :=
  likeChars text.toList pattern.toList

/-- Wild cards at the ends, in the middle, alone, and none. -/
example : like "dataspace-protocol-http" "%protocol%" = true ∧ like "abc" "a_c" = true
    ∧ like "abc" "a_" = false ∧ like "" "%" = true ∧ like "" "_" = false
    ∧ like "abc" "abd" = false ∧ like "abc" "%%c" = true := by decide +kernel

end Parley.Query
