/-
  Parley.Proofs.Query.Like
  ────────────────────────────────
  **WHAT A PATTERN ACCEPTS.**

  A pattern accepts a text if the text can be cut into consecutive pieces, one
  for each character of the pattern: any piece for `%`, a piece of one character
  for `_`, and for any other character that character alone (`StandsFor`).

  The matcher never cuts.  It carries a row of marks along the pattern, and the
  invariant is what a mark means (`IsRowOf`):

      row j   the pattern so far accepts the first j characters of the text

  One more character of the pattern turns the row of what came before into the
  row with it (`isRowOf_nextRow`), so the last mark of the last row answers for
  the whole text and the whole pattern (`like_iff_cut`).
-/
import Parley.Query.Like
import Mathlib.Data.List.Forall2

namespace Parley.Query

/-! ## §1. Cutting a text. -/

/-- What a character of a pattern stands for. -/
inductive StandsFor : Char → List Char → Prop
  | run (piece : List Char) : StandsFor '%' piece
  | one (c : Char) : StandsFor '_' [c]
  | itself (p : Char) (hrun : p ≠ '%') (hone : p ≠ '_') : StandsFor p [p]

/-- The text can be cut into pieces for which the characters of the pattern stand, in order. -/
def Cuts (text pattern : List Char) : Prop :=
  ∃ pieces : List (List Char), List.Forall₂ StandsFor pattern pieces ∧ pieces.flatten = text

theorem cuts_nil_iff {text : List Char} : Cuts text [] ↔ text = [] := by
  constructor
  · rintro ⟨pieces, hpieces, hflat⟩
    cases hpieces
    exact hflat.symm
  · intro htext
    exact ⟨[], .nil, htext.symm⟩

/-- The last character of a pattern stands for the end of the text. -/
theorem cuts_concat_iff {text pattern : List Char} {p : Char} :
    Cuts text (pattern ++ [p])
      ↔ ∃ front piece, Cuts front pattern ∧ StandsFor p piece ∧ front ++ piece = text := by
  constructor
  · rintro ⟨pieces, hpieces, hflat⟩
    -- The pieces are as many as the characters, so there is one for the last.
    obtain ⟨last, fronts, hlast, hfronts, hsplit⟩ :=
      List.forall₂_cons_left_iff.mp (by simpa using List.forall₂_reverse_iff.mpr hpieces)
    have hpieces' : pieces = fronts.reverse ++ [last] := by
      rw [← List.reverse_cons, ← hsplit, List.reverse_reverse]
    refine ⟨fronts.reverse.flatten, last, ⟨fronts.reverse, ?_, rfl⟩, hlast, ?_⟩
    · exact List.forall₂_reverse_iff.mp (by simpa using hfronts)
    · rw [← hflat, hpieces']
      simp
  · rintro ⟨front, piece, ⟨pieces, hpieces, hflat⟩, hpiece, htext⟩
    refine ⟨pieces ++ [piece], List.rel_append hpieces (.cons hpiece .nil), ?_⟩
    rw [← htext, ← hflat]
    simp

/-! ## §2. What a mark means. -/

/-- A row whose marks say which initial parts of a text the pattern accepts. -/
structure IsRowOf (text pattern : List Char) (row : List Bool) : Prop where
  length : row.length = text.length + 1
  marked : ∀ j, row[j]? = some true ↔ j ≤ text.length ∧ Cuts (text.take j) pattern

/-- The empty pattern accepts the empty part only. -/
theorem isRowOf_firstRow (text : List Char) : IsRowOf text [] (firstRow text) where
  length := by simp [firstRow]
  marked j := by
    rw [cuts_nil_iff, List.take_eq_nil_iff]
    cases j with
    | zero => simp [firstRow]
    | succ j =>
      have hunmarked : (firstRow text)[j + 1]? ≠ some true := by
        intro hmark
        have hin : true ∈ text.map fun _ => false := List.mem_of_getElem? (i := j) hmark
        simp at hin
      constructor
      · intro hmark
        exact absurd hmark hunmarked
      · rintro ⟨hj, hnil⟩
        -- A place after a character is after no empty text.
        rcases hnil with h | h
        · omega
        · simp [h] at hj

@[simp] theorem length_markFrom (seen : Bool) (row : List Bool) :
    (markFrom seen row).length = row.length := by
  induction row generalizing seen with
  | nil => rfl
  | cons b row ih => simp [markFrom, ih]

/-- A place is marked if it is there and one at or before it was. -/
theorem getElem?_markFrom (seen : Bool) (row : List Bool) (j : Nat) :
    (markFrom seen row)[j]? = some true
      ↔ j < row.length ∧ (seen = true ∨ ∃ i, i ≤ j ∧ row[i]? = some true) := by
  -- Over the row; what was seen before goes into the next place.
  induction row generalizing seen j with
  | nil => simp [markFrom]
  | cons b row ih =>
    cases j with
    | zero => simp [markFrom]
    | succ j =>
      show (markFrom (seen || b) row)[j]? = some true ↔ _
      rw [ih (seen || b) j, Bool.or_eq_true, List.length_cons]
      refine and_congr (by omega) ?_
      constructor
      · rintro ((hseen | hb) | ⟨i, hi, hmark⟩)
        · exact .inl hseen
        · exact .inr ⟨0, by omega, by simp [hb]⟩
        · exact .inr ⟨i + 1, by omega, by simpa using hmark⟩
      · rintro (hseen | ⟨i, hi, hmark⟩)
        · exact .inl (.inl hseen)
        · cases i with
          | zero => exact .inl (.inr (by simpa using hmark))
          | succ i => exact .inr ⟨i, by omega, by simpa using hmark⟩

/-! ## §3. One more character of the pattern. -/

section NextRow

variable {text pattern : List Char} {row : List Bool}

/-- The first of two parts of an initial part is an initial part. -/
theorem front_eq_take {front piece : List Char} {j : Nat} (h : front ++ piece = text.take j) :
    front = text.take front.length := by
  have hstart : front <+: text.take j := h ▸ List.prefix_append front piece
  exact List.prefix_iff_eq_take.mp (hstart.trans (List.take_prefix j text))

/-- With `%` a part is accepted if some part within it was. -/
theorem cuts_run_iff {j : Nat} (hj : j ≤ text.length) :
    Cuts (text.take j) (pattern ++ ['%']) ↔ ∃ i, i ≤ j ∧ Cuts (text.take i) pattern := by
  rw [cuts_concat_iff]
  constructor
  · rintro ⟨front, piece, hfront, -, hsplit⟩
    have hlen : front.length + piece.length = j := by
      have hlength := congrArg List.length hsplit
      rw [List.length_append, List.length_take] at hlength
      omega
    refine ⟨front.length, by omega, ?_⟩
    rw [← front_eq_take hsplit]
    exact hfront
  · rintro ⟨i, hi, hcuts⟩
    refine ⟨text.take i, (text.take j).drop i, hcuts, .run _, ?_⟩
    have htake : text.take i = (text.take j).take i := by
      rw [List.take_take, Nat.min_eq_left hi]
    rw [htake]
    exact List.take_append_drop i _

/-- With a character that stands for one, a part is accepted if the one before its last was, and the
last character is one that it stands for. -/
theorem cuts_one_iff {p : Char} {fits : Char → Prop}
    (hp : ∀ piece, StandsFor p piece ↔ ∃ c, piece = [c] ∧ fits c) {j : Nat}
    (hj : j ≤ text.length) :
    Cuts (text.take j) (pattern ++ [p])
      ↔ ∃ i c, j = i + 1 ∧ text[i]? = some c ∧ fits c ∧ Cuts (text.take i) pattern := by
  rw [cuts_concat_iff]
  constructor
  · rintro ⟨front, piece, hfront, hpiece, hsplit⟩
    obtain ⟨c, rfl, hc⟩ := (hp piece).mp hpiece
    have hlen : front.length + 1 = j := by
      have hlength := congrArg List.length hsplit
      rw [List.length_append, List.length_take] at hlength
      simp only [List.length_singleton] at hlength
      omega
    have hlast : (text.take j)[front.length]? = some c := by
      rw [← hsplit]
      simp
    refine ⟨front.length, c, hlen.symm, ?_, hc, ?_⟩
    · rwa [List.getElem?_take_of_lt (by omega)] at hlast
    · rw [← front_eq_take hsplit]
      exact hfront
  · rintro ⟨i, c, rfl, hget, hc, hcuts⟩
    refine ⟨text.take i, [c], hcuts, (hp _).mpr ⟨c, rfl, hc⟩, ?_⟩
    rw [List.take_add_one, hget]
    rfl

theorem standsFor_one_iff {piece : List Char} :
    StandsFor '_' piece ↔ ∃ c, piece = [c] ∧ True := by
  constructor
  · rintro (_ | c | ⟨_, _, hone⟩)
    · exact ⟨c, rfl, trivial⟩
    · exact absurd rfl hone
  · rintro ⟨c, rfl, -⟩
    exact .one c

theorem standsFor_itself_iff {p : Char} (hrun : p ≠ '%') (hone : p ≠ '_') {piece : List Char} :
    StandsFor p piece ↔ ∃ c, piece = [c] ∧ c = p := by
  constructor
  · intro h
    cases h with
    | run => exact absurd rfl hrun
    | one => exact absurd rfl hone
    | itself => exact ⟨p, rfl, rfl⟩
  · rintro ⟨c, rfl, rfl⟩
    exact .itself c hrun hone

/-- The row for a character that stands for one: the marks move on by a place, where the text has a
character that fits. -/
theorem isRowOf_shifted (h : IsRowOf text pattern row) {p : Char} {fits : Char → Prop}
    (hp : ∀ piece, StandsFor p piece ↔ ∃ c, piece = [c] ∧ fits c) {shifted : List Bool}
    (hlength : shifted.length = text.length)
    (hshifted : ∀ i : Nat, shifted[i]? = some true
      ↔ ∃ c, text[i]? = some c ∧ fits c ∧ row[i]? = some true) :
    IsRowOf text (pattern ++ [p]) (false :: shifted) := by
  refine ⟨by rw [List.length_cons, hlength], fun j => ?_⟩
  cases j with
  | zero =>
    constructor
    · intro hmark
      cases hmark
    · rintro ⟨hj, hcuts⟩
      obtain ⟨i, c, hi, -⟩ := (cuts_one_iff hp hj).mp hcuts
      omega
  | succ i =>
    show shifted[i]? = some true ↔ _
    rw [hshifted]
    constructor
    · rintro ⟨c, hget, hc, hmark⟩
      obtain ⟨hi, -⟩ := List.getElem?_eq_some_iff.mp hget
      exact ⟨hi, (cuts_one_iff hp hi).mpr ⟨i, c, rfl, hget, hc, ((h.marked i).mp hmark).2⟩⟩
    · rintro ⟨hi, hcuts⟩
      obtain ⟨k, c, hk, hget, hc, hcuts⟩ := (cuts_one_iff hp hi).mp hcuts
      obtain rfl : i = k := by omega
      exact ⟨c, hget, hc, (h.marked i).mpr ⟨by omega, hcuts⟩⟩

/-- The row after one more character of the pattern. -/
theorem isRowOf_nextRow (h : IsRowOf text pattern row) (p : Char) :
    IsRowOf text (pattern ++ [p]) (nextRow text row p) := by
  have hlength := h.length
  unfold nextRow
  by_cases hrun : p = '%'
  · subst hrun
    rw [if_pos rfl]
    refine ⟨by rw [length_markFrom, hlength], fun j => ?_⟩
    rw [getElem?_markFrom, hlength]
    constructor
    · rintro ⟨hj, hseen | ⟨i, hi, hmark⟩⟩
      · cases hseen
      · exact ⟨by omega, (cuts_run_iff (by omega)).mpr ⟨i, hi, ((h.marked i).mp hmark).2⟩⟩
    · rintro ⟨hj, hcuts⟩
      obtain ⟨i, hi, hcuts⟩ := (cuts_run_iff hj).mp hcuts
      exact ⟨by omega, .inr ⟨i, hi, (h.marked i).mpr ⟨by omega, hcuts⟩⟩⟩
  rw [if_neg hrun]
  by_cases hone : p = '_'
  · subst hone
    rw [if_pos rfl]
    refine isRowOf_shifted h (fun _ => standsFor_one_iff) (by simp [hlength]) fun i => ?_
    -- The last mark of the row has no place to move on to.
    by_cases hi : i < text.length
    · simp [List.getElem?_take_of_lt hi, hi]
    · have hout : (row.take text.length)[i]? = none :=
        List.getElem?_eq_none (by simp [hlength]; omega)
      rw [hout]
      simp [hi]
  · rw [if_neg hone]
    refine isRowOf_shifted h (fun _ => standsFor_itself_iff hrun hone) (by simp [hlength])
      fun i => ?_
    rw [List.getElem?_zipWith]
    cases row[i]? <;> cases text[i]? <;> simp [and_comm]

/-- The row after the whole pattern. -/
theorem isRowOf_foldl (h : IsRowOf text pattern row) (more : List Char) :
    IsRowOf text (pattern ++ more) (more.foldl (nextRow text) row) := by
  -- Over the characters still to come.
  induction more generalizing pattern row with
  | nil => simpa using h
  | cons p more ih =>
    have hnext := ih (isRowOf_nextRow h p)
    rw [List.append_assoc] at hnext
    exact hnext

end NextRow

/-! ## §4. The whole text. -/

/-- The matcher accepts a text exactly if it can be cut as the pattern says. -/
theorem like_iff_cut (text pattern : String) :
    like text pattern = true ↔ Cuts text.toList pattern.toList := by
  have hrow := isRowOf_foldl (isRowOf_firstRow text.toList) pattern.toList
  rw [List.nil_append] at hrow
  have hlast := hrow.marked text.toList.length
  rw [List.take_length] at hlast
  unfold like likeChars
  rw [List.getLastD_eq_getLast?, List.getLast?_eq_getElem?, hrow.length, Nat.add_sub_cancel]
  constructor
  · intro hmark
    obtain hsome | ⟨-, hfalse⟩ := Option.getD_eq_iff.mp hmark
    · exact (hlast.mp hsome).2
    · cases hfalse
  · intro hcuts
    rw [hlast.mpr ⟨Nat.le_refl _, hcuts⟩]
    rfl

end Parley.Query
