/-
  Parley.Proofs.Json.Tokens
  ────────────────────────────────
  **TEXTS AND NUMBERS READ BACK.**

  What is written of a text is read up to the quote that closes it
  (`readText_flatMap`).  A number is read up to the first character that cannot
  belong to it, so it is read alike in every place where a value may end
  (`readNumber_append`); the digits of a whole number do not begin with a zero
  that would stop the reader (`readMagnitude_toDigits`).
-/
import Parley.Json.Printer
import Parley.Json.Reader
import Parley.Proofs.Time.Timestamp
import Mathlib.Data.List.TakeDrop

namespace Parley.Json

open Parley.Decimal
open Parley.Text

/-! ## §1. Texts. -/

theorem readText_plain {c : Char} (hquote : c ≠ '"') (hback : c ≠ '\\') (hc : ¬ c.toNat < 0x20)
    (rest : List Char) : readText (c :: rest) = (readText rest).map fun r => (c :: r.1, r.2) := by
  rw [readText.eq_def]
  split
  case h_1 h => cases h
  case h_2 h =>
    cases h
    exact absurd rfl hquote
  case h_7 h =>
    cases h
    rw [if_neg hc]
  all_goals
    rename_i h
    cases h
    exact absurd rfl hback

theorem readText_letter {c e : Char} (hc : c ≠ 'u') (he : escaped? c = some e) (rest : List Char) :
    readText ('\\' :: c :: rest) = (readText rest).map fun r => (e :: r.1, r.2) := by
  rw [readText.eq_def]
  split
  case h_5 h =>
    cases h
    rw [he]
  case h_7 hnot _ h =>
    cases h
    exact absurd rfl (hnot c rest rfl)
  case h_3 h | h_4 h =>
    cases h
    exact absurd rfl hc
  all_goals
    rename_i h
    cases h

/-- Four digits are read as a character that is no half of a pair, whatever comes next. -/
theorem readText_unit {a b c d : Char} {n : Nat} (hn : unit? a b c d = some n) (hlow : n < 0xD800)
    (rest : List Char) : readText ('\\' :: 'u' :: a :: b :: c :: d :: rest)
      = (readText rest).map fun r => (Char.ofNat n :: r.1, r.2) := by
  rw [readText.eq_def]
  split
  case h_3 h =>
    cases h
    rw [hn]
    simp only
    rw [if_neg (by omega), if_neg (by omega)]
  case h_4 h =>
    cases h
    rw [hn]
    simp only
    rw [if_neg (by omega)]
  case h_5 hnot h =>
    cases h
    exact absurd rfl (hnot a b c d rest rfl)
  case h_7 hnot _ h =>
    cases h
    exact absurd rfl (hnot 'u' _ rfl)
  all_goals
    rename_i h
    cases h

/-- A control character is written with two digits. -/
theorem readText_control (c : Char) (hc : c.toNat < 0x20) (rest : List Char) :
    readText ('\\' :: 'u' :: '0' :: '0' :: hexDigit (c.toNat / 16) :: hexDigit (c.toNat % 16) :: rest)
      = (readText rest).map fun r => (c :: r.1, r.2) := by
  have hunit : ∀ n < 0x20, unit? '0' '0' (hexDigit (n / 16)) (hexDigit (n % 16)) = some n := by
    decide +kernel
  rw [readText_unit (hunit c.toNat hc) (by omega), Char.ofNat_toNat]

/-- What is written of a character reads back. -/
theorem readText_escapeChar (c : Char) (rest : List Char) :
    readText (escapeChar c ++ rest) = (readText rest).map fun r => (c :: r.1, r.2) := by
  unfold escapeChar
  split
  case h_8 hquote hback _ _ _ _ _ =>
    split
    · exact readText_control c (by assumption) rest
    · exact readText_plain hquote hback (by assumption) rest
  all_goals exact readText_letter (by decide) rfl rest

/-- A text is read up to the quote that closes it. -/
theorem readText_flatMap (cs rest : List Char) :
    readText (cs.flatMap escapeChar ++ '"' :: rest) = some (cs, rest) := by
  induction cs with
  | nil => rw [readText.eq_def]; rfl
  | cons c cs ih =>
    rw [List.flatMap_cons, List.append_assoc, readText_escapeChar, ih]
    rfl

/-! ## §2. Numbers. -/

/-- Whether a value may end here: there is nothing more, or no character that belongs to a number. -/
def Ends (rest : List Char) : Prop :=
  ∀ c cs, rest = c :: cs → c.isDigit = false ∧ c ≠ '.' ∧ c ≠ 'e' ∧ c ≠ 'E' ∧ c ≠ '+' ∧ c ≠ '-'

theorem ends_nil : Ends [] := nofun

theorem spanDigits_eq (cs : List Char) :
    spanDigits cs = (cs.takeWhile Char.isDigit, cs.dropWhile Char.isDigit) :=
  List.span_eq_takeWhile_dropWhile Char.isDigit cs

theorem Ends.spanDigits {rest : List Char} (h : Ends rest) : spanDigits rest = ([], rest) := by
  rw [spanDigits_eq]
  cases rest with
  | nil => rfl
  | cons c cs =>
    have hc : ¬ c.isDigit = true := by
      rw [(h c cs rfl).1]
      exact Bool.false_ne_true
    rw [List.takeWhile_cons_of_neg hc, List.dropWhile_cons_of_neg hc]

theorem spanDigits_append {rest : List Char} (h : Ends rest) (cs : List Char) :
    spanDigits (cs ++ rest) = ((spanDigits cs).1, (spanDigits cs).2 ++ rest) := by
  induction cs with
  | nil => exact h.spanDigits
  | cons c cs ih =>
    rw [spanDigits_eq, spanDigits_eq] at ih ⊢
    obtain ⟨htake, hdrop⟩ := Prod.mk.inj ih
    by_cases hc : c.isDigit = true
    · rw [List.cons_append, List.takeWhile_cons_of_pos hc, List.dropWhile_cons_of_pos hc, htake, hdrop,
        List.takeWhile_cons_of_pos hc, List.dropWhile_cons_of_pos hc]
    · rw [List.cons_append, List.takeWhile_cons_of_neg hc, List.dropWhile_cons_of_neg hc,
        List.takeWhile_cons_of_neg hc, List.dropWhile_cons_of_neg hc, List.cons_append]

theorem readFraction_of_ne {cs : List Char} (h : ∀ more, cs ≠ '.' :: more) :
    readFraction cs = some (none, cs) := by
  unfold readFraction
  split
  · rename_i more
    exact absurd rfl (h more)
  · rfl

theorem readFraction_append {rest : List Char} (h : Ends rest) (cs : List Char) :
    readFraction (cs ++ rest) = (readFraction cs).map fun r => (r.1, r.2 ++ rest) := by
  by_cases hpoint : ∃ more, cs = '.' :: more
  · obtain ⟨more, rfl⟩ := hpoint
    rw [List.cons_append]
    unfold readFraction
    simp only
    rw [spanDigits_append h]
    generalize spanDigits more = digits
    obtain ⟨ds, left⟩ := digits
    cases ds <;> rfl
  · have hne : ∀ more, cs ≠ '.' :: more := fun more heq => hpoint ⟨more, heq⟩
    rw [readFraction_of_ne hne, readFraction_of_ne]
    · rfl
    · intro more heq
      cases cs with
      | nil => exact (h '.' more heq).2.1 rfl
      | cons c cs =>
        obtain ⟨rfl, _⟩ := List.cons.inj heq
        exact hne cs rfl

theorem readSign_of_ne {cs : List Char} (hplus : ∀ more, cs ≠ '+' :: more)
    (hminus : ∀ more, cs ≠ '-' :: more) : readSign cs = (false, cs) := by
  unfold readSign
  split
  · rename_i more
    exact absurd rfl (hplus more)
  · rename_i more
    exact absurd rfl (hminus more)
  · rfl

theorem readSign_append {rest : List Char} (h : Ends rest) (cs : List Char) :
    readSign (cs ++ rest) = ((readSign cs).1, (readSign cs).2 ++ rest) := by
  cases cs with
  | nil =>
    exact readSign_of_ne (fun more heq => (h '+' more heq).2.2.2.2.1 rfl)
      fun more heq => (h '-' more heq).2.2.2.2.2 rfl
  | cons c cs =>
    by_cases hplus : c = '+'
    · subst hplus
      rfl
    · by_cases hminus : c = '-'
      · subst hminus
        rfl
      · have hplus' (more more' : List Char) : c :: more ≠ '+' :: more' :=
          fun heq => hplus (List.cons.inj heq).1
        have hminus' (more more' : List Char) : c :: more ≠ '-' :: more' :=
          fun heq => hminus (List.cons.inj heq).1
        rw [List.cons_append, readSign_of_ne (hplus' _) (hminus' _),
          readSign_of_ne (hplus' _) (hminus' _)]
        rfl

theorem readExponent_of_ne {c : Char} (hlower : c ≠ 'e') (hupper : c ≠ 'E') (cs : List Char) :
    readExponent (c :: cs) = some (none, c :: cs) :=
  if_neg (not_or.mpr ⟨hlower, hupper⟩)

theorem readExponent_append {rest : List Char} (h : Ends rest) (cs : List Char) :
    readExponent (cs ++ rest) = (readExponent cs).map fun r => (r.1, r.2 ++ rest) := by
  cases cs with
  | nil =>
    cases rest with
    | nil => rfl
    | cons c rest =>
      obtain ⟨_, _, hlower, hupper, _⟩ := h c rest rfl
      exact readExponent_of_ne hlower hupper rest
  | cons c cs =>
    rw [List.cons_append]
    by_cases he : c = 'e' ∨ c = 'E'
    · unfold readExponent
      simp only [if_pos he]
      rw [readSign_append h]
      simp only
      rw [spanDigits_append h]
      generalize spanDigits (readSign cs).2 = digits
      obtain ⟨ds, left⟩ := digits
      cases ds <;> rfl
    · obtain ⟨hlower, hupper⟩ := not_or.mp he
      rw [readExponent_of_ne hlower hupper, readExponent_of_ne hlower hupper]
      rfl

theorem readParts_append {rest : List Char} (h : Ends rest) (negative : Bool) (ds cs : List Char) :
    readParts negative ds (cs ++ rest)
      = (readParts negative ds cs).map fun r => (r.1, r.2 ++ rest) := by
  unfold readParts
  rw [readFraction_append h]
  cases readFraction cs with
  | none => rfl
  | some fraction =>
    show (readExponent (fraction.2 ++ rest)).bind _ = Option.map _ ((readExponent fraction.2).bind _)
    rw [readExponent_append h]
    cases readExponent fraction.2 with
    | none => rfl
    | some exponent =>
      show (numberOf? negative ds fraction.1 exponent.1).bind _
        = Option.map _ ((numberOf? negative ds fraction.1 exponent.1).bind _)
      cases numberOf? negative ds fraction.1 exponent.1 <;> rfl

theorem readMagnitude_of_span {negative : Bool} {cs ds rest : List Char}
    (hspan : spanDigits cs = (ds, rest)) (hne : ds ≠ [])
    (hlead : ∀ d more, ds ≠ '0' :: d :: more) :
    readMagnitude negative cs = readParts negative ds rest := by
  unfold readMagnitude
  rw [hspan]
  split
  · rename_i heq
    exact absurd (Prod.mk.inj heq).1 hne
  · rename_i heq
    exact absurd (Prod.mk.inj heq).1 (hlead _ _)
  · rename_i heq
    obtain ⟨rfl, rfl⟩ := Prod.mk.inj heq
    rfl

/-- Without whole digits, or with one that leads for nothing, there is no number. -/
theorem readMagnitude_eq_none {negative : Bool} {cs ds rest : List Char}
    (hspan : spanDigits cs = (ds, rest)) (h : ds = [] ∨ ∃ d more, ds = '0' :: d :: more) :
    readMagnitude negative cs = none := by
  unfold readMagnitude
  rw [hspan]
  rcases h with rfl | ⟨d, more, rfl⟩
  · rfl
  · rfl

/-- What follows a number does not matter. -/
theorem readMagnitude_append {rest : List Char} (h : Ends rest) (negative : Bool) (cs : List Char) :
    readMagnitude negative (cs ++ rest)
      = (readMagnitude negative cs).map fun r => (r.1, r.2 ++ rest) := by
  have hspan := spanDigits_append h cs
  by_cases hnone : (spanDigits cs).1 = [] ∨ ∃ d more, (spanDigits cs).1 = '0' :: d :: more
  · rw [readMagnitude_eq_none hspan hnone, readMagnitude_eq_none rfl hnone]
    rfl
  · obtain ⟨hne, hlead⟩ := not_or.mp hnone
    have hlead' : ∀ d more, (spanDigits cs).1 ≠ '0' :: d :: more :=
      fun d more heq => hlead ⟨d, more, heq⟩
    rw [readMagnitude_of_span hspan hne hlead', readMagnitude_of_span rfl hne hlead']
    exact readParts_append h negative _ _

theorem readNumber_of_ne {cs : List Char} (h : ∀ more, cs ≠ '-' :: more) :
    readNumber cs = readMagnitude false cs := by
  unfold readNumber
  split
  · rename_i more
    exact absurd rfl (h more)
  · rfl

theorem readNumber_append {rest : List Char} (h : Ends rest) (cs : List Char) :
    readNumber (cs ++ rest) = (readNumber cs).map fun r => (r.1, r.2 ++ rest) := by
  by_cases hminus : ∃ more, cs = '-' :: more
  · obtain ⟨more, rfl⟩ := hminus
    exact readMagnitude_append h true more
  · have hne : ∀ more, cs ≠ '-' :: more := fun more heq => hminus ⟨more, heq⟩
    rw [readNumber_of_ne hne, readNumber_of_ne]
    · exact readMagnitude_append h false cs
    · intro more heq
      cases cs with
      | nil => exact (h '-' more heq).2.2.2.2.2 rfl
      | cons c cs =>
        obtain ⟨rfl, _⟩ := List.cons.inj heq
        exact hne cs rfl

/-! ## §3. Whole numbers. -/

/-- The digits of a number do not begin with a zero, unless it is zero. -/
theorem toDigits_lead (n : Nat) (d : Char) (more : List Char) :
    Nat.toDigits 10 n ≠ '0' :: d :: more := by
  intro h
  have hdigits : ∀ c ∈ d :: more, c.isDigit = true := fun c hc =>
    Nat.isDigit_of_mem_toDigits (by decide) (by decide) (h ▸ List.mem_cons_of_mem '0' hc)
  have hvalue : digitsValue (d :: more) = n := by
    have hn : digitsValue (Nat.toDigits 10 n) = n := Nat.ofDigitChars_ten_toDigits
    rw [h] at hn
    exact hn
  -- Without the zero the digits are fewer, and the value is the same.
  have hlt : n < 10 ^ (d :: more).length := hvalue ▸ digitsValue_lt hdigits
  have hlength := (Nat.length_toDigits_le_iff (by decide) (Nat.succ_pos more.length)).mpr hlt
  rw [h] at hlength
  exact Nat.not_succ_le_self _ hlength

/-- The digits of a whole number are read as a whole number. -/
theorem readMagnitude_toDigits (negative : Bool) (n : Nat) :
    readMagnitude negative (Nat.toDigits 10 n)
      = (wholeNumber? negative (Nat.toDigits 10 n)).map fun v => (v, []) := by
  have hdigits : ∀ c ∈ Nat.toDigits 10 n, c.isDigit = true := fun c hc =>
    Nat.isDigit_of_mem_toDigits (by decide) (by decide) hc
  have hspan : spanDigits (Nat.toDigits 10 n) = (Nat.toDigits 10 n, []) := by
    rw [spanDigits_eq, List.takeWhile_eq_self_iff.mpr hdigits, List.dropWhile_eq_nil_iff.mpr hdigits]
  rw [readMagnitude_of_span hspan Nat.toDigits_ne_nil (toDigits_lead n)]
  unfold readParts
  show (numberOf? negative (Nat.toDigits 10 n) none none).bind _ = _
  show (wholeNumber? negative (Nat.toDigits 10 n)).bind _ = _
  cases wholeNumber? negative (Nat.toDigits 10 n) <;> rfl

end Parley.Json
