/-
  Parley.Proofs.Json.Numerals
  ────────────────────────────────
  **NUMBERS AS THEY ARE WRITTEN.**

  However the digits of a number are laid out, they are a numeral: digits, a
  fraction if there is a point, an exponent if there is a mark for it
  (`isNumeral_layout`).  A numeral is read to its end, if it is read at all, so
  what a number's text is read as depends on nothing else (`numberOfText?`):

      17                   17, as every whole number of 64 bits
      99.99999999999999    100.0
-/
import Parley.Proofs.Json.Tokens

namespace Parley.Json

open Parley.Decimal
open Parley.Text

/-! ## §1. Digits. -/

/-- Digits, at least one. -/
structure IsDigits (ds : List Char) : Prop where
  ne_nil : ds ≠ []
  digits : ∀ c ∈ ds, c.isDigit = true

theorem isDigits_toDigits (n : Nat) : IsDigits (Nat.toDigits 10 n) :=
  ⟨Nat.toDigits_ne_nil, fun _ hc => Nat.isDigit_of_mem_toDigits (by decide) (by decide) hc⟩

theorem digits_zeros (k : Nat) : ∀ c ∈ List.replicate k '0', c.isDigit = true := by
  intro c hc
  rw [(List.mem_replicate.mp hc).2]
  rfl

theorem isDigits_zero : IsDigits ['0'] :=
  ⟨nofun, digits_zeros 1⟩

theorem IsDigits.append {ds more : List Char} (h : IsDigits ds)
    (hmore : ∀ c ∈ more, c.isDigit = true) : IsDigits (ds ++ more) where
  ne_nil := List.append_ne_nil_of_left_ne_nil h.ne_nil more
  digits c hc := (List.mem_append.mp hc).elim (h.digits c) (hmore c)

theorem IsDigits.prepend {ds more : List Char} (h : IsDigits ds)
    (hmore : ∀ c ∈ more, c.isDigit = true) : IsDigits (more ++ ds) where
  ne_nil := List.append_ne_nil_of_right_ne_nil more h.ne_nil
  digits c hc := (List.mem_append.mp hc).elim (hmore c) (h.digits c)

/-- Digits are read up to the first character that is none. -/
theorem spanDigits_of_digits {ds rest : List Char} (h : ∀ c ∈ ds, c.isDigit = true)
    (hrest : ∀ c more, rest = c :: more → c.isDigit = false) :
    spanDigits (ds ++ rest) = (ds, rest) := by
  have hstop : rest.takeWhile Char.isDigit = [] ∧ rest.dropWhile Char.isDigit = rest := by
    cases rest with
    | nil => exact ⟨rfl, rfl⟩
    | cons c more =>
      have hc : ¬ c.isDigit = true := by
        rw [hrest c more rfl]
        exact Bool.false_ne_true
      exact ⟨List.takeWhile_cons_of_neg hc, List.dropWhile_cons_of_neg hc⟩
  rw [spanDigits_eq, List.takeWhile_append_of_pos h, List.dropWhile_append_of_pos h, hstop.1, hstop.2,
    List.append_nil]

/-! ## §2. Numerals. -/

/-- A fraction as it is written, if there is one. -/
def IsFraction (cs : List Char) : Prop :=
  cs = [] ∨ ∃ ds, IsDigits ds ∧ cs = '.' :: ds

/-- An exponent as it is written, if there is one: with its sign. -/
def IsExponent (cs : List Char) : Prop :=
  cs = [] ∨ ∃ sign ds, (sign = '+' ∨ sign = '-') ∧ IsDigits ds ∧ cs = 'e' :: sign :: ds

/-- Digits, a fraction and an exponent. -/
def IsNumeral (cs : List Char) : Prop :=
  ∃ whole fraction exponent, IsDigits whole ∧ IsFraction fraction ∧ IsExponent exponent
    ∧ cs = whole ++ (fraction ++ exponent)

theorem isExponent_nil : IsExponent [] := .inl rfl

theorem IsExponent.head_not_digit {cs more : List Char} {c : Char} (h : IsExponent cs)
    (hcs : cs = c :: more) : c.isDigit = false := by
  subst hcs
  rcases h with hnil | ⟨sign, ds, _, _, heq⟩
  · cases hnil
  · obtain ⟨rfl, _⟩ := List.cons.inj heq
    rfl

/-- An exponent is read to its end. -/
theorem IsExponent.read {cs : List Char} (h : IsExponent cs) :
    ∃ exponent, readExponent cs = some (exponent, []) := by
  rcases h with rfl | ⟨sign, ds, hsign, hds, rfl⟩
  · exact ⟨none, rfl⟩
  · have hspan : spanDigits ds = (ds, []) := by
      have hspan : spanDigits (ds ++ []) = (ds, []) := spanDigits_of_digits hds.digits nofun
      rwa [List.append_nil] at hspan
    have hread : ∃ negative, readSign (sign :: ds) = (negative, ds) := by
      rcases hsign with rfl | rfl
      · exact ⟨false, rfl⟩
      · exact ⟨true, rfl⟩
    obtain ⟨negative, hread⟩ := hread
    obtain ⟨d, more, rfl⟩ := List.exists_cons_of_ne_nil hds.ne_nil
    refine ⟨some (if negative = true then -(digitsValue (d :: more) : Int)
      else digitsValue (d :: more)), ?_⟩
    unfold readExponent
    simp only
    rw [hread]
    simp only
    rw [hspan]
    exact if_pos (.inl trivial)

/-- A fraction is read up to the exponent. -/
theorem IsFraction.read {cs exponent : List Char} (h : IsFraction cs) (hexp : IsExponent exponent) :
    ∃ fraction, readFraction (cs ++ exponent) = some (fraction, exponent) := by
  rcases h with rfl | ⟨ds, hds, rfl⟩
  · refine ⟨none, readFraction_of_ne fun more hmore => ?_⟩
    rcases hexp with hnil | ⟨_, _, _, _, heq⟩
    · rw [hnil] at hmore
      cases hmore
    · rw [heq] at hmore
      exact absurd (List.cons.inj hmore).1 (by decide)
  · have hspan := spanDigits_of_digits hds.digits fun _ _ hcs => hexp.head_not_digit hcs
    obtain ⟨d, more, rfl⟩ := List.exists_cons_of_ne_nil hds.ne_nil
    refine ⟨some (d :: more), ?_⟩
    unfold readFraction
    rw [List.cons_append]
    simp only
    rw [hspan]

/-- A numeral is read to its end, if it is read at all. -/
theorem IsNumeral.read {cs : List Char} (h : IsNumeral cs) (negative : Bool) :
    ∃ value : Option Json, readMagnitude negative cs = value.map fun v => (v, []) := by
  obtain ⟨whole, fraction, exponent, hwhole, hfraction, hexponent, rfl⟩ := h
  have hspan : spanDigits (whole ++ (fraction ++ exponent)) = (whole, fraction ++ exponent) := by
    refine spanDigits_of_digits hwhole.digits fun c more hcs => ?_
    rcases hfraction with rfl | ⟨ds, _, rfl⟩
    · exact hexponent.head_not_digit hcs
    · obtain ⟨rfl, _⟩ := List.cons.inj hcs
      rfl
  by_cases hlead : ∃ d more, whole = '0' :: d :: more
  · exact ⟨none, readMagnitude_eq_none hspan (.inr hlead)⟩
  · obtain ⟨f, hf⟩ := hfraction.read hexponent
    obtain ⟨e, he⟩ := hexponent.read
    refine ⟨numberOf? negative whole f e, ?_⟩
    rw [readMagnitude_of_span hspan hwhole.ne_nil fun d more heq => hlead ⟨d, more, heq⟩]
    unfold readParts
    rw [hf]
    show (readExponent exponent).bind _ = _
    rw [he]
    show (numberOf? negative whole f e).bind _ = _
    cases numberOf? negative whole f e <;> rfl

/-! ## §3. Numbers as they are written. -/

/-- An exponent is written with its sign. -/
theorem isExponent_lead (lead : Int) : IsExponent
    ("e" ++ ((if dataFormat.plusExponent ∧ 0 ≤ lead then "+" else "") ++ toString lead)).toList := by
  cases lead with
  | ofNat n =>
    refine .inr ⟨'+', Nat.toDigits 10 n, .inl rfl, isDigits_toDigits n, ?_⟩
    show ("e" ++ ("+" ++ Nat.repr n)).toList = _
    rw [String.toList_append, String.toList_append, Nat.toList_repr]
    rfl
  | negSucc n =>
    refine .inr ⟨'-', Nat.toDigits 10 (n + 1), .inr rfl, isDigits_toDigits (n + 1), ?_⟩
    show ("e" ++ ("-" ++ Nat.repr (n + 1))).toList = _
    rw [String.toList_append, String.toList_append, Nat.toList_repr]
    rfl

/-- The digits of a number that is written with an exponent: one before the point. -/
theorem isNumeral_mantissa {exponent : List Char} (hexp : IsExponent exponent) (ds : List Char) :
    IsDigits ds → IsNumeral ((match ds with
      | c :: r@(_ :: _) => c :: '.' :: r
      | _ => ds) ++ exponent) := by
  intro hds
  obtain ⟨c, more, rfl⟩ := List.exists_cons_of_ne_nil hds.ne_nil
  have hc : IsDigits [c] :=
    ⟨nofun, fun _ hd => hds.digits _ (List.mem_singleton.mp hd ▸ List.mem_cons_self)⟩
  cases more with
  | nil => exact ⟨[c], [], exponent, hc, .inl rfl, hexp, rfl⟩
  | cons d more =>
    have hmore : IsDigits (d :: more) :=
      ⟨nofun, fun e he => hds.digits e (List.mem_cons_of_mem c he)⟩
    exact ⟨[c], '.' :: d :: more, exponent, hc, .inr ⟨_, hmore, rfl⟩, hexp, rfl⟩

/-- However the digits are laid out, they are a numeral. -/
theorem isNumeral_layout (d : Scientific) : IsNumeral (dataFormat.layout d).toList := by
  have hds := isDigits_toDigits d.digits
  unfold NumberFormat.layout
  simp only
  generalize Nat.toDigits 10 d.digits = ds at hds ⊢
  generalize hlead : (ds.length : Int) + d.scale - 1 = lead
  split
  · split
    · -- A whole number: zeros after the digits, and one after the point.
      refine ⟨ds ++ List.replicate d.scale.toNat '0', ['.', '0'], [], hds.append (digits_zeros _),
        .inr ⟨['0'], isDigits_zero, rfl⟩, isExponent_nil, ?_⟩
      rw [String.toList_append, String.toList_ofList]
      rfl
    · split
      · -- The point stands among the digits.
        have hwhole : ds.take (lead.toNat + 1) ≠ [] := by
          rw [Ne, List.take_eq_nil_iff, not_or]
          exact ⟨Nat.succ_ne_zero _, hds.ne_nil⟩
        have hfraction : ds.drop (lead.toNat + 1) ≠ [] := by
          rw [Ne, List.drop_eq_nil_iff]
          omega
        refine ⟨ds.take (lead.toNat + 1), '.' :: ds.drop (lead.toNat + 1), [],
          ⟨hwhole, fun c hc => hds.digits c (List.mem_of_mem_take hc)⟩,
          .inr ⟨_, ⟨hfraction, fun c hc => hds.digits c (List.mem_of_mem_drop hc)⟩, rfl⟩,
          isExponent_nil, ?_⟩
        rw [String.toList_ofList, List.append_nil]
      · -- Zeros stand between the point and the digits.
        refine ⟨['0'], '.' :: (List.replicate (-lead - 1).toNat '0' ++ ds), [],
          isDigits_zero, .inr ⟨_, hds.prepend (digits_zeros _), rfl⟩, isExponent_nil, ?_⟩
        rw [String.toList_ofList, List.append_nil]
        rfl
  · have hnumeral := isNumeral_mantissa (isExponent_lead lead) ds hds
    rw [String.append_assoc, String.append_assoc, String.toList_append, String.toList_ofList]
    exact hnumeral

/-! ## §4. What is written as a number. -/

/-- What a text is read as that is a number to its end. -/
def numberOfText? (s : String) : Option Json :=
  (readNumber s.toList).bind fun r => if r.2 = [] then some r.1 else none

/-- What is written as a number: it is read to its end or not at all, and it does not begin like
another value. -/
structure IsNumber (cs : List Char) : Prop where
  whole : ∃ value : Option Json, readNumber cs = value.map fun v => (v, [])
  head : ∃ c more, cs = c :: more ∧ (c.isDigit = true ∨ c ∈ ['-', 'N', 'i'])

theorem IsNumeral.head {cs : List Char} (h : IsNumeral cs) :
    ∃ c more, cs = c :: more ∧ c.isDigit = true := by
  obtain ⟨whole, fraction, exponent, hwhole, _, _, rfl⟩ := h
  obtain ⟨c, more, rfl⟩ := List.exists_cons_of_ne_nil hwhole.ne_nil
  exact ⟨c, more ++ (fraction ++ exponent), rfl, hwhole.digits c List.mem_cons_self⟩

/-- A numeral has no sign. -/
theorem IsNumeral.readNumber_eq {cs : List Char} (h : IsNumeral cs) :
    readNumber cs = readMagnitude false cs := by
  refine readNumber_of_ne fun rest hrest => ?_
  obtain ⟨c, more, hcs, hc⟩ := h.head
  rw [hcs] at hrest
  obtain ⟨rfl, _⟩ := List.cons.inj hrest
  exact absurd hc (by decide)

theorem IsNumeral.isNumber {cs : List Char} (h : IsNumeral cs) : IsNumber cs where
  head := by
    obtain ⟨c, more, hcs, hc⟩ := h.head
    exact ⟨c, more, hcs, .inl hc⟩
  whole := h.readNumber_eq ▸ h.read false

theorem IsNumeral.isNumber_minus {cs : List Char} (h : IsNumeral cs) : IsNumber ('-' :: cs) where
  head := ⟨'-', cs, rfl, .inr (by decide)⟩
  whole := h.read true

theorem isNumeral_toDigits (n : Nat) : IsNumeral (Nat.toDigits 10 n) :=
  ⟨Nat.toDigits 10 n, [], [], isDigits_toDigits n, .inl rfl, isExponent_nil, (List.append_nil _).symm⟩

theorem isNumber_int (n : Int) : IsNumber (toString n).toList := by
  cases n with
  | ofNat n =>
    show IsNumber (Nat.repr n).toList
    rw [Nat.toList_repr]
    exact (isNumeral_toDigits n).isNumber
  | negSucc n =>
    show IsNumber ("-" ++ Nat.repr (n + 1)).toList
    rw [String.toList_append, Nat.toList_repr]
    exact (isNumeral_toDigits (n + 1)).isNumber_minus

/-- A sign before a numeral. -/
theorem isNumber_signed (negative : Bool) {s : String} (h : IsNumeral s.toList) :
    IsNumber ((if negative then "-" else "") ++ s).toList := by
  rw [String.toList_append]
  cases negative with
  | false => exact h.isNumber
  | true => exact h.isNumber_minus

theorem isNumber_render (x : Binary64) : IsNumber (dataFormat.render x).toList := by
  cases x with
  | nan => exact ⟨⟨none, rfl⟩, 'N', ['a', 'N'], rfl, .inr (by decide)⟩
  | infinite negative =>
    cases negative with
    | false => exact ⟨⟨none, rfl⟩, 'i', ['n', 'f'], rfl, .inr (by decide)⟩
    | true => exact ⟨⟨none, rfl⟩, '-', ['i', 'n', 'f'], rfl, .inr (by decide)⟩
  | finite negative m e =>
    show IsNumber (if m = 0 then (if negative then "-" else "") ++ "0.0"
      else (if negative then "-" else "") ++ dataFormat.layout (select dataFormat.tieUp m e)).toList
    split
    · have hzero : IsNumeral "0.0".toList :=
        ⟨['0'], ['.', '0'], [], isDigits_zero, .inr ⟨['0'], isDigits_zero, rfl⟩,
          isExponent_nil, rfl⟩
      exact isNumber_signed negative hzero
    · exact isNumber_signed negative (isNumeral_layout _)

/-- A number is read as what its text is, whatever ends it. -/
theorem readNumber_of_isNumber {s : String} (h : IsNumber s.toList) {rest : List Char}
    (hrest : Ends rest) :
    readNumber (s.toList ++ rest) = (numberOfText? s).map fun v => (v, rest) := by
  obtain ⟨value, hvalue⟩ := h.whole
  rw [readNumber_append hrest]
  unfold numberOfText?
  rw [hvalue]
  cases value <;> rfl

/-- A whole number of 64 bits is read as itself. -/
theorem numberOfText?_int {n : Int} (hlow : -(Word.signed64 : Int) - 1 ≤ n)
    (hhigh : n ≤ Word.unsigned64) : numberOfText? (toString n) = some (.int n) := by
  have hvalue (k : Nat) : digitsValue (Nat.toDigits 10 k) = k := Nat.ofDigitChars_ten_toDigits
  cases n with
  | ofNat k =>
    have hread : readNumber (Nat.repr k).toList = some (.int k, []) := by
      have hwhole : wholeNumber? false (Nat.toDigits 10 k) = some (.int k) := by
        unfold wholeNumber?
        rw [hvalue]
        have hk : k ≤ Word.unsigned64 := Int.ofNat_le.mp hhigh
        simp [hk]
      rw [Nat.toList_repr, (isNumeral_toDigits k).readNumber_eq, readMagnitude_toDigits, hwhole]
      rfl
    unfold numberOfText?
    show (readNumber (Nat.repr k).toList).bind _ = _
    rw [hread]
    rfl
  | negSucc k =>
    have hwhole : wholeNumber? true (Nat.toDigits 10 (k + 1)) = some (.int (Int.negSucc k)) := by
      unfold wholeNumber?
      rw [hvalue]
      have hk : k + 1 ≤ Word.signed64 + 1 := by omega
      simp [hk]
      omega
    unfold numberOfText?
    show (readNumber ("-" ++ Nat.repr (k + 1)).toList).bind _ = _
    rw [String.toList_append, Nat.toList_repr]
    show (readMagnitude true (Nat.toDigits 10 (k + 1))).bind _ = _
    rw [readMagnitude_toDigits, hwhole]
    rfl

end Parley.Json
