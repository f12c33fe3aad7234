/-
  Parley.Proofs.Time.Timestamp
  ────────────────────────────────
  **WHAT IS WRITTEN READS BACK.**

  An instant that has a date is written part by part, and each part is read up
  to the mark that follows it: numbers of a width (`readNumber_padded`), the
  year, the fraction.  The parts are those of the instant, so it is put together
  again (`read?_write`).  Reading is more liberal than writing, but it gives
  nothing that could not be written (`isDated_of_read?`).
-/
import Parley.Time.Timestamp
import Parley.Proofs.Time.Calendar
import Parley.Proofs.World.Ids
import Mathlib.Data.List.TakeWhile

namespace Parley

open Parley.Calendar

/-! ## §1. Digits. -/

namespace Text

theorem isBlank_of_isDigit {c : Char} (h : c.isDigit = true) : isBlank c = false := by
  have hrange : 48 ≤ c.toNat ∧ c.toNat ≤ 57 := Char.isDigit_iff_toNat.mp h
  simp only [isBlank, blankRanges, List.any_cons, List.any_nil, Bool.or_false, Bool.or_eq_false_iff,
    Bool.and_eq_false_iff, decide_eq_false_iff_not]
  omega

theorem dropBlanks_cons {c : Char} (h : isBlank c = false) (cs : List Char) :
    dropBlanks (c :: cs) = c :: cs :=
  List.dropWhile_cons_of_neg (by rw [h]; exact Bool.false_ne_true)

/-- Digits are no blanks. -/
theorem dropBlanks_of_digits {ds : List Char} (hds : ∀ c ∈ ds, c.isDigit = true) (hne : ds ≠ [])
    (cs : List Char) : dropBlanks (ds ++ cs) = ds ++ cs := by
  cases ds with
  | nil => exact absurd rfl hne
  | cons d ds => exact dropBlanks_cons (isBlank_of_isDigit (hds d List.mem_cons_self)) _

theorem isDigit_of_mem_padded {width n : Nat} {c : Char} (h : c ∈ padded width n) :
    c.isDigit = true := by
  rcases List.mem_append.mp h with hzero | hdigit
  · rw [List.eq_of_mem_replicate hzero]
    rfl
  · exact Nat.isDigit_of_mem_toDigits (by decide) (by decide) hdigit

/-- A number that is not too great is padded to the width. -/
theorem length_padded {width n : Nat} (hwidth : 0 < width) (hn : n < 10 ^ width) :
    (padded width n).length = width := by
  have hle : (Nat.toDigits 10 n).length ≤ width :=
    (Nat.length_toDigits_le_iff (by decide) hwidth).mpr hn
  unfold padded
  rw [List.length_append, List.length_replicate]
  omega

theorem padded_ne_nil (width n : Nat) : padded width n ≠ [] := by
  intro hnil
  have hdigits := (List.append_eq_nil_iff.mp hnil).2
  exact Nat.toDigits_ne_nil hdigits

theorem digitsValue_padded (width n : Nat) : digitsValue (padded width n) = n :=
  ofDigitChars_padded width n

/-- Digits are read up to the first character that is none. -/
theorem takeWhile_digits {ds : List Char} (hds : ∀ c ∈ ds, c.isDigit = true) {c : Char}
    (hc : c.isDigit = false) (cs : List Char) : (ds ++ c :: cs).takeWhile Char.isDigit = ds := by
  rw [List.takeWhile_append_of_pos hds, List.takeWhile_cons_of_neg (by rw [hc]; exact Bool.false_ne_true),
    List.append_nil]

/-- So many digits write a number of so many places. -/
theorem digitsValue_lt {ds : List Char} (hds : ∀ c ∈ ds, c.isDigit = true) :
    digitsValue ds < 10 ^ ds.length := by
  show Nat.ofDigitChars 10 ds 0 < _
  induction ds with
  | nil => exact Nat.one_pos
  | cons d ds ih =>
    have hd : 48 ≤ d.toNat ∧ d.toNat ≤ 57 := Char.isDigit_iff_toNat.mp (hds d List.mem_cons_self)
    have hfirst : 10 * 0 + (d.toNat - '0'.toNat) ≤ 9 := by
      show 10 * 0 + (d.toNat - 48) ≤ 9
      omega
    have hrest := ih fun c hc => hds c (List.mem_cons_of_mem d hc)
    rw [Nat.ofDigitChars_cons, Nat.ofDigitChars_eq_ofDigitChars_zero, List.length_cons, Nat.pow_succ]
    calc 10 ^ ds.length * (10 * 0 + (d.toNat - '0'.toNat)) + Nat.ofDigitChars 10 ds 0
        ≤ 10 ^ ds.length * 9 + Nat.ofDigitChars 10 ds 0 :=
          Nat.add_le_add_right (Nat.mul_le_mul_left _ hfirst) _
      _ < 10 ^ ds.length * 10 := by omega

end Text

namespace Timestamp

open Parley.Text

/-! ## §2. The parts of a written time. -/

theorem readNumber_padded {width n : Nat} (hwidth : 0 < width) (hn : n < 10 ^ width)
    (cs : List Char) : readNumber width (padded width n ++ cs) = some (n, cs) := by
  have htake : (padded width n ++ cs).take width = padded width n :=
    List.take_left' (length_padded hwidth hn)
  have hdigits : (padded width n).takeWhile Char.isDigit = padded width n :=
    List.takeWhile_eq_self_iff.mpr fun c hc => isDigit_of_mem_padded hc
  unfold readNumber
  rw [dropBlanks_of_digits (fun c hc => isDigit_of_mem_padded hc) (padded_ne_nil width n)]
  simp only [htake, hdigits, if_neg (padded_ne_nil width n), digitsValue_padded, List.drop_left]

/-- A year that begins with a digit has four of them. -/
theorem readYear_of_digits {ds : List Char} (hds : ∀ c ∈ ds, c.isDigit = true) (hne : ds ≠ [])
    (cs : List Char) :
    readYear (ds ++ cs) = (readNumber 4 (ds ++ cs)).map fun p => (Int.ofNat p.1, p.2) := by
  unfold readYear
  rw [dropBlanks_of_digits hds hne]
  cases ds with
  | nil => exact absurd rfl hne
  | cons d ds =>
    have hsign : ¬ (d = '-' ∨ d = '+') := by
      rintro (rfl | rfl)
      · exact absurd (hds '-' List.mem_cons_self) (by decide)
      · exact absurd (hds '+' List.mem_cons_self) (by decide)
    show (if d = '-' ∨ d = '+' then _ else _) = _
    rw [if_neg hsign]
    rfl

/-- A year that begins with a sign ends before the first character that is no digit. -/
theorem readYear_of_sign {sign : Char} (hsign : sign = '-' ∨ sign = '+') {ds : List Char}
    (hds : ∀ c ∈ ds, c.isDigit = true) (hne : ds ≠ []) {mark : Char} (hmark : mark.isDigit = false)
    (cs : List Char) :
    readYear (sign :: (ds ++ mark :: cs))
      = some (if sign = '-' then -(digitsValue ds : Int) else digitsValue ds, mark :: cs) := by
  have hblank : isBlank sign = false := by
    rcases hsign with rfl | rfl <;> decide
  unfold readYear
  rw [dropBlanks_cons hblank]
  simp only [if_pos hsign, takeWhile_digits hds hmark, if_neg hne, List.drop_left]

theorem readYear_writeYear (y : Int) (cs : List Char) :
    readYear (writeYear y ++ '-' :: cs) = some (y, '-' :: cs) := by
  unfold writeYear
  split
  · rename_i hy
    have hwidth : y.toNat < 10 ^ 4 := by omega
    rw [readYear_of_digits (fun c hc => isDigit_of_mem_padded hc) (padded_ne_nil 4 _),
      readNumber_padded (by decide) hwidth]
    show some ((y.toNat : Int), '-' :: cs) = _
    rw [Int.toNat_of_nonneg hy.1]
  · rename_i hy
    have hsign : (if y < 0 then '-' else '+') = '-' ∨ (if y < 0 then '-' else '+') = '+' := by
      split
      · exact .inl rfl
      · exact .inr rfl
    rw [List.cons_append, readYear_of_sign hsign (fun c hc => isDigit_of_mem_padded hc)
      (padded_ne_nil 4 _) (by decide), digitsValue_padded]
    by_cases hneg : y < 0
    · have habs : -(y.natAbs : Int) = y := by omega
      simp only [if_pos hneg, if_pos, habs]
    · have habs : (y.natAbs : Int) = y := by omega
      simp only [if_neg hneg, if_neg (show '+' ≠ '-' by decide), habs]

theorem readFraction_padded {places n : Nat} (hplaces : 0 < places ∧ places ≤ 9)
    (hn : n < 10 ^ places) {mark : Char} (hmark : mark.isDigit = false) (cs : List Char) :
    readFraction ('.' :: (padded places n ++ mark :: cs))
      = some (n * 10 ^ (9 - places), mark :: cs) := by
  have hlength := length_padded hplaces.1 hn
  have hkept : (padded places n).take 9 = padded places n :=
    List.take_of_length_le (by omega)
  unfold readFraction
  simp only [takeWhile_digits (fun c hc => isDigit_of_mem_padded hc) hmark,
    if_neg (padded_ne_nil places n), hkept, digitsValue_padded, hlength, List.drop_left' hlength]
  rfl

/-- A fraction is written with as many digits as are needed, and reads back. -/
theorem readFraction_writeFraction {nanos : Nat} (h : nanos < 1000000000) (cs : List Char) :
    readFraction (writeFraction nanos ++ 'Z' :: cs) = some (nanos, 'Z' :: cs) := by
  unfold writeFraction
  split
  · rename_i hzero
    rw [hzero]
    rfl
  split
  · rename_i hmillis
    rw [List.cons_append, readFraction_padded (by decide) (by omega) (by decide)]
    congr 2
    omega
  split
  · rename_i hmicros
    rw [List.cons_append, readFraction_padded (by decide) (by omega) (by decide)]
    congr 2
    omega
  · rw [List.cons_append, readFraction_padded (by decide) (by omega) (by decide)]
    congr 2
    omega

theorem skipMark_cons {mark : Char} (h : isBlank mark = false) (cs : List Char) :
    skipMark mark (mark :: cs) = some cs := by
  unfold skipMark
  rw [dropBlanks_cons h]
  exact if_pos rfl

/-! ## §3. Instants with a date. -/

end Timestamp

namespace Instant

open Parley.Timestamp

/-- The second of the calendar that an instant falls into.  A leap second is counted to the one that
it follows. -/
def calendarSecond (t : Instant) : Int :=
  t.nanos / perSecond - if t.leap then 1 else 0

/-- An instant has a date: its year is one of those that have dates, all of four digits among them,
and it is marked as a leap second only where a minute ends.  The nanosecond may be any. -/
structure IsDated (t : Instant) : Prop where
  year : leastYear ≤ (Date.ofDays (t.calendarSecond / 86400)).year
    ∧ (Date.ofDays (t.calendarSecond / 86400)).year ≤ greatestYear
  leap : t.leap = true → t.nanos / perSecond % 60 = 0

end Instant

namespace Timestamp

open Parley.Text

variable {t : Instant}

theorem nanos_eq (t : Instant) : t.nanos
    = t.nanos / Instant.perSecond * Instant.perSecond + (t.nanos % Instant.perSecond).toNat := by
  unfold Instant.perSecond
  omega

/-- The second of a day, from its hour, minute and second. -/
theorem ofDay_parts (s : Nat) : s / 3600 * 3600 + s / 60 % 60 * 60 + s % 60 = s := by
  omega

/-- The parts of an instant make it up again. -/
theorem assemble_parts (h : t.IsDated) {ofDay : Nat}
    (hofDay : (ofDay : Int) = t.calendarSecond % 86400) :
    assemble (Date.ofDays (t.calendarSecond / 86400)) (ofDay / 3600) (ofDay / 60 % 60)
        (ofDay % 60 + if t.leap then 1 else 0) (t.nanos % Instant.perSecond).toNat 0 = some t := by
  have hday : ofDay < 86400 := by omega
  -- The sixtieth second is that of a leap second.
  have hsixty : (ofDay % 60 + if t.leap then 1 else 0) = 60 ↔ t.leap = true := by
    have hleap := h.leap
    unfold Instant.calendarSecond at hofDay
    split
    · rename_i hyes
      rw [if_pos hyes] at hofDay
      have hminute := hleap hyes
      exact ⟨fun _ => hyes, fun _ => by omega⟩
    · rename_i hno
      exact ⟨fun hsixty => by omega, fun hyes => absurd hyes hno⟩
  have hsecond : (ofDay % 60 + if t.leap then 1 else 0) ≤ 60 := by
    split <;> omega
  have hparts := ofDay_parts ofDay
  have hseconds : t.calendarSecond / 86400 * 86400
      + ((ofDay / 3600 : Nat) * 3600 + (ofDay / 60 % 60 : Nat) * 60
        + (ofDay % 60 + if t.leap then 1 else 0 : Nat)) - 0 = t.nanos / Instant.perSecond := by
    unfold Instant.calendarSecond at hofDay ⊢
    split <;> rename_i hleap <;> simp only [hleap, if_true, if_false, Bool.false_eq_true] at hofDay ⊢ <;>
      omega
  have hnanos := nanos_eq t
  have hback : (t.nanos / Instant.perSecond * Instant.perSecond
      + (t.nanos % Instant.perSecond).toNat) / Instant.perSecond = t.nanos / Instant.perSecond := by
    rw [← hnanos]
  have hcalendar : t.nanos / Instant.perSecond
      - (if (ofDay % 60 + if t.leap then 1 else 0) = 60 then 1 else 0) = t.calendarSecond := by
    unfold Instant.calendarSecond
    simp only [hsixty]
  unfold assemble
  rw [if_pos ⟨valid_ofDays _, h.year.1, h.year.2, by omega, by omega, hsecond, by decide⟩]
  simp only [toDays_ofDays]
  have hflag : decide ((ofDay % 60 + if t.leap then 1 else 0) = 60) = t.leap := by
    rw [Bool.eq_iff_iff, decide_eq_true_iff]
    exact hsixty
  rw [hseconds, hback, hcalendar, if_pos h.year, ← hnanos, hflag]

/-- The time of a day, at an offset, and nothing after it. -/
def readClock (date : Date) (cs : List Char) : Option Instant :=
  (readNumber 2 cs).bind fun hour =>
  (skipMark ':' hour.2).bind fun cs =>
  (readNumber 2 cs).bind fun minute =>
  (skipMark ':' minute.2).bind fun cs =>
  (readNumber 2 cs).bind fun second =>
  (readFraction second.2).bind fun nanos =>
  (readOffset nanos.2).bind fun offset =>
  if dropBlanks offset.2 = [] then
    assemble date hour.1 minute.1 second.1 nanos.1 offset.1
  else none

/-- A time is a date and the time of a day. -/
theorem read?_eq (cs : List Char) : read? cs =
    (readYear cs).bind fun year =>
    (skipMark '-' year.2).bind fun cs =>
    (readNumber 2 cs).bind fun month =>
    (skipMark '-' month.2).bind fun cs =>
    (readNumber 2 cs).bind fun day =>
    match day.2 with
    | c :: r =>
      if c = 'T' ∨ c = 't' ∨ c = ' ' then readClock ⟨year.1, month.1, day.1⟩ r else none
    | [] => none := by
  unfold read?
  refine congrArg (readYear cs).bind (funext fun year => ?_)
  refine congrArg (skipMark '-' year.2).bind (funext fun cs => ?_)
  refine congrArg (readNumber 2 cs).bind (funext fun month => ?_)
  refine congrArg (skipMark '-' month.2).bind (funext fun cs => ?_)
  refine congrArg (readNumber 2 cs).bind (funext fun day => ?_)
  obtain ⟨day, rest⟩ := day
  cases rest with
  | nil => rfl
  | cons c r =>
    by_cases hmark : c = 'T' ∨ c = 't' ∨ c = ' '
    · simp only [if_pos hmark]
      rfl
    · simp only [if_neg hmark]
      rfl

theorem readClock_parts {hour minute second nanos : Nat} (hhour : hour < 100)
    (hminute : minute < 100) (hsecond : second < 100) (hnanos : nanos < 1000000000) (date : Date) :
    readClock date (padded 2 hour ++ ':' :: (padded 2 minute ++ ':' :: (padded 2 second ++
        (writeFraction nanos ++ ['Z'])))) = assemble date hour minute second nanos 0 := by
  have hcolon := skipMark_cons (show isBlank ':' = false by decide)
  unfold readClock
  simp only [readNumber_padded Nat.two_pos hhour, readNumber_padded Nat.two_pos hminute,
    readNumber_padded Nat.two_pos hsecond, readFraction_writeFraction hnanos, hcolon,
    Option.bind_some]
  rfl

/-- The parts of a time, one after the other. -/
theorem read?_parts {date : Date} (hdate : date.valid = true) {hour minute second nanos : Nat}
    (hhour : hour < 100) (hminute : minute < 100) (hsecond : second < 100)
    (hnanos : nanos < 1000000000) :
    read? (writeYear date.year ++ '-' :: padded 2 date.month ++ '-' :: padded 2 date.day ++
        'T' :: padded 2 hour ++ ':' :: padded 2 minute ++ ':' :: padded 2 second ++
        writeFraction nanos ++ ['Z'])
      = assemble date hour minute second nanos 0 := by
  have hmonth : date.month < 100 := by
    simp only [Date.valid, Bool.and_eq_true, decide_eq_true_eq] at hdate
    omega
  have hday : date.day < 100 := by
    have hlength : monthLength date.year date.month ≤ 31 := by
      unfold monthLength
      split <;> first
        | split <;> decide
        | decide
    simp only [Date.valid, Bool.and_eq_true, decide_eq_true_eq] at hdate
    omega
  have hdash := skipMark_cons (show isBlank '-' = false by decide)
  simp only [List.append_assoc, List.cons_append]
  rw [read?_eq, readYear_writeYear]
  simp only [readNumber_padded Nat.two_pos hmonth, readNumber_padded Nat.two_pos hday, hdash,
    Option.bind_some, true_or, if_true]
  exact readClock_parts hhour hminute hsecond hnanos date

/-- What is written of an instant with a date reads back as the instant. -/
theorem read?_write (h : t.IsDated) : read? (write t) = some t := by
  have hsecond : (if t.leap then t.nanos - Instant.perSecond else t.nanos) / Instant.perSecond
      = t.calendarSecond := by
    unfold Instant.calendarSecond Instant.perSecond
    split <;> omega
  have hfraction : (if t.leap then t.nanos - Instant.perSecond else t.nanos) % Instant.perSecond
      = t.nanos % Instant.perSecond := by
    unfold Instant.perSecond
    split <;> omega
  have hnanos : (t.nanos % Instant.perSecond).toNat < 1000000000 := by
    unfold Instant.perSecond
    omega
  have hofDay : ((t.calendarSecond % 86400).toNat : Int) = t.calendarSecond % 86400 := by omega
  unfold write
  simp only [hsecond, hfraction]
  rw [read?_parts (valid_ofDays _) (by omega) (by omega) (by split <;> omega) hnanos]
  exact assemble_parts h hofDay

/-! ## §4. What is read. -/

theorem readFraction_lt {cs : List Char} {p : Nat × List Char} (h : readFraction cs = some p) :
    p.1 < 1000000000 := by
  unfold readFraction at h
  split at h
  · rename_i rest
    simp only at h
    split at h
    · cases h
    · cases h
      have hdigits : ∀ c ∈ (rest.takeWhile Char.isDigit).take 9, c.isDigit = true := fun c hc =>
        List.mem_takeWhile_imp (List.mem_of_mem_take hc)
      have hlt := digitsValue_lt hdigits
      have hplaces : ((rest.takeWhile Char.isDigit).take 9).length ≤ 9 :=
        List.length_take_le 9 _
      generalize (rest.takeWhile Char.isDigit).take 9 = kept at hlt hplaces
      calc digitsValue kept * Nat.pow 10 (9 - kept.length)
          < 10 ^ kept.length * 10 ^ (9 - kept.length) :=
            Nat.mul_lt_mul_of_pos_right hlt (Nat.pow_pos (by decide))
        _ = 10 ^ 9 := by rw [← Nat.pow_add, Nat.add_sub_cancel' hplaces]
  · cases h
    show 0 < 1000000000
    decide

/-- An offset is one of whole minutes. -/
theorem readOffset_minutes {cs : List Char} {p : Int × List Char} (h : readOffset cs = some p) :
    p.1 % 60 = 0 := by
  unfold readOffset at h
  split at h
  · cases h
  · rename_i c r _
    split at h
    · cases h
      rfl
    split at h
    · cases h
      rfl
    split at h
    · split at h
      · split at h
        · cases h
          simp only
          split <;> omega
        · cases h
      · cases h
    · cases h

/-- What is put together has a date. -/
theorem isDated_of_assemble {date : Date} {hour minute second nanos : Nat} {offset : Int}
    (hnanos : nanos < 1000000000) (hoffset : offset % 60 = 0)
    (h : assemble date hour minute second nanos offset = some t) : t.IsDated := by
  have hseconds (n : Int) : (n * Instant.perSecond + nanos) / Instant.perSecond = n := by
    unfold Instant.perSecond
    omega
  unfold assemble at h
  obtain ⟨_, h⟩ := Option.ite_none_right_eq_some.mp h
  obtain ⟨hyear, h⟩ := Option.ite_none_right_eq_some.mp h
  rw [hseconds] at hyear
  cases h
  refine ⟨?_, fun hleap => ?_⟩
  · unfold Instant.calendarSecond
    simp only [hseconds, decide_eq_true_eq]
    exact hyear
  · have hsixty : second = 60 := of_decide_eq_true hleap
    simp only [hseconds]
    omega

/-- Every instant that is read has a date. -/
theorem isDated_of_read? {cs : List Char} (h : read? cs = some t) : t.IsDated := by
  rw [read?_eq] at h
  obtain ⟨year, _, h⟩ := Option.bind_eq_some_iff.mp h
  obtain ⟨_, _, h⟩ := Option.bind_eq_some_iff.mp h
  obtain ⟨month, _, h⟩ := Option.bind_eq_some_iff.mp h
  obtain ⟨_, _, h⟩ := Option.bind_eq_some_iff.mp h
  obtain ⟨day, _, h⟩ := Option.bind_eq_some_iff.mp h
  split at h
  · split at h
    · unfold readClock at h
      obtain ⟨hour, _, h⟩ := Option.bind_eq_some_iff.mp h
      obtain ⟨_, _, h⟩ := Option.bind_eq_some_iff.mp h
      obtain ⟨minute, _, h⟩ := Option.bind_eq_some_iff.mp h
      obtain ⟨_, _, h⟩ := Option.bind_eq_some_iff.mp h
      obtain ⟨second, _, h⟩ := Option.bind_eq_some_iff.mp h
      obtain ⟨nanos, hnanos, h⟩ := Option.bind_eq_some_iff.mp h
      obtain ⟨offset, hoffset, h⟩ := Option.bind_eq_some_iff.mp h
      split at h
      · exact isDated_of_assemble (readFraction_lt hnanos) (readOffset_minutes hoffset) h
      · cases h
    · cases h
  · cases h

/-- The text of an instant with a date is read as the instant. -/
theorem parse?_render (h : t.IsDated) : parse? (render t) = some t := by
  unfold parse? render
  rw [String.toList_ofList]
  exact read?_write h

end Timestamp

end Parley
