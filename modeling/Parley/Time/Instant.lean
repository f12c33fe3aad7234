/-
  Parley.Time.Instant
  ────────────────────────────────
  **POINTS IN TIME.**

  An instant is a number of nanoseconds since the epoch, 1970-01-01 in
  universal time; durations are whole milliseconds of any size.  A leap second
  is a second inserted at the end of another one: what lies in it comes after
  that second, and before the next.

      second     the second of the calendar
      fraction   the nanoseconds since its beginning; a second and more if leap
      rank       the place of an instant among all instants

  An instant of any size can be told.  Whether it has a date is another matter
  (`isDate`): the calendar goes from the year -262143 to the year 262142.
-/

namespace Parley

/-! ## §1. Instants. -/

/-- A point in time.  `leap` marks a point inside a leap second, whose nanoseconds are those of the
second that follows. -/
structure Instant where
  nanos : Int
  leap : Bool := false
deriving DecidableEq, Repr, Inhabited

namespace Instant

/-- Nanoseconds in a millisecond. -/
def perMilli : Int := 1000000

/-- Nanoseconds in a second. -/
def perSecond : Int := 1000000000

/-- The instant a number of milliseconds after the epoch. -/
def ofMillis (ms : Int) : Instant := ⟨ms * perMilli, false⟩

/-- Whole milliseconds since the epoch, rounded down. -/
def millis (t : Instant) : Int := t.nanos / perMilli

/-- The instant some milliseconds later, or earlier if the number is negative.  Who leaves a leap
second forward leaves it as if it had not been inserted; who leaves it backward counts it. -/
def addMillis (t : Instant) (ms : Int) : Instant :=
  let moved := t.nanos + ms * perMilli
  let within := t.nanos % perSecond + ms * perMilli
  if !t.leap then ⟨moved, false⟩
  else if perSecond ≤ within then ⟨moved - perSecond, false⟩
  else ⟨moved, 0 ≤ within⟩

/-! ## §2. The calendar. -/

/-- The second of the calendar that an instant falls into.  A leap second is counted to the one that
it ends. -/
def second (t : Instant) : Int :=
  t.nanos / perSecond - if t.leap then 1 else 0

/-- The nanoseconds since the beginning of the second. -/
def fraction (t : Instant) : Int :=
  t.nanos % perSecond + if t.leap then perSecond else 0

/-- The first millisecond that has a date: the beginning of the year -262143. -/
def firstMilli : Int := -8334601228800000

/-- The last millisecond that has a date: the end of the year 262142. -/
def lastMilli : Int := 8210266876799999

/-- Whether an instant comes after every date. -/
def isLate (t : Instant) : Bool :=
  lastMilli < t.second * 1000

/-- Whether an instant has a date. -/
def isDate (t : Instant) : Bool :=
  firstMilli ≤ t.second * 1000 && !t.isLate

/-! ## §3. Order. -/

/-- The place of an instant among all instants.  No second is longer than two. -/
def rank (t : Instant) : Int :=
  t.second * (2 * perSecond) + t.fraction

instance : LE Instant := ⟨fun s t => s.rank ≤ t.rank⟩
instance : LT Instant := ⟨fun s t => s.rank < t.rank⟩

instance (s t : Instant) : Decidable (s ≤ t) := inferInstanceAs (Decidable (s.rank ≤ t.rank))
instance (s t : Instant) : Decidable (s < t) := inferInstanceAs (Decidable (s.rank < t.rank))

/-- The later of two instants, the second if they are equal. -/
def later (s t : Instant) : Instant := if t < s then s else t

theorem le_def (s t : Instant) : s ≤ t ↔ s.rank ≤ t.rank := Iff.rfl

theorem lt_def (s t : Instant) : s < t ↔ s.rank < t.rank := Iff.rfl

theorem rank_later (s t : Instant) : (later s t).rank = max s.rank t.rank := by
  unfold later
  split
  · rename_i h
    rw [lt_def] at h
    omega
  · rename_i h
    rw [lt_def] at h
    omega

/-- The later of two instants is in a leap second only if one of them is. -/
theorem leap_later {s t : Instant} (hs : s.leap = false) (ht : t.leap = false) :
    (later s t).leap = false := by
  unfold later
  split
  · exact hs
  · exact ht

theorem fraction_bounds (t : Instant) : 0 ≤ t.fraction ∧ t.fraction < 2 * perSecond := by
  unfold fraction perSecond
  split <;> omega

/-- No two instants have the same place. -/
theorem eq_iff_rank {s t : Instant} : s = t ↔ s.rank = t.rank := by
  refine ⟨congrArg rank, fun h => ?_⟩
  obtain ⟨n, leap⟩ := s
  obtain ⟨k, leap'⟩ := t
  unfold rank second fraction perSecond at h
  cases leap <;> cases leap' <;> simp only [Bool.false_eq_true, if_true, if_false] at h
  · have hnanos : n = k := by omega
    rw [hnanos]
  · omega
  · omega
  · have hnanos : n = k := by omega
    rw [hnanos]

/-- Instants are ordered by their seconds, and within a second by the nanoseconds since its
beginning. -/
theorem lt_iff (s t : Instant) :
    s < t ↔ s.second < t.second ∨ s.second = t.second ∧ s.fraction < t.fraction := by
  have hs := s.fraction_bounds
  have ht := t.fraction_bounds
  rw [lt_def]
  unfold rank
  unfold perSecond at hs ht ⊢
  omega

/-! ## §4. Time without leap seconds. -/

/-- Outside leap seconds instants are ordered by their nanoseconds. -/
theorem le_iff_nanos {s t : Instant} (hs : s.leap = false) (ht : t.leap = false) :
    s ≤ t ↔ s.nanos ≤ t.nanos := by
  rw [le_def]
  unfold rank second fraction perSecond
  rw [hs, ht]
  simp only [Bool.false_eq_true, if_false]
  omega

theorem addMillis_of_not_leap {t : Instant} (ht : t.leap = false) (ms : Int) :
    t.addMillis ms = ⟨t.nanos + ms * perMilli, false⟩ := by
  unfold addMillis
  rw [ht]
  rfl

/-- Where there is no leap second, none is come to. -/
theorem leap_addMillis {t : Instant} (ht : t.leap = false) (ms : Int) :
    (t.addMillis ms).leap = false := by
  rw [addMillis_of_not_leap ht]

/-- The sum of milliseconds outside leap seconds. -/
theorem nanos_addMillis {t : Instant} (ht : t.leap = false) (ms : Int) :
    (t.addMillis ms).nanos = t.nanos + ms * perMilli := by
  rw [addMillis_of_not_leap ht]

/-! ## §5. Dates. -/

/-- What is not later falls into no later second. -/
theorem second_le_of_le {s t : Instant} (h : s ≤ t) : s.second ≤ t.second := by
  have hs := s.fraction_bounds
  have ht := t.fraction_bounds
  rw [le_def] at h
  unfold rank at h
  unfold perSecond at hs ht h
  omega

theorem not_isLate_of_le {s t : Instant} (h : s ≤ t) (ht : t.isLate = false) :
    s.isLate = false := by
  have hsecond := second_le_of_le h
  unfold isLate at ht ⊢
  rw [decide_eq_false_iff_not] at ht ⊢
  omega

/-- A sum of milliseconds is in the second where it is expected, or in the one before. -/
theorem second_addMillis (t : Instant) (ms : Int) :
    t.second * 1000 + ms - 1000 ≤ (t.addMillis ms).second * 1000 := by
  obtain ⟨n, leap⟩ := t
  unfold addMillis second perSecond perMilli
  cases leap with
  | false =>
    simp only [Bool.not_false, if_true, Bool.false_eq_true, if_false]
    omega
  | true =>
    simp only [Bool.not_true, Bool.false_eq_true, if_true, if_false]
    split
    · simp only [Bool.false_eq_true, if_false]
      omega
    · dsimp only
      split <;> omega

/-- A leap second lies between the seconds around it, and is left as if it were not there. -/
example :
    let before : Instant := ⟨1483228799999999999, false⟩
    let inside : Instant := ⟨1483228800500000000, true⟩
    let after : Instant := ⟨1483228800000000000, false⟩
    before < inside ∧ inside < after ∧ inside.addMillis 500 = after
      ∧ inside.addMillis 400 = ⟨1483228800900000000, true⟩
      ∧ inside.addMillis 1000 = ⟨1483228800500000000, false⟩
      ∧ inside.addMillis (-1000) = ⟨1483228799500000000, false⟩ := by decide

end Instant

end Parley
