/-
  Parley.Proofs.Query.Sorted
  ────────────────────────────────
  **SORTED ANSWERS.**

  The values that a field has are all of one kind, and those of one kind are
  compared by a consistent order (`isConsistent_fieldLess`); numbers by the
  place of the nearest binary number (`compare?_eq`).  So a query that sorts by
  a field that is null nowhere is answered in order.

  A null is neither before nor after anything, and the order is consistent no
  more.  In a short row the nulls stay where they are, and only the stretches
  between them are sorted; a longer row may come out in some other way, or not
  at all.  So records that have a value may be in the wrong order
  (`null_keeps_apart`).
-/
import Parley.Proofs.Query.Checks
import Parley.Proofs.Query.Sort.Parts

namespace Parley

open Parley.Query Parley.Decimal

/-! ## §1. Numbers. -/

namespace Decimal.Binary64

/-- The place of a number: below all finite ones, among them, or above them. -/
def place : Binary64 → Int × Int
  | .finite negative m e => (0, units negative m e)
  | .infinite negative => (if negative then -1 else 1, 0)
  | .nan => (0, 0)

/-- The order of places. -/
def placeOrder : Int × Int → Int × Int → Ordering :=
  compareLex (compareOn Prod.fst) (compareOn Prod.snd)

/-- Numbers are compared by their places. -/
theorem compare?_eq {x y : Binary64} (hx : x ≠ nan) (hy : y ≠ nan) :
    x.compare? y = some (placeOrder x.place y.place) := by
  cases x with
  | nan => exact absurd rfl hx
  | infinite s =>
    cases y with
    | nan => exact absurd rfl hy
    | infinite t => cases s <;> cases t <;> rfl
    | finite t n f => cases s <;> rfl
  | finite s m e =>
    cases y with
    | nan => exact absurd rfl hy
    | infinite t => cases t <;> rfl
    | finite t n f => rfl

theorem ofInt_ne_nan (n : Int) : ofInt n ≠ nan := by
  unfold ofInt ofRatio
  dsimp only
  intro hnan
  repeat' split at hnan
  all_goals cases hnan

end Decimal.Binary64

namespace Query

/-! ## §2. The order of a field. -/

/-- Whether a negotiation has a value other than null in a field. -/
def hasValue (path : String) (n : Negotiation) : Bool :=
  match n.field? path with
  | none | some .null => false
  | some _ => true

/-- The values that a declared field has are all texts, all whole numbers, or all truth values. -/
theorem values_alike {path : String} (hpath : path ∈ Negotiation.fieldPaths) :
    (∀ n, hasValue path n = true → ∃ s, n.field? path = some (.text s))
      ∨ (∀ n : Negotiation, ∃ k, n.field? path = some (.int k))
      ∨ (∀ n : Negotiation, ∃ b, n.field? path = some (.bool b)) := by
  have text_of (f : Negotiation → Option String)
      (hf : ∀ n : Negotiation, n.field? path = some (Json.ofOption .text (f n))) :
      ∀ n, hasValue path n = true → ∃ s, n.field? path = some (.text s) := by
    intro n hn
    unfold hasValue at hn
    rw [hf n] at hn ⊢
    cases hvalue : f n with
    | none =>
      rw [hvalue] at hn
      cases hn
    | some s => exact ⟨s, rfl⟩
  unfold Negotiation.fieldPaths at hpath
  simp only [List.mem_cons, List.not_mem_nil, or_false] at hpath
  rcases hpath with rfl | rfl | rfl | rfl | rfl | rfl | rfl | rfl | rfl | rfl | rfl | rfl | rfl
    | rfl | rfl
  -- Numbers and truth values are never null.
  · exact .inl fun n _ => ⟨n.id, rfl⟩
  · exact .inr (.inl fun n => ⟨n.state, rfl⟩)
  · exact .inr (.inl fun n => ⟨n.stateCount, rfl⟩)
  · exact .inr (.inl fun n => ⟨n.stateTimestamp.millis, rfl⟩)
  · exact .inr (.inr fun n => ⟨n.pending, rfl⟩)
  · exact .inl (text_of (·.errorDetail) fun _ => rfl)
  · exact .inr (.inl fun n => ⟨n.createdAt.millis, rfl⟩)
  · exact .inr (.inl fun n => ⟨n.updatedAt.millis, rfl⟩)
  · exact .inl fun n _ => ⟨n.role.tag, rfl⟩
  · exact .inl (text_of (·.correlationId) fun _ => rfl)
  · exact .inl fun n _ => ⟨n.counterPartyId, rfl⟩
  · exact .inl fun n _ => ⟨n.counterPartyAddress, rfl⟩
  · exact .inl fun n _ => ⟨n.protocol, rfl⟩
  · exact .inl (text_of (fun n => n.agreement.map (·.id)) fun _ => rfl)
  · exact .inl (text_of (fun n => n.agreement.map (·.assetId)) fun _ => rfl)

section Field

variable {path : String}

/-- Values of one kind, with a consistent order. -/
theorem isConsistent_of_values (value : κ → Json) (cmp : κ → κ → Ordering) [Std.TransCmp cmp]
    (hvalue : ∀ n, hasValue path n = true → ∃ k, n.field? path = some (value k))
    (hcompare : ∀ j k, compareValues? (value j) (value k) = some (cmp j k)) (order : SortOrder) :
    IsConsistent fun a b : { n // hasValue path n = true } => fieldLess path order a b := by
  let key (n : { n // hasValue path n = true }) : κ := (hvalue n n.2).choose
  have hkey (n : { n // hasValue path n = true }) : n.1.field? path = some (value (key n)) :=
    (hvalue n n.2).choose_spec
  cases order with
  | ascending =>
    have hless : (fun a b : { n // hasValue path n = true } => fieldLess path .ascending a b)
        = fun a b => cmp (key a) (key b) == .lt := by
      funext a b
      simp [fieldLess, hkey, hcompare]
    rw [hless]
    exact (IsConsistent.ascending cmp).comap key
  | descending =>
    have hless : (fun a b : { n // hasValue path n = true } => fieldLess path .descending a b)
        = fun a b => cmp (key a) (key b) == .gt := by
      funext a b
      simp [fieldLess, hkey, hcompare]
    rw [hless]
    exact (IsConsistent.descending cmp).comap key

/-- On the records that have a value in a declared field its order is consistent. -/
theorem isConsistent_fieldLess (hpath : path ∈ Negotiation.fieldPaths) (order : SortOrder) :
    IsConsistent fun a b : { n // hasValue path n = true } => fieldLess path order a b := by
  rcases values_alike hpath with htext | hint | hbool
  · exact isConsistent_of_values .text compare htext (fun _ _ => rfl) order
  · refine isConsistent_of_values .int (compareLex (compareOn fun k => (Binary64.ofInt k).place.1)
      (compareOn fun k => (Binary64.ofInt k).place.2)) (fun n _ => hint n) (fun j k => ?_) order
    exact Binary64.compare?_eq (Binary64.ofInt_ne_nan j) (Binary64.ofInt_ne_nan k)
  · exact isConsistent_of_values .bool compare (fun n _ => hbool n) (fun _ _ => rfl) order

/-- A null is neither before nor after anything. -/
theorem isNeutral_of_null {n : Negotiation} (hn : hasValue path n = false) (order : SortOrder) :
    IsNeutral (fieldLess path order) n := by
  intro a
  unfold hasValue at hn
  unfold fieldLess
  constructor
  · cases a.field? path with
    | none => rfl
    | some x =>
      cases hvalue : n.field? path with
      | none => rfl
      | some y =>
        rw [hvalue] at hn
        cases y <;> cases hn
        cases x <;> rfl
  · cases hvalue : n.field? path with
    | none => rfl
    | some x =>
      rw [hvalue] at hn
      cases x <;> cases hn
      cases a.field? path with
      | none => rfl
      | some y => cases y <;> rfl

end Field

/-! ## §3. Answers. -/

theorem less_of_sortField {spec : QuerySpec} {path : String} (hfield : spec.sortField = some path) :
    spec.less = fieldLess path spec.sortOrder := by
  funext a b
  unfold QuerySpec.less
  rw [hfield]

/-- A short row is sorted by insertion, whatever the order is. -/
theorem mergeSort?_of_short (less : α → α → Bool) {xs : List α} (hshort : xs.length ≤ 20) :
    mergeSort? less xs = some (stableSort less xs) :=
  if_pos hshort

/-- The answer to a query that is accepted and sorts by a field.

It is a window of the records that meet the filter, in some order.  If none of them is null in the
field, they are in order: none comes before one that stands further to the front.  If there are not
more than twenty, there is an answer anyway, and in it each stretch between two nulls is in order. -/
theorem sorted_between_nulls (ns : List Negotiation) (spec : QuerySpec) (path : String)
    (hspec : checkSpec spec = .ok ()) (hfield : spec.sortField = some path) :
    let found := ns.filter (meetsAll spec.filter)
    let less := fieldLess path spec.sortOrder
    (∃ outcome, resolve ns spec = .ok outcome
        ∧ ∀ answer, outcome = some answer → ∃ row, row.Perm found ∧ answer = spec.window row)
      ∧ ((∀ n ∈ found, hasValue path n = true) →
        ∃ row, resolve ns spec = .ok (some (spec.window row)) ∧ row.Perm found ∧ InOrder less row)
      ∧ (found.length ≤ 20 →
        ∃ row, resolve ns spec = .ok (some (spec.window row))
          ∧ SortsStretches (hasValue path) less found row) := by
  intro found less
  have hanswer := resolve_of_checkSpec hspec ns
  have hpath := (checkSpec_eq_ok_iff.mp hspec).2 path hfield
  have hconsistent := isConsistent_fieldLess hpath spec.sortOrder
  rw [less_of_sortField hfield] at hanswer
  refine ⟨⟨_, hanswer, ?_⟩, ?_, ?_⟩
  · intro answer hsome
    obtain ⟨row, hrow, rfl⟩ := Option.map_eq_some_iff.mp hsome
    exact ⟨row, mergeSort?_perm hrow, rfl⟩
  · intro hvalues
    refine ⟨stableSort less found, ?_, stableSort_perm _ _, ?_⟩
    · rw [hanswer, mergeSort?_of_forall hconsistent hvalues]
      rfl
    · exact inOrder_stableSort_of_forall hconsistent hvalues
  · intro hshort
    refine ⟨stableSort less found, ?_, ?_⟩
    · rw [hanswer, mergeSort?_of_short _ hshort]
      rfl
    · exact sortsStretches_stableSort hconsistent
        (fun n hn => isNeutral_of_null hn spec.sortOrder) found

/-- A record with an error detail, or with none. -/
def withDetail (id : String) (detail : Option String) : Negotiation :=
  { Negotiation.new id .consumer "provider" "http://provider" "dsp" default with
    errorDetail := detail }

/-- The query for all records, by their error details. -/
def byDetail : QuerySpec where
  sortField := some "error_detail"

/-- A null keeps two records apart that are in the wrong order. -/
theorem null_keeps_apart :
    let late := withDetail "n-1" (some "late")
    let none := withDetail "n-2" none
    let early := withDetail "n-3" (some "early")
    ∃ row, resolve [late, none, early] byDetail = .ok (some (byDetail.window row))
      ∧ SortsStretches (hasValue "error_detail") (fieldLess "error_detail" .ascending)
        [late, none, early] row
      ∧ byDetail.window row = [late, none, early]
      ∧ fieldLess "error_detail" .ascending early late = true := by
  intro late none early
  obtain ⟨_, _, hshort⟩ :=
    sorted_between_nulls [late, none, early] byDetail "error_detail" rfl rfl
  obtain ⟨row, hrow, hstretches⟩ := hshort (by decide)
  have hanswer : resolve [late, none, early] byDetail = .ok (some [late, none, early]) := by rfl
  refine ⟨row, hrow, hstretches, ?_, by decide⟩
  rw [hrow] at hanswer
  exact Option.some.inj (Except.ok.inj hanswer)

/-- One null among twenty-one records is enough for there to be no answer. -/
example :
    let details := (List.range 21).map fun k =>
      if k = 5 then none else some (String.singleton (Char.ofNat (122 - k)))
    (resolve (details.map (withDetail "n-1")) byDetail).toOption = some none := by
  decide +kernel

end Query

end Parley
