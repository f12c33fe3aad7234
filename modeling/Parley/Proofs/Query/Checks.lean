/-
  Parley.Proofs.Query.Checks
  ────────────────────────────────
  **CRITERIA ARE CHECKED ALIKE.**

  Whether a criterion is in order is asked in three places: when it is read from
  an operator's symbol, before a list of criteria is used, and when it is
  evaluated on a record.  All three ask the same (`Criterion.check`): is the
  field one that negotiations have, and has the operand the shape that the
  operator needs.

  The check up front goes on to the end of the list, and the evaluation stops at
  the first criterion that a record does not meet.  So the evaluation may miss a
  fault; but the first fault that it comes to is the first that there is, for
  every criterion before it was evaluated (`matchesAll_eq_error`).  Once a list
  has passed, nothing fails in the middle of a scan (`filterAll_matchesAll`).
-/
import Parley.Proofs.Ledger.Batch

namespace Parley

open Parley.Query

/-! ## §1. Fields. -/

/-- A negotiation has a value, if only null, under exactly the declared paths. -/
theorem Negotiation.isSome_field?_iff (n : Negotiation) (path : String) :
    (n.field? path).isSome = true ↔ path ∈ Negotiation.fieldPaths := by
  unfold Negotiation.field? Negotiation.fieldPaths
  split
  case h_8 =>
    -- The other paths are those of the book keeping.
    unfold Lifecycle.field?
    split <;> simp_all
  all_goals simp

namespace Query

/-! ## §2. One criterion. -/

/-- Whether a criterion is in order: the refusal if it is not. -/
def Criterion.check (c : Criterion) : Except QueryError Unit :=
  if c.path ∈ Negotiation.fieldPaths then c.checkOperand else .error (.unknownField c.path)

/-- The operand has the shape that the operator needs. -/
def Criterion.HasShape : Operator → Json → Prop
  | .oneOf, operand => ∃ items, operand = .array items
  | .like, operand => ∃ pattern, operand = .text pattern
  | _, _ => True

theorem Criterion.checkOperand_eq_ok_iff {c : Criterion} :
    c.checkOperand = .ok () ↔ HasShape c.operator c.operand := by
  unfold checkOperand HasShape
  cases c.operator <;> cases c.operand <;> simp

/-- The operator of a text is the one whose symbol it is, without blanks and in small letters. -/
theorem Operator.parse_eq_ok_iff {text : String} {operator : Operator} :
    Operator.parse text = .ok operator ↔ (Text.trim text).toLower = operator.symbol := by
  unfold Operator.parse
  dsimp only
  generalize (Text.trim text).toLower = word
  constructor
  · intro h
    repeat' split at h
    all_goals cases h
    all_goals assumption
  · intro h
    subst h
    cases operator <;> rfl

/-- A criterion is read if its operator is one and its operand passes the check; the faults are the
same. -/
theorem Criterion.parse_eq (path text : String) (operand : Json) :
    Criterion.parse path text operand = match Operator.parse text with
      | .error e => .error e
      | .ok operator =>
        (Criterion.mk path operator operand).checkOperand.map fun _ =>
          ⟨path, operator, operand⟩ := by
  unfold Criterion.parse
  cases Operator.parse text with
  | error e => rfl
  | ok operator => cases operator <;> cases operand <;> rfl

/-- A criterion is evaluated on a record if it is in order; the faults are the same. -/
theorem map_evaluate (n : Negotiation) (c : Criterion) :
    (evaluate n c).map (fun _ => ()) = c.check := by
  have hfield := n.isSome_field?_iff c.path
  unfold evaluate Criterion.check
  cases hvalue : n.field? c.path with
  | none =>
    rw [hvalue] at hfield
    rw [if_neg fun hin => by cases hfield.mpr hin]
    rfl
  | some value =>
    rw [hvalue] at hfield
    rw [if_pos (hfield.mp rfl)]
    unfold Criterion.checkOperand
    cases c.operator <;> cases c.operand <;> cases value <;> rfl

theorem evaluate_eq_error_iff {n : Negotiation} {c : Criterion} {e : QueryError} :
    evaluate n c = .error e ↔ c.check = .error e := by
  rw [← map_evaluate n c]
  cases evaluate n c <;> simp [Except.map]

theorem check_of_evaluate {n : Negotiation} {c : Criterion} {holds : Bool}
    (h : evaluate n c = .ok holds) : c.check = .ok () := by
  rw [← map_evaluate n c, h]
  rfl

/-! ## §3. Lists of criteria. -/

theorem validate_cons (c : Criterion) (cs : List Criterion) :
    validate (c :: cs) = match c.check with
      | .error e => .error e
      | .ok () => validate cs := by
  show (if c.path ∈ Negotiation.fieldPaths then _ else _) = _
  unfold Criterion.check
  by_cases hpath : c.path ∈ Negotiation.fieldPaths
  · cases c.checkOperand <;> simp [hpath]
  · simp [hpath]

/-- A list of criteria passes if every one of them is in order. -/
theorem validate_eq_ok_iff {cs : List Criterion} :
    validate cs = .ok () ↔ ∀ c ∈ cs, c.check = .ok () := by
  induction cs with
  | nil => simp [validate]
  | cons c cs ih =>
    rw [validate_cons, List.forall_mem_cons, ← ih]
    cases c.check with
    | error e => simp
    | ok _ => simp

/-- A fault that the evaluation comes to is the first that there is. -/
theorem validate_of_matchesAll {n : Negotiation} {cs : List Criterion} {e : QueryError}
    (h : matchesAll n cs = .error e) : validate cs = .error e := by
  -- Over the criteria: one that is met is in order, and the evaluation goes on.
  induction cs with
  | nil => cases h
  | cons c cs ih =>
    rw [validate_cons]
    unfold matchesAll at h
    cases hc : evaluate n c with
    | error fault =>
      rw [hc] at h
      cases h
      rw [evaluate_eq_error_iff.mp hc]
    | ok holds =>
      rw [hc] at h
      cases holds with
      | false => cases h
      | true =>
        rw [check_of_evaluate hc]
        exact ih h

/-- Whether a record meets every one of some criteria. -/
def meetsAll (cs : List Criterion) (n : Negotiation) : Bool :=
  cs.all fun c => match evaluate n c with
    | .ok holds => holds
    | .error _ => false

theorem meetsAll_iff {cs : List Criterion} {n : Negotiation} :
    meetsAll cs n = true ↔ ∀ c ∈ cs, evaluate n c = .ok true := by
  unfold meetsAll
  rw [List.all_eq_true]
  refine forall₂_congr fun c _ => ?_
  cases evaluate n c <;> simp

/-- A list that has passed is evaluated on every record. -/
theorem matchesAll_of_validate {cs : List Criterion} (h : validate cs = .ok ()) (n : Negotiation) :
    matchesAll n cs = .ok (meetsAll cs n) := by
  induction cs with
  | nil => rfl
  | cons c cs ih =>
    have hcs := validate_eq_ok_iff.mp h
    have hrest := ih (validate_eq_ok_iff.mpr fun d hd => hcs d (List.mem_cons_of_mem c hd))
    unfold matchesAll meetsAll
    rw [List.all_cons]
    cases hc : evaluate n c with
    | error fault =>
      have hok := hcs c List.mem_cons_self
      rw [evaluate_eq_error_iff.mp hc] at hok
      cases hok
    | ok holds =>
      cases holds with
      | false => rfl
      | true => exact hrest

/-- A scan with a list that has passed finds the records that meet it. -/
theorem filterAll_matchesAll {cs : List Criterion} (h : validate cs = .ok ())
    (ns : List Negotiation) :
    filterAll (fun n => matchesAll n cs) ns = .ok (ns.filter (meetsAll cs)) :=
  filterAll_of_total _ fun n _ => matchesAll_of_validate h n

/-! ## §4. Scans. -/

/-- A query is accepted if its filter passes and its sort field is a declared one. -/
theorem checkSpec_eq_ok_iff {spec : QuerySpec} :
    checkSpec spec = .ok () ↔ validate spec.filter = .ok ()
      ∧ ∀ path, spec.sortField = some path → path ∈ Negotiation.fieldPaths := by
  unfold checkSpec
  cases validate spec.filter with
  | error fault => simp
  | ok _ =>
    cases spec.sortField with
    | none => simp
    | some path => by_cases hpath : path ∈ Negotiation.fieldPaths <;> simp [hpath]

/-- A query that is accepted is answered from the records that meet its filter, if the sort does not
break down. -/
theorem resolve_of_checkSpec {spec : QuerySpec} (hspec : checkSpec spec = .ok ())
    (ns : List Negotiation) :
    resolve ns spec
      = .ok ((mergeSort? spec.less (ns.filter (meetsAll spec.filter))).map spec.window) := by
  unfold resolve
  rw [hspec, filterAll_matchesAll (checkSpec_eq_ok_iff.mp hspec).1]

/-- A query fails only before its scan. -/
theorem resolve_eq_error_iff {ns : List Negotiation} {spec : QuerySpec} {e : QueryError} :
    resolve ns spec = .error e ↔ checkSpec spec = .error e := by
  cases hspec : checkSpec spec with
  | error fault =>
    unfold resolve
    rw [hspec]
    simp only [Except.error.injEq]
  | ok _ =>
    rw [resolve_of_checkSpec hspec]
    simp only [reduceCtorEq]

end Query

/-- The free records that meet a list that has passed. -/
theorem Ledger.candidates_of_validate {cs : List Criterion} (h : validate cs = .ok ()) (l : Ledger)
    (now : Instant) :
    l.candidates now cs = .ok (l.freeRow now (meetsAll cs)) := by
  unfold candidates
  rw [filterAll_matchesAll h]
  rfl

/-- Asking for work fails only before the scan. -/
theorem Ledger.nextNotLeased_eq_error_iff {l : Ledger} {h : Handle} {now : Instant} {max : Nat}
    {cs : List Criterion} {e : StoreError} :
    l.nextNotLeased h now max cs = .error e
      ↔ ∃ fault, validate cs = .error fault ∧ e = .invalidQuery fault := by
  unfold nextNotLeased
  cases hvalidate : validate cs with
  | error fault =>
    constructor
    · intro herr
      cases herr
      exact ⟨fault, rfl, rfl⟩
    · rintro ⟨_, hfault, rfl⟩
      cases hfault
      rfl
  | ok _ => simp [candidates_of_validate hvalidate]

namespace Query

/-! ## §5. All checks. -/

/-- The check up front, the evaluation on a record, the list of the declared fields and the reading
of a criterion agree.  A list that passes is evaluated on every record; if the evaluation fails, the
list does not pass, with the same fault; and both scans, for work and for a query, fail only before
they begin.  The declared fields are those that a record has.  A criterion is read exactly if its
text is the symbol of an operator, apart from blanks around it and from capitals, and the operand
passes the check for that operator. -/
theorem criteria_checked_alike (cs : List Criterion) (n : Negotiation) (path text : String)
    (operand : Json) :
    (validate cs = .ok () → ∃ meets, matchesAll n cs = .ok meets)
      ∧ (∀ fault, matchesAll n cs = .error fault → validate cs = .error fault)
      ∧ (∀ (l : Ledger) (h : Handle) (now : Instant) (max : Nat) (e : StoreError),
        l.nextNotLeased h now max cs = .error e
          ↔ ∃ fault, validate cs = .error fault ∧ e = .invalidQuery fault)
      ∧ (∀ (ns : List Negotiation) (spec : QuerySpec) (fault : QueryError),
        resolve ns spec = .error fault ↔ checkSpec spec = .error fault)
      ∧ ((n.field? path).isSome = true ↔ path ∈ Negotiation.fieldPaths)
      ∧ ∀ c, Criterion.parse path text operand = .ok c
          ↔ ∃ operator, (Text.trim text).toLower = operator.symbol
            ∧ c = ⟨path, operator, operand⟩ ∧ c.checkOperand = .ok () := by
  refine ⟨fun h => ⟨_, matchesAll_of_validate h n⟩, fun _ => validate_of_matchesAll,
    fun l h now max e => Ledger.nextNotLeased_eq_error_iff,
    fun ns spec fault => resolve_eq_error_iff, n.isSome_field?_iff path, fun c => ?_⟩
  rw [Criterion.parse_eq]
  constructor
  · intro hc
    cases hoperator : Operator.parse text with
    | error fault =>
      rw [hoperator] at hc
      cases hc
    | ok operator =>
      rw [hoperator] at hc
      refine ⟨operator, Operator.parse_eq_ok_iff.mp hoperator, ?_⟩
      cases hcheck : (Criterion.mk path operator operand).checkOperand with
      | error fault =>
        simp only [hcheck] at hc
        cases hc
      | ok _ =>
        simp only [hcheck] at hc
        cases hc
        exact ⟨rfl, hcheck⟩
  · rintro ⟨operator, hsymbol, rfl, hcheck⟩
    rw [Operator.parse_eq_ok_iff.mpr hsymbol]
    simp only [hcheck]
    rfl

/-- Two faulty criteria after one that is met. -/
def faultyCriteria : List Criterion :=
  [.isNotPending, ⟨"colour", .eq, .text "red"⟩, ⟨"protocol", .like, .int 1⟩]

/-- The evaluation and the check up front name the same one of two faults. -/
theorem first_fault_named :
    let n := Negotiation.new "n-1" .consumer "provider" "http://provider" "dsp" default
    matchesAll n faultyCriteria = .error (.unknownField "colour")
      ∧ validate faultyCriteria = .error (.unknownField "colour") := by
  intro n
  have hmatches : matchesAll n faultyCriteria = .error (.unknownField "colour") := rfl
  exact ⟨hmatches, (criteria_checked_alike faultyCriteria n "state" "=" .null).2.1 _ hmatches⟩

end Query

end Parley
