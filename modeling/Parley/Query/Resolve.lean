/-
  Parley.Query.Resolve
  ────────────────────────────────
  **ANSWERING QUERIES.**

  A criterion is evaluated on the data value of a field.  Numbers are compared
  as the nearest binary numbers, whole or not; other values are equal only to
  themselves; only numbers, texts and truth values are ordered, each among
  themselves.  Filtering or sorting by a field that negotiations do not have is
  an error, not an empty answer.
-/
import Parley.Query.Criterion
import Parley.Query.Like
import Parley.Query.Sort.Partition
import Parley.Negotiation.Basic

namespace Parley.Query

/-! ## §1. Values. -/

/-- Whether two values are equal in a criterion. -/
def valuesEqual (a b : Json) : Bool :=
  match a.number?, b.number? with
  | some x, some y => x.compare? y == some .eq
  | _, _ => a == b

/-- The order of two values of one kind. -/
def compareValues? (a b : Json) : Option Ordering :=
  match a, b with
  | .text s, .text t => some (compare s t)
  | .bool s, .bool t => some (compare s t)
  | a, b =>
    match a.number?, b.number? with
    | some x, some y => x.compare? y
    | _, _ => none

/-! ## §2. Criteria. -/

/-- Whether a negotiation meets a criterion. -/
def evaluate (n : Negotiation) (c : Criterion) : Except QueryError Bool :=
  match n.field? c.path with
  | none => .error (.unknownField c.path)
  | some value =>
    match c.operator with
    | .eq => .ok (valuesEqual value c.operand)
    | .notEq => .ok (!valuesEqual value c.operand)
    | .lt => .ok (compareValues? value c.operand == some .lt)
    | .gt => .ok (compareValues? value c.operand == some .gt)
    | .oneOf =>
      match c.operand with
      | .array items => .ok (items.any (valuesEqual value))
      | _ => .error (.invalidOperand .oneOf "a list")
    | .like =>
      match c.operand, value with
      | .text pattern, .text text => .ok (like text pattern)
      | .text _, _ => .ok false
      | _, _ => .error (.invalidOperand .like "a string pattern")

/-- Whether a negotiation meets all criteria.  The first that it does not meet settles it. -/
def matchesAll (n : Negotiation) : List Criterion → Except QueryError Bool
  | [] => .ok true
  | c :: rest =>
    match evaluate n c with
    | .error e => .error e
    | .ok false => .ok false
    | .ok true => matchesAll n rest

/-- Whether every criterion names a field and has an operand of the right shape: the first refusal
if not. -/
def validate : List Criterion → Except QueryError Unit
  | [] => .ok ()
  | c :: rest =>
    if c.path ∈ Negotiation.fieldPaths then
      match c.checkOperand with
      | .error e => .error e
      | .ok () => validate rest
    else .error (.unknownField c.path)

/-- The elements that meet a test which may fail: the first failure if there is one. -/
def filterAll (test : α → Except ε Bool) : List α → Except ε (List α)
  | [] => .ok []
  | a :: rest =>
    match test a with
    | .error e => .error e
    | .ok keep =>
      match filterAll test rest with
      | .error e => .error e
      | .ok kept => .ok (if keep then a :: kept else kept)

/-! ## §3. Queries. -/

/-- Whether one negotiation comes before another in the order of a field.  A null field comes
neither before nor after anything. -/
def fieldLess (path : String) (order : SortOrder) (a b : Negotiation) : Bool :=
  match a.field? path, b.field? path with
  | some x, some y =>
    compareValues? x y == some (match order with
      | .ascending => .lt
      | .descending => .gt)
  | _, _ => false

/-- Whether one negotiation comes before another in the order that a query asks for; by id if it asks
for none. -/
def QuerySpec.less (spec : QuerySpec) (a b : Negotiation) : Bool :=
  match spec.sortField with
  | some path => fieldLess path spec.sortOrder a b
  | none => a.id < b.id

/-- Whether a query can be answered: its filter first, then its sort field. -/
def checkSpec (spec : QuerySpec) : Except QueryError Unit :=
  match validate spec.filter with
  | .error e => .error e
  | .ok () =>
    match spec.sortField with
    | some path => if path ∈ Negotiation.fieldPaths then .ok () else .error (.unknownSortField path)
    | none => .ok ()

/-- The window of a row that a query asks for. -/
def QuerySpec.window (spec : QuerySpec) (ns : List Negotiation) : List Negotiation :=
  (ns.drop spec.offset).take spec.limit

/-- The answer to a query over some negotiations; none if the sort breaks down. -/
def resolve (ns : List Negotiation) (spec : QuerySpec) :
    Except QueryError (Option (List Negotiation)) :=
  match checkSpec spec with
  | .error e => .error e
  | .ok () =>
    match filterAll (fun n => matchesAll n spec.filter) ns with
    | .error e => .error e
    | .ok found => .ok ((mergeSort? spec.less found).map spec.window)

end Parley.Query
