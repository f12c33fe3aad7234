/-
  Parley.Query.Criterion
  ────────────────────────────────
  **CRITERIA.**

  A criterion compares a field with a value.  An operator is named by its
  symbol, with any blanks around it and in any case of its letters; "in" needs
  a list, "like" a text.
-/
import Parley.Negotiation.State
import Parley.Json.Printer
import Parley.Text.Blank

namespace Parley.Query

/-! ## §1. Operators. -/

/-- How a criterion compares. -/
inductive Operator where
  | eq
  | notEq
  | oneOf
  | lt
  | gt
  | like
deriving DecidableEq, Repr, Inhabited

/-- The symbol of an operator. -/
def Operator.symbol : Operator → String
  | eq => "="
  | notEq => "!="
  | oneOf => "in"
  | lt => "<"
  | gt => ">"
  | like => "like"

/-- Why a query is refused. -/
inductive QueryError where
  | unsupportedOperator (text : String)
  | unknownField (path : String)
  | unknownSortField (path : String)
  | invalidOperand (operator : Operator) (expected : String)
deriving DecidableEq, Repr

/-- The text of a refusal. -/
def QueryError.message : QueryError → String
  | .unsupportedOperator text => "unsupported operator: " ++ text
  | .unknownField path => "cannot filter by " ++ path ++ ", the field does not exist"
  | .unknownSortField path => "cannot sort by " ++ path ++ ", the field does not exist"
  | .invalidOperand operator expected =>
    "operator " ++ operator.symbol ++ " requires " ++ expected

/-- The operator of a symbol. -/
def Operator.parse (text : String) : Except QueryError Operator :=
  let word := (Text.trim text).toLower
  if word = "=" then .ok .eq
  else if word = "!=" then .ok .notEq
  else if word = "in" then .ok .oneOf
  else if word = "<" then .ok .lt
  else if word = ">" then .ok .gt
  else if word = "like" then .ok .like
  else .error (.unsupportedOperator word)

/-! ## §2. Criteria. -/

/-- A comparison of a field with a value. -/
structure Criterion where
  path : String
  operator : Operator
  operand : Json
deriving DecidableEq, Repr, Inhabited

namespace Criterion

/-- Whether the operand has the shape that the operator needs. -/
def checkOperand (c : Criterion) : Except QueryError Unit :=
  match c.operator, c.operand with
  | .oneOf, .array _ => .ok ()
  | .oneOf, _ => .error (.invalidOperand .oneOf "a list")
  | .like, .text _ => .ok ()
  | .like, _ => .error (.invalidOperand .like "a string pattern")
  | _, _ => .ok ()

/-- A criterion from an operator's symbol.  The operand is looked at before there is a criterion. -/
def parse (path symbol : String) (operand : Json) : Except QueryError Criterion :=
  match Operator.parse symbol with
  | .error e => .error e
  | .ok operator =>
    match operator, operand with
    | .oneOf, .array _ | .like, .text _ => .ok ⟨path, operator, operand⟩
    | .oneOf, _ => .error (.invalidOperand .oneOf "a list")
    | .like, _ => .error (.invalidOperand .like "a string pattern")
    | _, _ => .ok ⟨path, operator, operand⟩

/-- The text of a criterion. -/
def text (c : Criterion) : String :=
  c.path ++ " " ++ c.operator.symbol ++ " " ++ c.operand.render

/-- The state has a code. -/
def hasState (code : Int) : Criterion :=
  ⟨"state", .eq, .int code⟩

/-- The state has one of some codes. -/
def hasStates (codes : List Int) : Criterion :=
  ⟨"state", .oneOf, Json.ofList .int codes⟩

/-- The record is not pending. -/
def isNotPending : Criterion :=
  ⟨"pending", .eq, .bool false⟩

/-- The record belongs to a role. -/
def hasRole (role : Role) : Criterion :=
  ⟨"type", .eq, .text role.tag⟩

end Criterion

/-! ## §3. Queries. -/

/-- The direction of a sort. -/
inductive SortOrder where
  | ascending
  | descending
deriving DecidableEq, Repr, Inhabited

/-- Which records to give, in which order, and which window of them. -/
structure QuerySpec where
  filter : List Criterion := []
  sortField : Option String := none
  sortOrder : SortOrder := .ascending
  offset : Nat := 0
  limit : Nat := 50
deriving DecidableEq, Repr, Inhabited

end Parley.Query
