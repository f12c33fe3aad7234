/-
  Parley.Query.Form
  ────────────────────────────────
  **QUERIES AS DATA.**

  Criteria and queries are written as objects.  In data an operator has a name
  of its own, which is not its symbol.
-/
import Parley.Json.Form
import Parley.Query.Criterion

namespace Parley.Query

open Parley.Json

/-! ## §1. Criteria. -/

/-- The name of an operator in data. -/
def Operator.name : Operator → String
  | eq => "eq"
  | notEq => "not_eq"
  | oneOf => "in"
  | lt => "lt"
  | gt => "gt"
  | like => "like"

/-- The operator of a name in data. -/
def Operator.ofName? : String → Option Operator
  | "eq" => some eq
  | "not_eq" => some notEq
  | "in" => some oneOf
  | "lt" => some lt
  | "gt" => some gt
  | "like" => some like
  | _ => none

/-- A criterion as data. -/
def Criterion.toJson (c : Criterion) : Json :=
  .object [("operand_left", .text c.path), ("operator", .text c.operator.name),
    ("operand_right", c.operand)]

/-- A criterion from data. -/
def Criterion.ofJson? (j : Json) : Option Criterion := do
  let f ← Fields.of? ["operand_left", "operator", "operand_right"] j
  return {
    path := ← f.required "operand_left" text?
    operator := ← f.required "operator" (choice? false Operator.ofName?)
    operand := ← f.required "operand_right" some }

/-! ## §2. Queries. -/

/-- The name of a direction. -/
def SortOrder.name : SortOrder → String
  | ascending => "asc"
  | descending => "desc"

/-- The direction of a name. -/
def SortOrder.ofName? : String → Option SortOrder
  | "asc" => some ascending
  | "desc" => some descending
  | _ => none

/-- A query as data. -/
def QuerySpec.toJson (q : QuerySpec) : Json :=
  .object [("filter", .ofList Criterion.toJson q.filter),
    ("sort_field", .ofOption .text q.sortField), ("sort_order", .text q.sortOrder.name),
    ("offset", .int q.offset), ("limit", .int q.limit)]

/-- A query from data. -/
def QuerySpec.ofJson? (j : Json) : Option QuerySpec := do
  let f ← Fields.of? ["filter", "sort_field", "sort_order", "offset", "limit"] j
  let d : QuerySpec := {}
  return {
    filter := ← f.defaulted "filter" d.filter (listOf? Criterion.ofJson?)
    sortField := ← f.optional "sort_field" text?
    sortOrder := ← f.defaulted "sort_order" d.sortOrder (choice? false SortOrder.ofName?)
    offset := ← f.defaulted "offset" d.offset unsigned64?
    limit := ← f.defaulted "limit" d.limit unsigned64? }

end Parley.Query
