/-
  Parley.Settings.Toml.Tree
  ────────────────────────────────
  **THE TREE OF A TOML TEXT.**

  A text gives a tree of tables.  A key is given once, and a table is opened
  once; keys with points make tables that only such keys extend; arrays and
  inline tables are closed.  Tables keep their keys in the order in which they
  were given.

  A moment has a second form, a table whose first key is `momentKey` and has the
  moment's text in quotes.
-/
import Parley.Settings.Toml.Moment
import Parley.Json.Basic

namespace Parley.Toml

/-! ## §1. Nodes. -/

/-- How a table came to be: on the way to another, by keys with points, or by its header. -/
inductive Origin where
  | implied
  | pointed
  | header
deriving DecidableEq, Repr

/-- A part of the tree.  The tables of a list are kept last first. -/
inductive Node where
  | leaf (value : Json)
  | moment (value : Moment)
  | array (items : List Node)
  | inline (entries : List (String × Node))
  | table (origin : Origin) (entries : List (String × Node))
  | tables (elements : List (List (String × Node)))

/-- The entries of a table. -/
abbrev Entries := List (String × Node)

/-- The entries with a key changed, or added at the end. -/
def setEntry (key : String) (node : Node) : Entries → Entries
  | [] => [(key, node)]
  | (k, v) :: rest => if k = key then (key, node) :: rest else (k, v) :: setEntry key node rest

/-! ## §2. Giving a key its value. -/

/-- Give the key at the end of a path a value, in a table that is open for it or not.  Only tables
that no header opened are entered, and of those only pointed ones are open; the last table of a
list may be entered too. -/
def define (value : Node) (isOpen : Bool) : List String → Entries → Option Entries
  | [], _ => none
  | [key], entries =>
    match findEntry key entries with
    | some _ => none
    | none => if isOpen then some (entries ++ [(key, value)]) else none
  | key :: rest, entries =>
    match findEntry key entries with
    | none => (define value true rest []).map fun es => entries ++ [(key, .table .pointed es)]
    | some (.table .header _) => none
    | some (.table origin es) =>
      (define value (origin = .pointed) rest es).map fun es =>
        setEntry key (.table origin es) entries
    | some (.tables (es :: more)) =>
      (define value false rest es).map fun es => setEntry key (.tables (es :: more)) entries
    | some _ => none

/-! ## §3. Opening tables. -/

/-- Change the table at the end of a path, going into the last table of a list; tables on the way
are made if they are not there. -/
def within (change : Entries → Option Entries) : List String → Entries → Option Entries
  | [], entries => change entries
  | key :: rest, entries =>
    match findEntry key entries with
    | none => (within change rest []).map fun es => entries ++ [(key, .table .implied es)]
    | some (.table origin es) =>
      (within change rest es).map fun es => setEntry key (.table origin es) entries
    | some (.tables (es :: more)) =>
      (within change rest es).map fun es => setEntry key (.tables (es :: more)) entries
    | some _ => none

/-- Open a table with its header.  It becomes the last one of its parent. -/
def openTable (key : String) (entries : Entries) : Option Entries :=
  match findEntry key entries with
  | none => some (entries ++ [(key, .table .header [])])
  | some (.table .implied es) =>
    some (entries.filter (·.1 ≠ key) ++ [(key, .table .header es)])
  | some _ => none

/-- Open one more table of a list. -/
def openElement (key : String) (entries : Entries) : Option Entries :=
  match findEntry key entries with
  | none => some (entries ++ [(key, .tables [[]])])
  | some (.tables es) => some (setEntry key (.tables ([] :: es)) entries)
  | some _ => none

/-! ## §4. The tree as data. -/

/-- The key of a moment's table. -/
def momentKey : String := "$__toml_private_datetime"

mutual

/-- A part of the tree as data, moments as texts. -/
def Node.toJson? : Node → Option Json
  | .leaf value => some value
  | .moment m => some (.text m.render)
  | .array items => (nodesToJson? items).map .array
  | .inline entries => tableToJson? entries
  | .table _ entries => tableToJson? entries
  | .tables elements => (elementsToJson? elements).map fun es => .array es.reverse

/-- A table as data.  One in the form of a moment has to have a moment's text. -/
def tableToJson? : List (String × Node) → Option Json
  | [] => some (.object [])
  | (k, n) :: rest =>
    if k = momentKey then
      match n with
      | .leaf (.text s) => (Moment.parse? s).map fun m => .text m.render
      | _ => none
    else
      match n.toJson?, entriesToJson? rest with
      | some v, some es => some (.object ((k, v) :: es))
      | _, _ => none

/-- Entries as data. -/
def entriesToJson? : List (String × Node) → Option (List (String × Json))
  | [] => some []
  | (k, n) :: rest =>
    match n.toJson?, entriesToJson? rest with
    | some v, some es => some ((k, v) :: es)
    | _, _ => none

/-- The items of an array as data. -/
def nodesToJson? : List Node → Option (List Json)
  | [] => some []
  | n :: rest =>
    match n.toJson?, nodesToJson? rest with
    | some v, some vs => some (v :: vs)
    | _, _ => none

/-- The tables of a list as data. -/
def elementsToJson? : List (List (String × Node)) → Option (List Json)
  | [] => some []
  | es :: rest =>
    match tableToJson? es, elementsToJson? rest with
    | some v, some vs => some (v :: vs)
    | _, _ => none

end

end Parley.Toml
