/-
  Parley.Settings.Toml.Reader
  ────────────────────────────────
  **READING TOML TEXTS.**

  A TOML text is a sequence of tables, each a header and lines of keys with
  their values:

      limit = 3            # of the root
      [lease]
      duration_ms = 1500

  It is read to a tree (`Parley.Settings.Toml.Tree`), which is then data.
-/
import Parley.Text.Blank
import Parley.Settings.Toml.Text
import Parley.Settings.Toml.Scalar
import Parley.Settings.Toml.Tree

namespace Parley.Toml


/-! ## §1. Values. -/

/-- A character that ends a word. -/
def endsWord (c : Char) : Bool :=
  c = ',' || c = ']' || c = '\x7d' || c = '#' || c = ' ' || c = '\t' || c = '\n' || c = '\r'

mutual

/-- A value, within a number of steps and of levels. -/
def readValue : Nat → Nat → List Char → Option (Node × List Char)
  | 0, _, _ => none
  | steps + 1, levels, cs =>
    match cs with
    | '"' :: _ => (readQuoted true cs).map fun p => (.leaf (.text p.1), p.2)
    | '\'' :: _ => (readQuoted true cs).map fun p => (.leaf (.text p.1), p.2)
    | '[' :: r =>
      if levels = 0 then none
      else (readItems steps (levels - 1) r).map fun p => (.array p.1, p.2)
    | '\x7b' :: r =>
      if levels = 0 then none
      else
        match skipBlanks r with
        | '\x7d' :: r => some (.inline [], r)
        | r => (readPairs steps (levels - 1) [] r).map fun p => (.inline p.1, p.2)
    | cs =>
      match readMoment cs with
      | some (m, r) => some (.moment m, r)
      | none =>
        let word := cs.takeWhile fun c => !endsWord c
        (word? word).map fun v => (.leaf v, cs.drop word.length)

/-- The items of an array, up to its closing bracket. -/
def readItems : Nat → Nat → List Char → Option (List Node × List Char)
  | 0, _, _ => none
  | steps + 1, levels, cs =>
    match skipLines (cs.length + 1) cs with
    | none => none
    | some (']' :: r) => some ([], r)
    | some r =>
      match readValue steps levels r with
      | none => none
      | some (v, r) =>
        match skipLines (r.length + 1) r with
        | some (',' :: r) => (readItems steps levels r).map fun p => (v :: p.1, p.2)
        | some (']' :: r) => some ([v], r)
        | _ => none

/-- The pairs of an inline table, up to its closing brace. -/
def readPairs : Nat → Nat → Entries → List Char → Option (Entries × List Char)
  | 0, _, _, _ => none
  | steps + 1, levels, entries, cs =>
    match readPath cs with
    | some (path, '=' :: r) =>
      match readValue steps levels (skipBlanks r) with
      | none => none
      | some (v, r) =>
        match define v true path entries with
        | none => none
        | some entries =>
          match skipBlanks r with
          | ',' :: r => readPairs steps levels entries r
          | '\x7d' :: r => some (entries, r)
          | _ => none
    | _ => none

end

/-! ## §2. Texts. -/

/-- The lines of a text: the path of the open table, and what was read. -/
def readLines : Nat → List String → Entries → List Char → Option Entries
  | 0, _, _, _ => none
  | steps + 1, here, root, cs =>
    match skipLines (cs.length + 1) cs with
    | none => none
    | some [] => some root
    | some ('[' :: '[' :: r) =>
      match readPath r with
      | some (path, ']' :: ']' :: r) => do
        let root ← within (openElement (path.getLast?.getD "")) path.dropLast root
        let rest ← skipLineEnd (← skipComment r)
        readLines steps path root rest
      | _ => none
    | some ('[' :: r) =>
      match readPath r with
      | some (path, ']' :: r) => do
        let root ← within (openTable (path.getLast?.getD "")) path.dropLast root
        let rest ← skipLineEnd (← skipComment r)
        readLines steps path root rest
      | _ => none
    | some cs =>
      match readPath cs with
      | some (path, '=' :: r) => do
        let (v, r) ← readValue (r.length + 1) greatestDepth (skipBlanks r)
        let root ← within (define v true path) here root
        let rest ← skipLineEnd (← skipComment r)
        readLines steps here root rest
      | _ => none

/-- The data of a text. -/
def read? (s : String) : Option Json :=
  let cs := Text.dropMark s.toList
  (readLines (cs.length + 1) [] [] cs).bind tableToJson?

/-- Tables, keys with points, comments; a table opened twice is refused. -/
example :
    read? "a = 1 # one\n[b]\nc.d = 'x'\n[b.e]\nf = [1_0, -2.5]\n"
      = some (.object [("a", .int 1), ("b", .object [("c", .object [("d", .text "x")]),
          ("e", .object [("f", .array [.int 10, .float (.ofDecimal true 25 (-1))])])])])
    ∧ read? "[a]\n[a]\n" = none ∧ read? "a = 1\na = 2" = none ∧ read? "[a\n" = none
    ∧ read? "a = 01" = none := by decide +kernel

/-- Keys with points go into the last table of a list, but end in tables of their own only. -/
example :
    read? "[[a.b]]\n[a]\nb.c.d = 2\n"
      = some (.object [("a", .object [("b", .array [.object [("c", .object [("d", .int 2)])]])])])
    ∧ read? "[[a.b]]\n[a]\nb.d = 2\n" = none ∧ read? "[a.b]\n[a]\nb.c = 1\n" = none := by
  decide +kernel

/-- Moments, with a space in them or as tables. -/
example :
    read? "a = [1979-05-27 07:32:00, 1979-05-27]"
      = some (.object [("a", .array [.text "1979-05-27T07:32:00", .text "1979-05-27"])])
    ∧ read? "[a]\n\"$__toml_private_datetime\" = '1979-05-27'"
      = some (.object [("a", .text "1979-05-27")])
    ∧ read? "a.\"$__toml_private_datetime\" = 1979-05-27" = none := by decide +kernel

end Parley.Toml
