/-
  Parley.Settings.Path
  ────────────────────────────────
  **PATHS TO SETTINGS.**

  A path leads from the root of a tree to a setting: keys with points before
  them, and places of a list in brackets.

      retry.limit        retry[0]        peers[-1].name

  A text that is no path is one key.
-/
import Parley.Decimal.Word
import Parley.Text.Digits

namespace Parley.Settings

open Parley.Text

/-! ## §1. Steps. -/

/-- A step of a path: into a tree, or to a place of a list, which is counted from the end if it is
negative. -/
inductive Step where
  | key (name : String)
  | index (place : Int)
deriving DecidableEq, Repr

/-- A text in lower case, as far as keys go: the Kelvin sign is the one character beyond ASCII whose
lower case is an ASCII letter. -/
def lowerCase (s : String) : String :=
  s.map fun c => if c = '\u212a' then 'k' else c.toLower

/-- A character of a key that may stand in a path. -/
def isKeyChar (c : Char) : Bool :=
  c.isAlphanum || c = '_' || c = '-' || c = ' '

/-! ## §2. Reading. -/

/-- The key at the front of a text. -/
def readKey (cs : List Char) : Option (String × List Char) :=
  let key := cs.takeWhile isKeyChar
  if key = [] then none else some (String.ofList key, cs.drop key.length)

/-- The rest after spaces and tabs. -/
def skipGap (cs : List Char) : List Char :=
  cs.dropWhile fun c => c = ' ' || c = '\t'

/-- The place in brackets, after the opening one: a whole number of 64 bits. -/
def readPlace (cs : List Char) : Option (Int × List Char) :=
  let (negative, cs) := match skipGap cs with
    | '-' :: r => (true, r)
    | r => (false, r)
  let (ds, rest) := spanDigits cs
  let n := digitsValue ds
  match skipGap rest with
  | ']' :: rest =>
    if ds = [] ∨ Word.signed64 + (if negative then 1 else 0) < n then none
    else some (if negative then -(n : Int) else n, rest)
  | _ => none

/-- The steps after the first key of a path, within a number of them. -/
def readSteps : Nat → List Char → Option (List Step)
  | _, [] => some []
  | 0, _ => none
  | steps + 1, c :: r =>
    if c = '.' then
      match readKey r with
      | some (key, r) => (readSteps steps r).map (.key key :: ·)
      | none => none
    else if c = '[' then
      match readPlace r with
      | some (place, r) => (readSteps steps r).map (.index place :: ·)
      | none => none
    else none

/-- The steps of a path; a text that is no path is one key. -/
def stepsOf (text : String) : List Step :=
  match readKey text.toList with
  | none => [.key text]
  | some (key, rest) =>
    match readSteps rest.length rest with
    | some steps => .key key :: steps
    | none => [.key text]

/-- Paths, and texts that are none. -/
example : stepsOf "retry.limit" = [.key "retry", .key "limit"]
    ∧ stepsOf "a[ 0 ][-1].b" = [.key "a", .index 0, .index (-1), .key "b"]
    ∧ stepsOf "retry..limit" = [.key "retry..limit"] ∧ stepsOf "retry[+0]" = [.key "retry[+0]"]
    ∧ stepsOf "retry[0]x" = [.key "retry[0]x"] ∧ stepsOf "" = [.key ""] := by decide +kernel

end Parley.Settings
