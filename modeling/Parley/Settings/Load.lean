/-
  Parley.Settings.Load
  ────────────────────────────────
  **LOADING SETTINGS.**

  Settings are loaded from the defaults, a file and the environment, in
  increasing precedence:

      load (some (.toml "retry.limit = 3")) [("ACCORD_LEASE__DURATION_MS", "1500")]

  Each source is read to a tree, the trees are merged, and the merged tree is
  read and checked.  Files are written in any of several formats, and how they
  are read is left open (`loadWith`); for two formats there are readers here.
-/
import Parley.Settings.Environment
import Parley.Settings.Toml.Reader

namespace Parley

open Parley.Json
open Parley.Decimal

/-! ## §1. Files. -/

mutual

/-- A value in which whole numbers beyond 63 bits are binary numbers. -/
def Json.withSigned : Json → Json
  | .int n => if n ≤ Word.signed64 then .int n else .float (.ofInt n)
  | .array items => .array (signedItems items)
  | .members entries => .members (signedEntries entries)
  | value => value

/-- The same for the items of an array. -/
def Json.signedItems : List Json → List Json
  | [] => []
  | v :: rest => v.withSigned :: signedItems rest

/-- The same for the members of an object. -/
def Json.signedEntries : List (String × Json) → List (String × Json)
  | [] => []
  | (k, v) :: rest => (k, v.withSigned) :: signedEntries rest

end

/-- The text of a settings file, in one of two formats. -/
inductive SettingsFile where
  | json (source : String)
  | toml (source : String)
deriving Repr

/-- The layer that a file gives: the members of its root. -/
def SettingsFile.layer? : SettingsFile → Option (List (String × Json))
  | .json source =>
    match Json.read? source with
    | some (.members entries) => some (signedEntries entries)
    | _ => none
  | .toml source =>
    match Toml.read? source with
    | some (.members entries) => some entries
    | _ => none

/-! ## §2. Loading. -/

namespace Settings

/-- The tree merged from the defaults, a file's layer and the environment. -/
def mergedTree (fromFile : List (String × Json)) (vars : List (String × String)) : Json :=
  overlay (overlay ({} : Settings).toJson fromFile) (environmentLayer vars)

section Reader

variable {φ : Type} (reader : φ → Option (List (String × Json)))

/-- The layer that a file gives, empty if there is no file. -/
def fileLayer? : Option φ → Option (List (String × Json))
  | none => some []
  | some file => reader file

/-- The settings that a file and the environment give, unchecked. -/
def readWith? (file : Option φ) (vars : List (String × String)) : Option Settings :=
  match fileLayer? reader file with
  | some fromFile => ofTree? (mergedTree fromFile vars)
  | none => none

/-- The checked settings that a file and the environment give. -/
def loadWith (file : Option φ) (vars : List (String × String)) : Except SettingsError Settings :=
  match readWith? reader file vars with
  | none => .error .unreadable
  | some s =>
    match s.validate with
    | .error e => .error e
    | .ok () => .ok s

end Reader

/-- The checked settings that a file in one of two formats and the environment give. -/
def load (file : Option SettingsFile) (vars : List (String × String)) :
    Except SettingsError Settings :=
  loadWith SettingsFile.layer? file vars

/-- The environment wins over the file, and the file over the defaults. -/
example :
    (match load (some (.toml "[retry]\nlimit = 3\n[lease]\nduration_ms = 7\n"))
        [("ACCORD_LEASE__DURATION_MS", "1500")] with
      | .ok s => (s.retry.limit, s.lease.duration, s.observer.channelCapacity) == (3, 1500, 1024)
      | .error _ => false) = true := by decide +kernel

end Settings

end Parley
