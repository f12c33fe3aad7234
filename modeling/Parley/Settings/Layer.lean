/-
  Parley.Settings.Layer
  ────────────────────────────────
  **LAYERS OF SETTINGS.**

  Settings come in layers: the defaults, a file, the environment.  A layer gives
  values to paths.  A later layer overrides an earlier one key by key, at every
  depth; a value that is no tree replaces whatever was there.  Keys are taken in
  lower case.

  The merged tree is read leniently: a number may be given as a text, a text as
  a number, and every missing value has its default.
-/
import Parley.Json.Reader
import Parley.Settings.Form
import Parley.Settings.Path
import Parley.Decimal.Shortest

namespace Parley.Settings

open Parley.Json
open Parley.Decimal
open Parley.Text

/-! ## §1. Merging. -/

/-- The entries of a tree; a value that is no tree has none. -/
def entriesOf : Json → List (String × Json)
  | .members entries => entries
  | _ => []

/-- The items of a list; a value that is no list has none. -/
def itemsOf : Json → List Json
  | .array items => items
  | _ => []

mutual

/-- Give a key of a tree a value.  A tree is merged into what the key has. -/
def assign (key : String) (root : Json) : Json → Json
  | .members incoming =>
    let entries := entriesOf root
    let target := (findEntry (lowerCase key) entries).getD (.members [])
    .members (insertEntry (lowerCase key) (assignAll target incoming) entries)
  | value => .members (insertEntry (lowerCase key) value (entriesOf root))

/-- Give several keys of a tree their values. -/
def assignAll (root : Json) : List (String × Json) → Json
  | [] => root
  | (key, value) :: rest => assignAll (assign key root value) rest

end

/-- A list with a place changed.  A list that is too short is filled up with nulls, at its end or,
for a place counted from there, at its front. -/
def changeItem (place : Int) (change : Json → Json) (items : List Json) : List Json :=
  let missing := List.replicate (if 0 ≤ place then place.toNat + 1 - items.length
    else place.natAbs - items.length) Json.null
  if 0 ≤ place then (items ++ missing).modify place.toNat change
  else (missing ++ items).modify (items.length - place.natAbs) change

/-- Give what a path leads to a value, making a tree or a list of everything on the way.  A tree is
merged into what a key has; a place of a list is replaced. -/
def assignPath (root : Json) (value : Json) : List Step → Json
  | [] => root
  | [.key key] => assign key root value
  | [.index place] => .array (changeItem place (fun _ => value) (itemsOf root))
  | .key key :: rest =>
    let entries := entriesOf root
    let child := (findEntry (lowerCase key) entries).getD .null
    .members (insertEntry (lowerCase key) (assignPath child value rest) entries)
  | .index place :: rest =>
    .array (changeItem place (fun child => assignPath child value rest) (itemsOf root))

/-- A layer over a tree: a value for each of some paths. -/
def overlay (root : Json) (layer : List (String × Json)) : Json :=
  layer.foldl (fun root e => assignPath root e.2 (stepsOf e.1)) root

/-- Lists grow as far as a path needs them. -/
example : overlay (.members []) [("A[1].b", .int 1), ("a[-1]", .int 2), ("a[-3]", .int 3)]
      = .members [("a", .array [.int 3, .null, .int 2])]
    ∧ overlay (.members [("a", .int 1)]) [("a", .members [])] = .members [("a", .int 1)]
    ∧ overlay (.members [("a", .int 1)]) [("a", .members [("B.c", .int 2)])]
      = .members [("a", .members [("b.c", .int 2)])] := by decide +kernel

/-! ## §2. Lenient values. -/

/-- A value as a text. -/
def lenientText? : Json → Option String
  | .text s => some s
  | .int n => some (toString n)
  | .float x => some (plainFormat.render x)
  | .bool b => some (if b then "true" else "false")
  | _ => none

/-- The digits of a natural number as it is written in a text, with a plus sign or without. -/
def writtenNat? (cs : List Char) : Option Nat :=
  let ds := match cs with
    | '+' :: r => r
    | r => r
  if ds ≠ [] ∧ ds.all Char.isDigit then some (digitsValue ds) else none

/-- A value as a natural number of 64 bits. -/
def lenientNat? : Json → Option Nat
  | .int n => if 0 ≤ n then some n.toNat else none
  | .bool b => some (if b then 1 else 0)
  | .float x =>
    match x with
    | .nan => some 0
    | .infinite negative => some (if negative then 0 else Word.unsigned64)
    | x => x.roundToInt?.map fun n => min n.toNat Word.unsigned64
  | .text s =>
    let word := s.toLower
    if word = "true" ∨ word = "on" ∨ word = "yes" then some 1
    else if word = "false" ∨ word = "off" ∨ word = "no" then some 0
    else
      match writtenNat? s.toList with
      | some n => if n ≤ Word.unsigned64 then some n else none
      | none => none
  | _ => none

/-- A value as a natural number of 32 bits. -/
def lenientWord? (j : Json) : Option Nat :=
  match lenientNat? j with
  | some n => if n ≤ Word.unsigned32 then some n else none
  | none => none

/-- A value as one of several names in any case: a text, or a tree with one key. -/
def lenientChoice? (read : String → Option α) : Json → Option α
  | .text s => read (lowerCase s)
  | .members [(k, _)] => read (lowerCase k)
  | _ => none

/-! ## §3. Reading a merged tree. -/

/-- The fields of a tree, or of a list that gives them in order. -/
def fieldsOf? (names : List String) : Json → Option Fields
  | .members entries => some ⟨false, fun k => findEntry k entries⟩
  | .array items => some ⟨true, fun k => findEntry k (names.zip items)⟩
  | _ => none

/-- Settings of the polling loops from a tree. -/
def pollingOf? (j : Json) : Option PollingSettings := do
  let f ← fieldsOf? ["batch_size", "iteration_wait_ms", "max_concurrent"] j
  let d : PollingSettings := {}
  return {
    batchSize := ← f.defaulted "batch_size" d.batchSize lenientNat?
    iterationWait := ← f.defaulted "iteration_wait_ms" d.iterationWait lenientNat?
    maxConcurrent := ← f.defaulted "max_concurrent" d.maxConcurrent lenientNat? }

/-- Settings of retries from a tree. -/
def retryOf? (j : Json) : Option RetrySettings := do
  let f ← fieldsOf? ["limit", "strategy", "base_delay_ms", "max_delay_ms"] j
  let d : RetrySettings := {}
  return {
    limit := ← f.defaulted "limit" d.limit lenientWord?
    strategy := ← f.defaulted "strategy" d.strategy (lenientChoice? RetryStrategy.ofName?)
    baseDelay := ← f.defaulted "base_delay_ms" d.baseDelay lenientNat?
    maxDelay := ← f.defaulted "max_delay_ms" d.maxDelay lenientNat? }

/-- Settings of leases from a tree. -/
def leaseOf? (j : Json) : Option LeaseSettings := do
  let f ← fieldsOf? ["duration_ms"] j
  let d : LeaseSettings := {}
  return { duration := ← f.defaulted "duration_ms" d.duration lenientNat? }

/-- Settings of listeners from a tree. -/
def observerOf? (j : Json) : Option ObserverSettings := do
  let f ← fieldsOf? ["channel_capacity"] j
  let d : ObserverSettings := {}
  return { channelCapacity := ← f.defaulted "channel_capacity" d.channelCapacity lenientNat? }

/-- Settings from a merged tree. -/
def ofTree? (j : Json) : Option Settings := do
  let f ← fieldsOf?
    ["participant_id", "callback_address", "state_machine", "retry", "lease", "observer"] j
  let d : Settings := {}
  return {
    participantId := ← f.defaulted "participant_id" d.participantId lenientText?
    callbackAddress := ← f.defaulted "callback_address" d.callbackAddress lenientText?
    polling := ← f.defaulted "state_machine" d.polling pollingOf?
    retry := ← f.defaulted "retry" d.retry retryOf?
    lease := ← f.defaulted "lease" d.lease leaseOf?
    observer := ← f.defaulted "observer" d.observer observerOf? }

end Parley.Settings
