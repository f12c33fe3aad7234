/-
  Parley.Settings.Form
  ────────────────────────────────
  **SETTINGS AS DATA.**

  Settings are written as nested objects.  Every setting has a default, so any
  part of the object may be left out; what is there has to be of the right kind.
-/
import Parley.Settings.Basic
import Parley.Json.Form

namespace Parley

open Parley.Json

/-! ## §1. Writing. -/

/-- The name of a strategy. -/
def RetryStrategy.name : RetryStrategy → String
  | exponential => "exponential"
  | fixed => "fixed"
  | none => "none"

/-- The strategy of a name. -/
def RetryStrategy.ofName? : String → Option RetryStrategy
  | "exponential" => some exponential
  | "fixed" => some fixed
  | "none" => some .none
  | _ => Option.none

/-- Settings of the polling loops as data. -/
def PollingSettings.toJson (s : PollingSettings) : Json :=
  .object [("batch_size", .int s.batchSize), ("iteration_wait_ms", .int s.iterationWait),
    ("max_concurrent", .int s.maxConcurrent)]

/-- Settings of retries as data. -/
def RetrySettings.toJson (s : RetrySettings) : Json :=
  .object [("limit", .int s.limit), ("strategy", .text s.strategy.name),
    ("base_delay_ms", .int s.baseDelay), ("max_delay_ms", .int s.maxDelay)]

/-- Settings of leases as data. -/
def LeaseSettings.toJson (s : LeaseSettings) : Json :=
  .object [("duration_ms", .int s.duration)]

/-- Settings of listeners as data. -/
def ObserverSettings.toJson (s : ObserverSettings) : Json :=
  .object [("channel_capacity", .int s.channelCapacity)]

/-- Settings as data. -/
def Settings.toJson (s : Settings) : Json :=
  .object [("participant_id", .text s.participantId), ("callback_address", .text s.callbackAddress),
    ("state_machine", s.polling.toJson), ("retry", s.retry.toJson), ("lease", s.lease.toJson),
    ("observer", s.observer.toJson)]

/-! ## §2. Reading. -/

/-- Settings of the polling loops from data. -/
def PollingSettings.ofJson? (j : Json) : Option PollingSettings := do
  let f ← Fields.of? ["batch_size", "iteration_wait_ms", "max_concurrent"] j
  let d : PollingSettings := {}
  return {
    batchSize := ← f.defaulted "batch_size" d.batchSize unsigned64?
    iterationWait := ← f.defaulted "iteration_wait_ms" d.iterationWait unsigned64?
    maxConcurrent := ← f.defaulted "max_concurrent" d.maxConcurrent unsigned64? }

/-- Settings of retries from data. -/
def RetrySettings.ofJson? (j : Json) : Option RetrySettings := do
  let f ← Fields.of? ["limit", "strategy", "base_delay_ms", "max_delay_ms"] j
  let d : RetrySettings := {}
  return {
    limit := ← f.defaulted "limit" d.limit unsigned32?
    strategy := ← f.defaulted "strategy" d.strategy (choice? false RetryStrategy.ofName?)
    baseDelay := ← f.defaulted "base_delay_ms" d.baseDelay unsigned64?
    maxDelay := ← f.defaulted "max_delay_ms" d.maxDelay unsigned64? }

/-- Settings of leases from data. -/
def LeaseSettings.ofJson? (j : Json) : Option LeaseSettings := do
  let f ← Fields.of? ["duration_ms"] j
  let d : LeaseSettings := {}
  return { duration := ← f.defaulted "duration_ms" d.duration unsigned64? }

/-- Settings of listeners from data. -/
def ObserverSettings.ofJson? (j : Json) : Option ObserverSettings := do
  let f ← Fields.of? ["channel_capacity"] j
  let d : ObserverSettings := {}
  return { channelCapacity := ← f.defaulted "channel_capacity" d.channelCapacity unsigned64? }

/-- Settings from data. -/
def Settings.ofJson? (j : Json) : Option Settings := do
  let f ← Fields.of?
    ["participant_id", "callback_address", "state_machine", "retry", "lease", "observer"] j
  let d : Settings := {}
  return {
    participantId := ← f.defaulted "participant_id" d.participantId text?
    callbackAddress := ← f.defaulted "callback_address" d.callbackAddress text?
    polling := ← f.defaulted "state_machine" d.polling PollingSettings.ofJson?
    retry := ← f.defaulted "retry" d.retry RetrySettings.ofJson?
    lease := ← f.defaulted "lease" d.lease LeaseSettings.ofJson?
    observer := ← f.defaulted "observer" d.observer ObserverSettings.ofJson? }

end Parley
