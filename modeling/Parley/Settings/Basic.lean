/-
  Parley.Settings.Basic
  ────────────────────────────────
  **SETTINGS.**

  What a participant's engine is run with.  Settings are checked before they
  are used (`Settings.validate`); the first fault in a fixed order is reported.
-/
import Parley.Text.Blank
import Parley.Retry.Attempt
import Parley.Store.Basic

namespace Parley

open Parley.Retry

/-! ## §1. Settings. -/

/-- The polling loops: records leased at a time, milliseconds to wait after an idle iteration, and
records of a batch handled at a time. -/
structure PollingSettings where
  batchSize : Nat := 20
  iterationWait : Nat := 1000
  maxConcurrent : Nat := 10
deriving DecidableEq, Repr, Inhabited

/-- How delays between retries are chosen. -/
inductive RetryStrategy where
  | exponential
  | fixed
  | none
deriving DecidableEq, Repr, Inhabited

/-- Retries: attempts in a state, and the delays between them in milliseconds. -/
structure RetrySettings where
  limit : Nat := 7
  strategy : RetryStrategy := .exponential
  baseDelay : Nat := 1000
  maxDelay : Nat := 60000
deriving DecidableEq, Repr, Inhabited

/-- Leases: how long they last, in milliseconds. -/
structure LeaseSettings where
  duration : Nat := 60000
deriving DecidableEq, Repr, Inhabited

/-- Listeners: how many announcements wait for each of them. -/
structure ObserverSettings where
  channelCapacity : Nat := 1024
deriving DecidableEq, Repr, Inhabited

/-- The settings of an engine. -/
structure Settings where
  participantId : String := "accord-participant"
  callbackAddress : String := "http://localhost:8282/protocol"
  polling : PollingSettings := {}
  retry : RetrySettings := {}
  lease : LeaseSettings := {}
  observer : ObserverSettings := {}
deriving DecidableEq, Repr, Inhabited

/-! ## §2. Faults. -/

/-- What an engine cannot run with. -/
inductive SettingsFault where
  | participantIdEmpty
  | batchSizeZero
  | maxConcurrentZero
  | retryLimitZero
  | baseDelayAboveMax
  | leaseDurationZero
  | channelCapacityZero
deriving DecidableEq, Repr

/-- The text of a fault. -/
def SettingsFault.detail : SettingsFault → String
  | participantIdEmpty => "participant_id must not be empty"
  | batchSizeZero => "state_machine.batch_size must be positive"
  | maxConcurrentZero => "state_machine.max_concurrent must be positive"
  | retryLimitZero => "retry.limit must be positive"
  | baseDelayAboveMax => "retry.base_delay_ms must not exceed retry.max_delay_ms"
  | leaseDurationZero => "lease.duration_ms must be positive"
  | channelCapacityZero => "observer.channel_capacity must be positive"

/-- Why settings are refused. -/
inductive SettingsError where
  /-- A source cannot be read, or a value has the wrong kind. -/
  | unreadable
  | invalid (fault : SettingsFault)
deriving DecidableEq, Repr

/-- The text of a refusal. -/
def SettingsError.message : SettingsError → String
  | .unreadable => "Unreadable configuration"
  | .invalid fault => "Invalid configuration: " ++ fault.detail

namespace Settings

/-- The first fault of some settings. -/
def fault? (s : Settings) : Option SettingsFault :=
  if Text.isBlankText s.participantId then some .participantIdEmpty
  else if s.polling.batchSize = 0 then some .batchSizeZero
  else if s.polling.maxConcurrent = 0 then some .maxConcurrentZero
  else if s.retry.limit = 0 then some .retryLimitZero
  else if s.retry.maxDelay < s.retry.baseDelay then some .baseDelayAboveMax
  else if s.lease.duration = 0 then some .leaseDurationZero
  else if s.observer.channelCapacity = 0 then some .channelCapacityZero
  else none

/-- Refuse settings that an engine cannot run with. -/
def validate (s : Settings) : Except SettingsError Unit :=
  match s.fault? with
  | some fault => .error (.invalid fault)
  | none => .ok ()

/-- Settings without a fault leave room in a batch and for a message on its way, and they allow for
an attempt. -/
theorem pos_of_fault? {s : Settings} (h : s.fault? = none) :
    0 < s.polling.batchSize ∧ 0 < s.polling.maxConcurrent ∧ 0 < s.retry.limit := by
  unfold fault? at h
  split at h
  · cases h
  · split at h
    · cases h
    · split at h
      · cases h
      · split at h
        · cases h
        · omega

/-- Settings pass if they have no fault. -/
theorem validate_eq_ok_iff {s : Settings} : s.validate = .ok () ↔ s.fault? = none := by
  unfold validate
  cases s.fault? with
  | none => simp
  | some fault => simp

/-- The base of the delays is not above their maximum. -/
theorem baseDelay_le_of_fault? {s : Settings} (h : s.fault? = none) :
    s.retry.baseDelay ≤ s.retry.maxDelay := by
  refine Nat.le_of_not_lt fun habove => ?_
  unfold fault? at h
  rw [if_pos habove] at h
  split at h
  · cases h
  · split at h
    · cases h
    · split at h
      · cases h
      · split at h <;> cases h

/-! ## §3. What follows from settings. -/

/-- How long leases last, in milliseconds.  Longer ones are cut to what a signed word holds. -/
def leaseDuration (s : Settings) : Nat :=
  min s.lease.duration Word.signed64

/-- The delays between retries. -/
def backoff (s : Settings) : Backoff :=
  match s.retry.strategy with
  | .exponential => .exponential s.retry.baseDelay s.retry.maxDelay
  | .fixed => .fixed s.retry.baseDelay
  | .none => .immediate

/-- The retry policy. -/
def retryPolicy (s : Settings) : RetryPolicy :=
  ⟨s.retry.limit, s.backoff⟩

/-- The handle of a store that leases in the participant's name. -/
def handle (s : Settings) : Handle :=
  ⟨s.participantId, s.leaseDuration⟩

end Settings

end Parley
