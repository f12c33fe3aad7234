/-
  Parley.Proofs.Engine.Setback
  ────────────────────────────────
  **WHAT A FAILED SEND LEAVES BEHIND.**

  A send that failed leaves a count and a timestamp.  Whatever an engine writes
  as long as the record stays in its state has a count that is not less and a
  timestamp that is not earlier, however the clock is set (`HasFailed`), unless it
tells of a leap second:

      stored     what is stored (`World.Remembers`)
      leased     what is leased from then on (`Round.Recalls`)

  Each is told for one operation after the other, and then for a move of a tick
  (`stepRound_recalls`).  And a message goes out exactly when a tick comes to a
  record that does not have to wait.
-/
import Parley.Proofs.Engine.Graph
import Parley.Proofs.Engine.Reach
import Parley.Proofs.Engine.Strokes
import Parley.Proofs.Engine.Timely
import Parley.Proofs.Query.Integers
import Parley.Proofs.Retry.Delay

namespace Parley

open Parley.Retry Parley.Query

/-! ## §1. Records that failed. -/

/-- A record in a state, that failed there so often at least, and was not written before a time, nor
in a leap second. -/
structure Negotiation.HasFailed (s : State) (k : Nat) (t : Instant) (n : Negotiation) : Prop where
  state : n.state = s.code
  count : k ≤ n.stateCount
  stamp : t ≤ n.stateTimestamp
  plain : n.stateTimestamp.leap = false

namespace Negotiation.HasFailed

variable {s : State} {k : Nat} {t : Instant} {n m : Negotiation}

/-- Only the state, the count and the timestamp matter. -/
theorem congr (h : n.HasFailed s k t) (hstate : m.state = n.state)
    (hcount : m.stateCount = n.stateCount) (hstamp : m.stateTimestamp = n.stateTimestamp) :
    m.HasFailed s k t :=
  ⟨hstate.trans h.state, hcount ▸ h.count, hstamp ▸ h.stamp, hstamp ▸ h.plain⟩

/-- A record that enters its state again has failed once more, and its timestamp does not go back,
whatever the clock says. -/
theorem enter (h : n.HasFailed s k t) {target : Int} {now : Instant} (hnow : now.leap = false)
    (htarget : target = s.code) : (n.enter target now).HasFailed s k t := by
  have hagain : n.state = target := h.state.trans htarget.symm
  have hcount := h.count
  have hstamp := h.stamp
  rw [Instant.le_def] at hstamp
  refine ⟨htarget, ?_, ?_, Instant.leap_later h.plain hnow⟩
  · show k ≤ if n.state = target then n.stateCount + 1 else 0
    rw [if_pos hagain]
    omega
  · show t ≤ n.stateTimestamp.later now
    rw [Instant.le_def, Instant.rank_later]
    omega

/-- What a record becomes by a move, if it is in its state then. -/
theorem moved (h : n.HasFailed s k t) {target : State} {now : Instant} (hnow : now.leap = false)
    (hmove : n.moveTo target now = .ok m) (hstate : m.state = s.code) : m.HasFailed s k t := by
  obtain ⟨_, rfl⟩ := moveTo_eq_ok hmove
  exact h.enter hnow hstate

theorem explained (h : n.HasFailed s k t) (detail : Option String) :
    (n.explained detail).HasFailed s k t := by
  cases detail <;> exact h.congr rfl rfl rfl

theorem state_explained (n : Negotiation) (detail : Option String) :
    (n.explained detail).state = n.state := by
  cases detail <;> rfl

end Negotiation.HasFailed

/-! ## §2. What is written. -/

/-- Whether what is stored for an id failed in a state, so often at least and not before a time. -/
def World.Remembers (w : World) (id : String) (s : State) (k : Nat) (t : Instant) : Prop :=
  ∀ n, w.ledger.find? id = some n → n.HasFailed s k t

section Writing

variable {e : Engine} {w w' : World} {id : String} {s : State} {k : Nat} {t : Instant}
  {n m current : Negotiation}

theorem Ledger.state_of_state? {l : Ledger} (h : l.state? id = some s) (hn : l.find? id = some n) :
    n.state = s.code := by
  obtain ⟨m, hm, hstate⟩ := Ledger.state?_eq_some_iff.mp h
  obtain ⟨stored, hstored, rfl⟩ := Ledger.find?_of_content hm
  cases hn.symm.trans hstored
  exact hstate

theorem Ledger.stored_of_state? {l : Ledger} (h : l.state? id = some s) :
    ∃ n, l.find? id = some n := by
  obtain ⟨m, hm, _⟩ := Ledger.state?_eq_some_iff.mp h
  obtain ⟨stored, hstored, _⟩ := Ledger.find?_of_content hm
  exact ⟨stored, hstored⟩

namespace World.Remembers

theorem congr (h : w.Remembers id s k t) (hfind : w'.ledger.find? id = w.ledger.find? id) :
    w'.Remembers id s k t := by
  intro n hn
  rw [hfind] at hn
  exact h n hn

/-- A lease does not make a failure forgotten. -/
theorem free (h : w.Remembers id s k t) (other : String) : (w.free other).Remembers id s k t := by
  intro n hn
  rw [World.ledger_free, Ledger.find?_setLease] at hn
  split at hn
  · obtain ⟨stored, hstored, rfl⟩ := Option.map_eq_some_iff.mp hn
    exact (h stored hstored).congr rfl rfl rfl
  · exact h n hn

theorem commit (hid : m.id = id) (hm : m.state = s.code → m.HasFailed s k t) (kind : State)
    (hafter : (w.commit kind m).ledger.state? id = some s) :
    (w.commit kind m).Remembers id s k t := by
  have hput : (w.commit kind m).ledger.find? id = some (m.withLease none) := by
    rw [World.ledger_commit, Ledger.find?_put, if_pos]
    exact hid
  have hstate : (m.withLease none).state = s.code := Ledger.state_of_state? hafter hput
  intro n hn
  cases hput.symm.trans hn
  exact (hm hstate).congr rfl rfl rfl

/-- What is decided on a record that failed, if it stays in its state. -/
theorem decided (h : w.Remembers n.id s k t) (hnow : w.now.leap = false)
    (hn : n.HasFailed s k t) (target : State) (detail : Option String)
    (hafter : (Engine.decided w n target detail).2.ledger.state? n.id = some s) :
    (Engine.decided w n target detail).2.Remembers n.id s k t := by
  unfold Engine.decided at hafter ⊢
  cases hmove : n.moveTo target w.now with
  | error err => exact h.free n.id
  | ok m =>
    rw [hmove] at hafter
    refine commit (m := m.explained detail) ?_ (fun hstate => ?_) target hafter
    · rw [Negotiation.id_explained, Negotiation.id_of_moveTo hmove]
    · rw [Negotiation.HasFailed.state_explained] at hstate
      exact (hn.moved hnow hmove hstate).explained detail

/-- What is stored when a record that failed is begun, if it stays in its state. -/
theorem begin (h : w.Remembers n.id s k t) (hnow : w.now.leap = false)
    (hn : n.HasFailed s k t) (role : Role) (duty : Duty)
    (hafter : (e.begin .direct role duty n w).2.ledger.state? n.id = some s) :
    (e.begin .direct role duty n w).2.Remembers n.id s k t := by
  by_cases hshield : w.ledger.Shields n.id e.handle.holder w.now
  · have hbegin := e.begin_reach role duty n w
    generalize e.begin .direct role duty n w = result at hbegin ⊢
    cases hbegin with
    | done handled w' hw => exact h.congr (hw.shielded hshield)
    | sending f hf => exact h
  · rw [Engine.begin_of_not_shields hshield] at hafter ⊢
    by_cases hguard : e.guard n = true
    · rw [if_pos hguard]
      -- It is stored as it was leased.
      have hput : (w.ledger.put ((n.withPending true).withLease none)).find? n.id
          = some ((n.withPending true).withLease none) := by
        rw [Ledger.find?_put, if_pos]
        rfl
      intro stored hstored
      cases hput.symm.trans hstored
      exact hn.congr rfl rfl rfl
    · rw [if_neg hguard] at hafter ⊢
      unfold Engine.undertaken at hafter ⊢
      cases duty with
      | decide source target => exact h.decided hnow hn target none hafter
      | send message =>
        simp only at hafter ⊢
        cases hpayload : e.payloadFor message n w.now with
        | error reason =>
          rw [hpayload] at hafter
          exact h.decided hnow hn .terminated (some reason) hafter
        | ok payload =>
          simp only
          split
          · exact h.free n.id
          · exact h

/-- What a reply makes of a record that failed, if it stays in its state. -/
theorem turned (h : current.HasFailed s k t) {f : Flight} {now : Instant} {reply : Reply}
    {kind : State} (hnow : now.leap = false) (hturn : Engine.Turn e f current now reply kind m)
    (hstate : m.state = s.code) : m.HasFailed s k t := by
  cases hturn with
  | onward response hedge hset =>
    have hgained : (Engine.gained f current response).HasFailed s k t := by
      unfold Engine.gained Engine.correlate
      split
      · split
        · exact h.congr rfl rfl rfl
        · exact h
      · exact h.congr rfl rfl rfl
      · exact h
    exact hgained.enter hnow hstate
  | ended failure detail hedge hlast => exact (h.enter hnow hstate).congr rfl rfl rfl
  | again failure hedge hkind hmore => exact h.enter hnow hstate

/-- What is stored when a reply is dealt with, if the record stays in its state. -/
theorem land {f : Flight} (h : w.Remembers f.leased.id s k t) (hnow : w.now.leap = false)
    (role : Role) (reply : Reply)
    (hafter : (e.land .direct role f reply w).2.ledger.state? f.leased.id = some s) :
    (e.land .direct role f reply w).2.Remembers f.leased.id s k t := by
  by_cases hshield : w.ledger.Shields f.leased.id e.handle.holder w.now
  · exact h.congr ((Confined.land role f reply w).1.shielded hshield)
  · have hlanded := Engine.landed_of_not_shields hshield role reply
    generalize e.land .direct role f reply w = result at hafter hlanded ⊢
    obtain ⟨counts, w'⟩ := result
    cases hlanded with
    | gone _ hn => exact h
    | left n hn => exact h.free f.leased.id
    | moved kind n m hn hturn =>
      have hid : m.id = f.leased.id := hturn.enters.id.trans (Ledger.id_of_find? hn)
      exact commit hid (fun hstate => turned (h n hn) hnow hturn hstate) kind hafter

end World.Remembers

/-- A failure that is counted is recorded with the time at least. -/
theorem Engine.hasFailed_of_land {f : Flight} {failure : DispatchFailure} {role : Role}
    (hn : w.ledger.find? f.leased.id = some n)
    (hm : (e.land .direct role f (.failed failure) w).2.ledger.find? f.leased.id = some m)
    (hstate : m.state = f.sending.source.code) (hcount : m.stateCount = n.stateCount + 1)
    (hnow : w.now.leap = false) (hplain : n.stateTimestamp.leap = false) :
    m.HasFailed f.sending.source m.stateCount w.now := by
  by_cases hshield : w.ledger.Shields f.leased.id e.handle.holder w.now
  · -- The record is as it was.
    have hsame := (Confined.land (e := e) role f (.failed failure) w).1.shielded hshield
    rw [hn, hm] at hsame
    cases hsame
    omega
  · have hlanded := landed_of_not_shields hshield role (.failed failure)
    generalize (e.land .direct role f (.failed failure) w).1 = counts at hlanded
    generalize (e.land .direct role f (.failed failure) w).2 = w' at hlanded hm
    cases hlanded with
    | gone _ hnone =>
      cases hn.symm.trans hnone
    | left current hcurrent =>
      rw [World.ledger_free, Ledger.find?_setLease, if_pos rfl, hn] at hm
      cases hm
      exact absurd hcount (Nat.ne_of_lt (Nat.lt_succ_self n.stateCount))
    | moved kind current turned hcurrent hturn =>
      cases hn.symm.trans hcurrent
      have hid : turned.id = f.leased.id := hturn.enters.id.trans (Ledger.id_of_find? hn)
      have hname : (turned.withLease none).id = f.leased.id := hid
      rw [World.ledger_commit, Ledger.find?_put, if_pos hname] at hm
      cases hm
      cases hturn with
      | ended _ detail hedge hlast =>
        -- No message is due in TERMINATED.
        exfalso
        have hend : State.terminated = f.sending.source := State.code_injective hstate
        revert hend
        cases f.sending <;> decide
      | again _ hedge hkind hmore =>
        refine ⟨hstate, Nat.le_refl _, ?_, Instant.leap_later hplain hnow⟩
        show w.now ≤ n.stateTimestamp.later w.now
        rw [Instant.le_def, Instant.rank_later]
        omega

end Writing

/-! ## §3. What is leased. -/

/-- Whether what a round has ahead of it for an id failed in a state, so often at least and not
before a time, and is looked after for its state. -/
def Round.Recalls (r : Round) (id : String) (s : State) (k : Nat) (t : Instant) : Prop :=
  ∀ n ∈ r.ahead, n.id = id → n.HasFailed s k t ∧ r.duty.state = s

namespace Session

variable {e : Engine} {w : World} {r : Round} {id : String} {s : State} {k : Nat} {t : Instant}

/-- The state of a record that the criteria of a duty find. -/
theorem state_of_criteria {stored : Negotiation} {role : Role} {duty : Duty}
    (h : matchesAll stored (e.job role duty).criteria = .ok true) :
    stored.state = duty.state.code := by
  have hstate : evaluate stored (.hasState duty.state.code)
      = .ok (decide (stored.state = duty.state.code)) := by
    show Except.ok (valuesEqual (.int stored.state) (.int duty.state.code)) = _
    rw [valuesEqual_stateCode]
  by_cases hequal : stored.state = duty.state.code
  · exact hequal
  · exfalso
    have hfirst : matchesAll stored (e.job role duty).criteria = .ok false := by
      show matchesAll stored [.hasState duty.state.code, .isNotPending, .hasRole role] = _
      unfold matchesAll
      rw [hstate, decide_eq_false hequal]
    rw [hfirst] at h
    cases h

/-- What is leased is what is stored. -/
theorem lookAfter_recalls (h : w.Remembers id s k t) (role : Role) (duties : List Duty) :
    (lookAfter e w role duties).world.Remembers id s k t
      ∧ ∀ r, (lookAfter e w role duties).round = some r → r.Recalls id s k t := by
  cases duties with
  | nil => exact ⟨h, nofun⟩
  | cons duty later =>
    rw [lookAfter_cons]
    rcases e.lease_cases role duty w with hlease | ⟨batch, l, hnext, hlease⟩
    · rw [hlease]
      refine ⟨h, ?_⟩
      rintro _ ⟨⟩ n hn
      cases hn
    · rw [hlease]
      obtain ⟨hledger, _, hbatch⟩ := Ledger.nextNotLeased_eq_ok hnext
      refine ⟨?_, ?_⟩
      · intro n hn
        rw [World.ledger_withLedger, hledger, Ledger.find?_leaseEach] at hn
        split at hn
        · obtain ⟨stored, hstored, rfl⟩ := Option.map_eq_some_iff.mp hn
          exact (h stored hstored).congr rfl rfl rfl
        · exact h n hn
      · rintro _ ⟨⟩ n hn hid
        obtain ⟨stored, hstored, _, hmatches, rfl⟩ := hbatch n hn
        rw [hid] at hstored
        have hfailed := h stored hstored
        refine ⟨hfailed.congr rfl rfl rfl, ?_⟩
        exact State.code_injective ((state_of_criteria hmatches).symm.trans hfailed.state)

theorem world_beginOne (e : Engine) (w : World) (r : Round) (n : Negotiation)
    (rest : List Negotiation) :
    (beginOne e w r n rest).world = (e.begin .direct r.role r.duty n w).2 := by
  unfold beginOne
  generalize e.begin .direct r.role r.duty n w = result
  obtain ⟨begun, w'⟩ := result
  cases begun <;> rfl

theorem round_beginOne (e : Engine) (w : World) (r : Round) (n : Negotiation)
    (rest : List Negotiation) :
    ∃ airborne, (beginOne e w r n rest).round
      = some { r with ahead := rest, airborne := airborne } := by
  unfold beginOne
  generalize e.begin .direct r.role r.duty n w = result
  obtain ⟨begun, w'⟩ := result
  cases begun <;> exact ⟨_, rfl⟩

/-- A move of a round keeps what is stored and what is leased from the failure on, if the record
stays in its state. -/
theorem stepRound_recalls (h : w.Remembers id s k t) (hnow : w.now.leap = false)
    (hr : r.Recalls id s k t) (move : Move)
    (hafter : (stepRound e w r move).world.ledger.state? id = some s) :
    (stepRound e w r move).world.Remembers id s k t
      ∧ ∀ r', (stepRound e w r move).round = some r' → r'.Recalls id s k t := by
  have hstep := roundStep e w r move
  generalize stepRound e w r move = σ at hstep hafter ⊢
  cases hstep with
  | idle =>
    refine ⟨h, ?_⟩
    rintro _ ⟨⟩
    exact hr
  | begun n rest hmove hahead hroom =>
    refine ⟨?_, ?_⟩
    · rw [world_beginOne] at hafter ⊢
      by_cases hid : n.id = id
      · subst hid
        have hn := (hr n (hahead ▸ List.mem_cons_self) rfl).1
        exact h.begin hnow hn r.role r.duty hafter
      · have hbegin := e.begin_reach r.role r.duty n w
        generalize e.begin .direct r.role r.duty n w = result at hbegin ⊢
        cases hbegin with
        | done handled w' hw => exact h.congr (hw.others id (Ne.symm hid))
        | sending f hf => exact h
    · obtain ⟨airborne, hround⟩ := round_beginOne e w r n rest
      rw [hround]
      rintro _ ⟨⟩ m hm hid
      exact hr m (hahead ▸ List.mem_cons_of_mem n hm) hid
  | landed j reply hmove =>
    unfold landOne at hafter ⊢
    cases hj : r.airborne[j]? with
    | none =>
      refine ⟨h, ?_⟩
      rintro _ ⟨⟩
      exact hr
    | some f =>
      rw [hj] at hafter
      refine ⟨?_, ?_⟩
      · by_cases hid : f.leased.id = id
        · subst hid
          exact h.land hnow r.role reply hafter
        · exact h.congr ((Confined.land r.role f reply w).1.others id (Ne.symm hid))
      · rintro _ ⟨⟩
        exact hr
  | next hmove hdone => exact lookAfter_recalls h r.role r.later

/-- A move of a round leaves the clock alone. -/
theorem now_lookAfter (e : Engine) (w : World) (role : Role) (duties : List Duty) :
    (lookAfter e w role duties).world.now = w.now := by
  cases duties with
  | nil => rfl
  | cons duty later => exact ((Access.standing e.handle).passage.lease role duty).2 w

theorem now_stepRound (e : Engine) (w : World) (r : Round) (move : Move) :
    (stepRound e w r move).world.now = w.now := by
  have hstep := roundStep e w r move
  generalize stepRound e w r move = σ at hstep ⊢
  cases hstep with
  | idle => rfl
  | begun n rest hmove hahead hroom =>
    rw [world_beginOne]
    exact ((Access.standing e.handle).passage.begin r.role r.duty n).2 w
  | landed j reply hmove =>
    unfold landOne
    cases r.airborne[j]? with
    | none => rfl
    | some f => exact ((Access.standing e.handle).passage.land r.role f reply).2 w
  | next hmove hdone => exact now_lookAfter e w r.role r.later

end Session

/-- A call does not set the clock to a leap second. -/
theorem Call.leap_run (e : Engine) (w : World) (hnow : w.now.leap = false) (c : Call) :
    (c.run e w).now.leap = false := by
  have hkept {w' : World} (hw' : w'.now = w.now) : w'.now.leap = false := by
    rw [hw']
    exact hnow
  cases c with
  | initiate r => exact hkept (((Access.standing e.handle).passage.initiate r).2 w)
  | notify inlet m => exact hkept (((Access.standing e.handle).passage.notify inlet m).2 w)
  | terminate id reason => exact hkept (((Access.standing e.handle).passage.terminate id reason).2 w)
  | advance ms => exact Instant.leap_addMillis hnow ms

/-! ## §4. What is sent. -/

/-- A message's state has no other duty. -/
theorem Role.send_of_source {role : Role} {duty : Duty} {message : Sending}
    (hduty : duty ∈ role.duties) (hstate : duty.state = message.source) :
    duty = .send message := by
  have hall : ∀ duty ∈ role.duties, duty.state = message.source → duty = .send message := by
    cases role <;> cases message <;> decide
  exact hall duty hduty hstate

namespace Engine

variable {e : Engine} {w w' : World} {n : Negotiation} {role : Role}

/-- A message that can be made goes out, unless the record has to wait. -/
theorem take_of_payload {message : Sending} {payload : Payload}
    (hpayload : e.payloadFor message n w.now = .ok payload) :
    e.take .direct (.send message) n w
      = (if e.retry.shouldDelay n w.now = true then .concluded .unchanged
          else .inFlight ⟨message, n, .forNegotiation n payload⟩, w) := by
  unfold take
  simp only
  rw [run_bind, Access.direct_now]
  simp only [hpayload]
  cases e.retry.shouldDelay n w.now <;> rfl

/-- A message that cannot be made does not go out. -/
theorem take_of_no_payload {message : Sending} {reason : String}
    (hpayload : e.payloadFor message n w.now = .error reason) :
    ∃ verdict w', e.take .direct (.send message) n w = (.concluded verdict, w') := by
  unfold take
  simp only
  rw [run_bind, Access.direct_now]
  simp only [hpayload]
  exact ⟨_, _, rfl⟩

/-- A message is on its way only if the record does not have to wait. -/
theorem shouldDelay_of_sending {duty : Duty} {f : Flight}
    (h : e.begin .direct role duty n w = (.sending f, w')) :
    e.retry.shouldDelay n w.now = false := by
  unfold begin at h
  split at h
  · rw [run_bind] at h
    cases h
  · rw [run_bind] at h
    cases duty with
    | decide source target =>
      have htake : e.take .direct (.decide source target) n w
          = (.concluded (e.transition .direct n target w).1.verdict,
              (e.transition .direct n target w).2) := rfl
      rw [htake] at h
      cases h
    | send message =>
      cases hpayload : e.payloadFor message n w.now with
      | error reason =>
        obtain ⟨verdict, w'', htake⟩ := take_of_no_payload hpayload
        rw [htake] at h
        cases h
      | ok payload =>
        rw [take_of_payload hpayload] at h
        cases hdelay : e.retry.shouldDelay n w.now with
        | true =>
          rw [hdelay] at h
          cases h
        | false => rfl

/-- The message of a record that does not have to wait goes out. -/
theorem begin_of_not_shouldDelay {message : Sending} {payload : Payload}
    (hguard : e.guard n = false) (hpayload : e.payloadFor message n w.now = .ok payload)
    (hdelay : e.retry.shouldDelay n w.now = false) :
    e.begin .direct role (.send message) n w
      = (.sending ⟨message, n, .forNegotiation n payload⟩, w) := by
  unfold begin
  rw [hguard, if_neg Bool.false_ne_true, run_bind, take_of_payload hpayload, hdelay]
  rfl

end Engine

namespace Session

variable {e : Engine} {w : World} {r : Round} {id : String}

/-- How many messages about the record of an id are on their way in a session. -/
def sends (σ : Session) (id : String) : Nat :=
  match σ.round with
  | none => 0
  | some r => (r.airborne.map (·.leased.id)).count id

theorem sends_lookAfter (e : Engine) (w : World) (role : Role) (duties : List Duty) (id : String) :
    (lookAfter e w role duties).sends id = 0 := by
  cases duties <;> rfl

/-- Only what is begun adds to the messages that are on their way. -/
theorem sends_stepRound (e : Engine) (w : World) (r : Round) (move : Move) (id : String) :
    (stepRound e w r move).sends id ≤ (r.airborne.map (·.leased.id)).count id
      ∨ ∃ n rest f w', move = .begin ∧ r.ahead = n :: rest ∧ n.id = id
          ∧ e.begin .direct r.role r.duty n w = (.sending f, w') := by
  have hstep := roundStep e w r move
  generalize stepRound e w r move = σ at hstep ⊢
  cases hstep with
  | idle => exact .inl (Nat.le_refl _)
  | begun n rest hmove hahead hroom =>
    have hbegin := e.begin_reach r.role r.duty n w
    unfold beginOne
    cases hresult : e.begin .direct r.role r.duty n w with
    | mk begun w' =>
      rw [hresult] at hbegin
      cases hbegin with
      | done handled w' hw => exact .inl (Nat.le_refl _)
      | sending f hf =>
        by_cases hid : n.id = id
        · exact .inr ⟨n, rest, f, _, hmove, hahead, hid, hresult⟩
        · left
          show ((r.airborne ++ [f]).map (·.leased.id)).count id ≤ _
          rw [List.map_append, List.count_append, List.map_singleton, hf]
          have hother : [n.id].count id = 0 := List.count_eq_zero.mpr fun hin =>
            hid (List.mem_singleton.mp hin).symm
          omega
  | landed j reply hmove =>
    left
    unfold landOne
    cases hj : r.airborne[j]? with
    | none => exact Nat.le_refl _
    | some f =>
      show ((r.airborne.eraseIdx j).map (·.leased.id)).count id ≤ _
      exact (List.Sublist.map _ (List.eraseIdx_sublist _ _)).count_le _
  | next hmove hdone =>
    left
    rw [sends_lookAfter]
    exact Nat.zero_le _

end Session

/-! ## §5. Duties of a role. -/

/-- Whether the duty that a round looks after, and those to come, are its role's. -/
def Round.IsOrdinary (r : Round) : Prop :=
  ∀ duty ∈ r.duty :: r.later, duty ∈ r.role.duties

theorem Session.lookAfter_isOrdinary (e : Engine) (w : World) {role : Role} {duties : List Duty}
    (h : ∀ duty ∈ duties, duty ∈ role.duties) :
    ∀ r, (lookAfter e w role duties).round = some r → r.IsOrdinary := by
  cases duties with
  | nil => exact nofun
  | cons duty later =>
    rintro _ ⟨⟩
    exact h

theorem Session.stepRound_isOrdinary (e : Engine) (w : World) {r : Round} (h : r.IsOrdinary)
    (move : Move) : ∀ r', (stepRound e w r move).round = some r' → r'.IsOrdinary := by
  have hstep := roundStep e w r move
  generalize stepRound e w r move = σ at hstep ⊢
  cases hstep with
  | idle =>
    rintro _ ⟨⟩
    exact h
  | begun n rest hmove hahead hroom =>
    obtain ⟨airborne, hround⟩ := round_beginOne e w r n rest
    rw [hround]
    rintro _ ⟨⟩
    exact h
  | landed j reply hmove =>
    unfold landOne
    cases r.airborne[j]? with
    | none =>
      rintro _ ⟨⟩
      exact h
    | some f =>
      rintro _ ⟨⟩
      exact h
  | next hmove hdone =>
    exact lookAfter_isOrdinary e w fun duty hduty => h duty (List.mem_cons_of_mem _ hduty)

end Parley
