/-
  Parley.Proofs.Crew.Spacing
  ────────────────────────────────
  **HOW FAR APART SENDS ARE.**

  A send that failed is not repeated before its delay has passed since the
  failure was recorded, whichever engine repeats it and however the clock is set,
  and it is repeated by a tick that comes to the record after that
  (`sends_spaced`).  What is stored, and what ticks have leased since, has the
  count and the time of the failure at least (`IsSpaced`), and no delay is shorter
  after more failures.

  What was leased before the failure is another matter.  A tick goes on with the
  record as it was when it was leased, also when the lease has run out meanwhile
  and another engine has sent and failed.  And whether a record has to wait is
  seen when its turn comes, not when it is leased (`spacing_disturbed`).
-/
import Parley.Proofs.Crew.Exclusion
import Parley.Proofs.Engine.Setback

namespace Parley

open Parley.Retry

/-! ## §1. What every move keeps. -/

/-- An id that is known stays so whatever a tick does. -/
theorem World.Knows.claims {w : World} {id : String} {h : Handle} {ids : List String}
    {σ : Session} (hk : w.Knows id) (hstored : ∃ n, w.ledger.find? id = some n)
    (hclaims : σ.Claims h w ids) : σ.world.Knows id := by
  cases hclaims with
  | kept hids hw =>
    rw [hw]
    exact hk
  | dealt other hids hw =>
    by_cases hid : id = other
    · subst hid
      exact hk.reach hw hstored
    · exact hk.congr (hw.others id hid) hw.supply
  | taken hids hnodup hfree hledger hsupply =>
    obtain ⟨n, hn⟩ := hstored
    intro m hm k hlt
    rw [hsupply] at hlt ⊢
    exact hk n hn k hlt

/-- An id that was drawn is known. -/
theorem World.knows_name {w : World} {j : Nat} (h : j ≤ w.supply.drawn) :
    w.Knows (w.supply.name j) := by
  intro n hn k hlt hsame
  have hjk := w.supply.distinct hsame
  omega

/-- Whether neither the clock nor what is stored for an id tells of a leap second. -/
structure World.IsLeapless (w : World) (id : String) : Prop where
  clock : w.now.leap = false
  stored : ∀ n, w.ledger.find? id = some n → n.stateTimestamp.leap = false

/-- What goes on in a session when a message is answered or fails. -/
theorem Session.stepRound_land (e : Engine) (w : World) {r : Round} {m : Nat} {f : Flight}
    (hf : r.airborne[m]? = some f) (reply : Reply) :
    stepRound e w r (.land m reply)
      = ⟨(e.land .direct r.role f reply w).2,
          some { r with airborne := r.airborne.eraseIdx m }⟩ := by
  show landOne e w r m reply = _
  unfold landOne
  rw [hf]

/-- Whether a tick comes to a record whose message is due: the delay after the failures that the
record counts has passed, the guard does not hold the record back, and the message can be made. -/
structure Round.IsDue (r : Round) (e : Engine) (message : Sending) (n : Negotiation)
    (now : Instant) : Prop where
  next : ∃ rest, r.ahead = n :: rest
  room : r.airborne.length < e.maxConcurrent
  free : e.guard n = false
  made : ∃ payload, e.payloadFor message n now = .ok payload
  dated : n.stateTimestamp.isDate = true ∧ now.isDate = true
  passed : n.stateTimestamp.addMillis (e.retry.strategy.delay n.stateCount) ≤ now

namespace Crew

variable {ι : Type} {e : ι → Engine} {c : Crew ι} {id : String} {s : State} {k : Nat} {t : Instant}

/-- Whether in a move an engine is called about the record of an id. -/
def Asks (c : Crew ι) (id : String) : Move ι → Prop
  | .call _ call => call.subject? c.world = some id
  | _ => False

/-- Whether a record is in a state throughout a run, and no engine is called about it. -/
def IsStay (e : ι → Engine) (id : String) (s : State) : Crew ι → List (Move ι) → Prop
  | c, [] => c.world.ledger.state? id = some s
  | c, move :: moves =>
    c.world.ledger.state? id = some s ∧ ¬ c.Asks id move ∧ IsStay e id s (c.step e move) moves

instance (c : Crew ι) (id : String) : (move : Move ι) → Decidable (c.Asks id move)
  | .call _ call => inferInstanceAs (Decidable (call.subject? c.world = some id))
  | .start .. | .work .. => .isFalse False.elim

instance decidableIsStay (e : ι → Engine) (id : String) (s : State) :
    (c : Crew ι) → (moves : List (Move ι)) → Decidable (IsStay e id s c moves)
  | c, [] => inferInstanceAs (Decidable (c.world.ledger.state? id = some s))
  | c, move :: moves =>
    have := decidableIsStay e id s (c.step e move) moves
    inferInstanceAs (Decidable (_ ∧ _ ∧ _))

theorem IsStay.state {moves : List (Move ι)} (h : IsStay e id s c moves) :
    c.world.ledger.state? id = some s := by
  cases moves with
  | nil => exact h
  | cons move moves => exact h.1

/-- What holds of a crew after a failure: what is stored for an id failed in a state, so often at
least and not before a time, and so did what the ticks have leased. -/
structure IsSpaced (c : Crew ι) (id : String) (s : State) (k : Nat) (t : Instant) : Prop where
  known : c.world.Knows id
  clock : c.world.now.leap = false
  stored : c.world.Remembers id s k t
  leased : ∀ tick ∈ c.ticks, tick.round.Recalls id s k t

theorem round_of_mem_ticks {σ : Session} {i : ι} {tick : Tick ι} (h : tick ∈ σ.ticks i) :
    σ.round = some tick.round ∧ tick.worker = i := by
  unfold Session.ticks at h
  cases hr : σ.round with
  | none =>
    rw [hr] at h
    cases h
  | some r =>
    rw [hr] at h
    rw [List.mem_singleton.mp h]
    exact ⟨rfl, rfl⟩

/-- A move of a tick: the tick makes way for what goes on in its session. -/
theorem step_work {j : Nat} {tick : Tick ι} (htick : c.ticks[j]? = some tick) (move : Parley.Move) :
    c.step e (.work j move)
      = ⟨(Session.stepRound (e tick.worker) c.world tick.round move).world,
          c.ticks.take j
            ++ (Session.stepRound (e tick.worker) c.world tick.round move).ticks tick.worker
            ++ c.ticks.drop (j + 1)⟩ := by
  unfold Crew.step
  simp only [htick]

theorem step_work_of_none {j : Nat} (htick : c.ticks[j]? = none) (move : Parley.Move) :
    c.step e (.work j move) = c := by
  unfold Crew.step
  simp only [htick]

/-- What holds of all ticks after a move of one of them. -/
theorem forall_ticks_moved {P : Round → Prop} {σ : Session} {i : ι} {j : Nat}
    (hticks : ∀ tick ∈ c.ticks, P tick.round) (hσ : ∀ r, σ.round = some r → P r) :
    ∀ tick ∈ c.ticks.take j ++ σ.ticks i ++ c.ticks.drop (j + 1), P tick.round := by
  intro tick htick
  rcases List.mem_append.mp htick with htick | htick
  · rcases List.mem_append.mp htick with htick | htick
    · exact hticks tick (List.mem_of_mem_take htick)
    · exact hσ tick.round (round_of_mem_ticks htick).1
  · exact hticks tick (List.mem_of_mem_drop htick)

/-- Every move of a stay keeps it. -/
theorem IsSpaced.step (h : c.IsSpaced id s k t) (hstate : c.world.ledger.state? id = some s)
    {move : Move ι} (hquiet : ¬ c.Asks id move)
    (hafter : (c.step e move).world.ledger.state? id = some s) :
    (c.step e move).IsSpaced id s k t := by
  have hstored := Ledger.stored_of_state? hstate
  cases move with
  | call i call =>
    have hfind : (call.run (e i) c.world).ledger.find? id = c.world.ledger.find? id := by
      cases Call.contact (e i) c.world call with
      | nothing hledger hsupply => rw [hledger]
      | subject other n hid hn hw =>
        refine hw.others id fun hsame => hquiet ?_
        rw [hsame]
        exact hid
      | drawn hw =>
        obtain ⟨n, hn⟩ := hstored
        exact hw.others id (h.known.ne_nextId hn)
    exact ⟨h.known.call (e i) call, call.leap_run (e i) c.world h.clock, h.stored.congr hfind,
      h.leased⟩
  | start i role =>
    obtain ⟨hremembers, hrecalls⟩ := Session.lookAfter_recalls (e := e i) h.stored role role.duties
    refine ⟨h.known.claims hstored (Session.lookAfter_claims (e i) c.world role role.duties), ?_,
      hremembers, fun tick htick => ?_⟩
    · show (Session.lookAfter (e i) c.world role role.duties).world.now.leap = false
      rw [Session.now_lookAfter]
      exact h.clock
    · rcases List.mem_append.mp htick with htick | htick
      · exact h.leased tick htick
      · exact hrecalls tick.round (round_of_mem_ticks htick).1
  | work j move =>
    cases htick : c.ticks[j]? with
    | none =>
      rw [step_work_of_none htick]
      exact h
    | some tick =>
      rw [step_work htick] at hafter ⊢
      have hrecalls := h.leased tick (List.mem_of_getElem? htick)
      obtain ⟨hremembers, hround⟩ := Session.stepRound_recalls h.stored h.clock hrecalls move hafter
      refine ⟨h.known.claims hstored (Session.stepRound_claims _ _ _ _), ?_, hremembers,
        forall_ticks_moved h.leased hround⟩
      show (Session.stepRound (e tick.worker) c.world tick.round move).world.now.leap = false
      rw [Session.now_stepRound]
      exact h.clock

theorem IsSpaced.run (h : c.IsSpaced id s k t) {moves : List (Move ι)}
    (hstay : IsStay e id s c moves) : (c.run e moves).IsSpaced id s k t := by
  induction moves generalizing c with
  | nil => exact h
  | cons move moves ih =>
    obtain ⟨hstate, hquiet, hrest⟩ := hstay
    exact ih (h.step hstate hquiet hrest.state) hrest

theorem isOrdinary_step (h : ∀ tick ∈ c.ticks, tick.round.IsOrdinary) (move : Move ι) :
    ∀ tick ∈ (c.step e move).ticks, tick.round.IsOrdinary := by
  cases move with
  | call i call => exact h
  | start i role =>
    intro tick htick
    rcases List.mem_append.mp htick with htick | htick
    · exact h tick htick
    · exact Session.lookAfter_isOrdinary (e i) c.world (fun duty hduty => hduty) tick.round
        (round_of_mem_ticks htick).1
  | work j move =>
    cases htick : c.ticks[j]? with
    | none =>
      rw [step_work_of_none htick]
      exact h
    | some tick =>
      rw [step_work htick]
      refine forall_ticks_moved h ?_
      exact Session.stepRound_isOrdinary _ _ (h tick (List.mem_of_getElem? htick)) move

/-- Ticks look after the duties of their role. -/
theorem isOrdinary_run (h : ∀ tick ∈ c.ticks, tick.round.IsOrdinary) (moves : List (Move ι)) :
    ∀ tick ∈ (c.run e moves).ticks, tick.round.IsOrdinary := by
  induction moves generalizing c with
  | nil => exact h
  | cons move moves ih => exact ih (isOrdinary_step h move)

/-! ## §2. Sends that start. -/

theorem sends_append (w : World) (ticks ticks' : List (Tick ι)) (id : String) :
    (Crew.mk w (ticks ++ ticks')).sends id
      = (Crew.mk w ticks).sends id + (Crew.mk w ticks').sends id := by
  unfold sends
  rw [List.flatMap_append, List.count_append]

theorem sends_ticks (w : World) (σ : Session) (i : ι) (id : String) :
    (Crew.mk w (σ.ticks i)).sends id = σ.sends id := by
  unfold sends Session.ticks Session.sends
  cases σ.round with
  | none => rfl
  | some r => rw [List.flatMap_singleton]

theorem ticks_split {j : Nat} {tick : Tick ι} (htick : c.ticks[j]? = some tick) :
    c.ticks = c.ticks.take j ++ [tick] ++ c.ticks.drop (j + 1) := by
  obtain ⟨hlt, rfl⟩ := List.getElem?_eq_some_iff.mp htick
  simp

/-- The ticks that have a record before and after a move of one of them. -/
theorem claims_moved {j : Nat} {tick : Tick ι} (htick : c.ticks[j]? = some tick)
    (move : Parley.Move) (id : String) :
    (claims (c.step e (.work j move)).ticks).count id + tick.round.ids.count id
      = (claims c.ticks).count id
        + (Session.stepRound (e tick.worker) c.world tick.round move).ids.count id := by
  have hone : claims [tick] = tick.round.ids := List.flatMap_singleton ..
  have hbefore := congrArg (fun ticks => (claims ticks).count id) (ticks_split htick)
  simp only [count_claims_append, hone] at hbefore
  rw [step_work htick, count_claims_append, claims_ticks]
  omega

/-- The messages that are on their way before and after a move of a tick. -/
theorem sends_moved {j : Nat} {tick : Tick ι} (htick : c.ticks[j]? = some tick)
    (move : Parley.Move) (id : String) :
    (c.step e (.work j move)).sends id + (tick.round.airborne.map (·.leased.id)).count id
      = c.sends id + (Session.stepRound (e tick.worker) c.world tick.round move).sends id := by
  have hticks := ticks_split htick
  have hbefore : c.sends id = (Crew.mk c.world (c.ticks.take j)).sends id
      + (tick.round.airborne.map (·.leased.id)).count id
      + (Crew.mk c.world (c.ticks.drop (j + 1))).sends id := by
    show (Crew.mk c.world c.ticks).sends id = _
    rw [hticks, sends_append, sends_append, ← hticks]
    have hone : (Crew.mk c.world [tick]).sends id
        = (tick.round.airborne.map (·.leased.id)).count id := by
      unfold sends
      rw [List.flatMap_singleton]
    rw [hone]
  have hafter : (c.step e (.work j move)).sends id = (Crew.mk c.world (c.ticks.take j)).sends id
      + (Session.stepRound (e tick.worker) c.world tick.round move).sends id
      + (Crew.mk c.world (c.ticks.drop (j + 1))).sends id := by
    rw [step_work htick, sends_append, sends_append, sends_ticks]
    rfl
  omega

/-- A send starts when a tick begins the record. -/
theorem begins_of_sends {move : Move ι} (h : c.sends id < (c.step e move).sends id) :
    ∃ j tick n f w', move = .work j .begin ∧ c.ticks[j]? = some tick ∧ n ∈ tick.round.ahead
      ∧ n.id = id ∧ (e tick.worker).begin .direct tick.round.role tick.round.duty n c.world
        = (.sending f, w') := by
  cases move with
  | call i call => exact absurd h (Nat.lt_irrefl _)
  | start i role =>
    exfalso
    have hsame : (c.step e (.start i role)).sends id = c.sends id + 0 := by
      show (Crew.mk _ (c.ticks ++ Session.ticks _ i)).sends id = _
      rw [sends_append, sends_ticks, Session.sends_lookAfter]
      rfl
    omega
  | work j move =>
    cases htick : c.ticks[j]? with
    | none =>
      rw [step_work_of_none htick] at h
      exact absurd h (Nat.lt_irrefl _)
    | some tick =>
      have hmoved := sends_moved (e := e) htick move id
      rcases Session.sends_stepRound (e tick.worker) c.world tick.round move id with
        hle | ⟨n, rest, f, w', rfl, hahead, hid, hbegin⟩
      · omega
      · exact ⟨j, tick, n, f, w', rfl, htick, hahead ▸ List.mem_cons_self, hid, hbegin⟩

/-- A tick that comes to a record whose message is due sends it. -/
theorem sends_begin {j : Nat} {tick : Tick ι} {n : Negotiation} {message : Sending}
    (htick : c.ticks[j]? = some tick) (hduty : tick.round.duty = .send message)
    (hdue : tick.round.IsDue (e tick.worker) message n c.world.now) :
    (c.step e (.work j .begin)).sends n.id = c.sends n.id + 1 := by
  obtain ⟨rest, hahead⟩ := hdue.next
  obtain ⟨payload, hpayload⟩ := hdue.made
  have hroom := hdue.room
  have hdelay := RetryPolicy.shouldDelay_of_isPast
    (RetryPolicy.isPast_of_passed hdue.dated.1 hdue.dated.2 hdue.passed)
  have hmoved := sends_moved (e := e) htick .begin n.id
  have hbegun : Session.stepRound (e tick.worker) c.world tick.round .begin
      = ⟨c.world, some { tick.round with
          ahead := rest
          airborne := tick.round.airborne ++ [⟨message, n, .forNegotiation n payload⟩] }⟩ := by
    unfold Session.stepRound
    simp only [hahead, if_pos hroom]
    unfold Session.beginOne
    rw [hduty, Engine.begin_of_not_shouldDelay hdue.free hpayload hdelay]
  have hone : (Session.stepRound (e tick.worker) c.world tick.round .begin).sends n.id
      = (tick.round.airborne.map (·.leased.id)).count n.id + 1 := by
    rw [hbegun]
    show (List.map (fun f : Flight => f.leased.id) (tick.round.airborne ++ [_])).count n.id = _
    rw [List.map_append, List.count_append, List.map_singleton, List.count_singleton_self]
  omega

/-! ## §3. The failure. -/

/-- A message that is on its way in a tick. -/
def flight? (c : Crew ι) (j m : Nat) : Option Flight :=
  c.ticks[j]?.bind fun tick => tick.round.airborne[m]?

/-- Whether in a move a message about the record of an id fails and may be sent again. -/
def Fails (c : Crew ι) (id : String) (message : Sending) : Move ι → Prop
  | .work j (.land m (.failed failure)) => failure.isFatal = false
      ∧ (c.flight? j m).map (fun f => (f.leased.id, f.sending)) = some (id, message)
  | _ => False

/-- Whether such a failure is recorded: the record has failed once more in the message's state, and
so often by now. -/
structure Records (e : ι → Engine) (c : Crew ι) (id : String) (message : Sending) (k : Nat)
    (move : Move ι) : Prop where
  fails : c.Fails id message move
  before : (c.world.ledger.find? id).map (·.stateCount + 1) = some k
  after : ((c.step e move).world.ledger.find? id).map (fun n => (n.state, n.stateCount))
    = some (message.source.code, k)

instance (c : Crew ι) (id : String) (message : Sending) :
    (move : Move ι) → Decidable (c.Fails id message move)
  | .work _ (.land _ (.failed _)) => inferInstanceAs (Decidable (_ ∧ _))
  | .call .. | .start .. | .work _ (.call _) | .work _ (.start _) | .work _ .begin
  | .work _ .next | .work _ (.land _ (.answered _)) | .work _ (.land _ .panicked) =>
    .isFalse False.elim

variable {message : Sending} {move : Move ι}

theorem records_iff : c.Records e id message k move ↔ c.Fails id message move
    ∧ (c.world.ledger.find? id).map (·.stateCount + 1) = some k
    ∧ ((c.step e move).world.ledger.find? id).map (fun n => (n.state, n.stateCount))
      = some (message.source.code, k) :=
  ⟨fun h => ⟨h.fails, h.before, h.after⟩, fun h => ⟨h.1, h.2.1, h.2.2⟩⟩

instance (e : ι → Engine) (c : Crew ι) (id : String) (message : Sending) (k : Nat)
    (move : Move ι) : Decidable (c.Records e id message k move) :=
  decidable_of_iff' _ records_iff

theorem Records.pos (h : c.Records e id message k move) : 0 < k := by
  obtain ⟨n, _, rfl⟩ := Option.map_eq_some_iff.mp h.before
  exact Nat.succ_pos _

/-- Right after a failure what is stored has its count and its time at least, and no tick has the
record, if none had it but the one whose message failed. -/
theorem Records.isSpaced (h : c.Records e id message k move) (hknown : c.world.Knows id)
    (halone : (claims c.ticks).count id ≤ 1) (hplain : c.world.IsLeapless id) :
    (c.step e move).IsSpaced id message.source k c.world.now := by
  have hfails := h.fails
  have hafter := h.after
  unfold Fails at hfails
  split at hfails
  · rename_i j m failure
    obtain ⟨f, hflight, hf⟩ := Option.map_eq_some_iff.mp hfails.2
    obtain ⟨tick, htick, hairborne⟩ := Option.bind_eq_some_iff.mp hflight
    obtain ⟨n, hn, hk⟩ := Option.map_eq_some_iff.mp h.before
    obtain ⟨n', hn', hmarks⟩ := Option.map_eq_some_iff.mp hafter
    cases hf
    cases hk
    obtain ⟨hstate, hcount⟩ := Prod.mk.inj hmarks
    have hland := Session.stepRound_land (e tick.worker) c.world hairborne (.failed failure)
    refine ⟨?_, ?_, ?_, ?_⟩
    · rw [step_work htick]
      exact hknown.claims ⟨n, hn⟩ (Session.stepRound_claims _ _ _ _)
    · rw [step_work htick]
      show (Session.stepRound (e tick.worker) c.world tick.round _).world.now.leap = false
      rw [Session.now_stepRound]
      exact hplain.clock
    · intro stored hstored
      cases hn'.symm.trans hstored
      rw [step_work htick, hland] at hn'
      rw [← hcount]
      exact Engine.hasFailed_of_land hn hn' hstate hcount hplain.clock (hplain.stored n hn)
    · have hmoved := claims_moved (e := e) htick (.land m (.failed failure)) f.leased.id
      have hids := ((Round.members_perm hairborne).map (·.id)).count_eq f.leased.id
      rw [List.map_cons, List.count_cons_self] at hids
      have hnone : (claims (c.step e (.work j (.land m (.failed failure)))).ticks).count f.leased.id
          = 0 := by
        rw [hland] at hmoved
        unfold Session.ids Round.ids at hmoved
        dsimp only at hmoved
        omega
      intro other hother ahead hahead hid
      refine absurd (mem_claims.mpr ⟨other, hother, ?_⟩) (List.count_eq_zero.mp hnone)
      exact List.mem_map.mpr ⟨ahead, List.mem_append_left _ hahead, hid⟩
  · exact hfails.elim

/-! ## §4. Spacing. -/

/-- How sends follow on a failure: none starts before its engine's delay after so many failures has
passed since the failure was recorded, and a tick that comes to the record when its message is due
sends it. -/
structure IsPaced (e : ι → Engine) (c : Crew ι) (id : String) (message : Sending) (k : Nat)
    (t : Instant) : Prop where
  apart : ∀ move, c.sends id < (c.step e move).sends id → ∃ j tick, move = .work j .begin
    ∧ c.ticks[j]? = some tick ∧ (e tick.worker).retry.IsPast k t c.world.now
  taken : ∀ j tick n, c.ticks[j]? = some tick → n.id = id →
    tick.round.IsDue (e tick.worker) message n c.world.now →
    (c.step e (.work j .begin)).sends id = c.sends id + 1

theorem IsSpaced.isPaced (h : c.IsSpaced id message.source k t) (hk : 0 < k)
    (ht : t.leap = false) (hordinary : ∀ tick ∈ c.ticks, tick.round.IsOrdinary) :
    c.IsPaced e id message k t where
  apart := by
    intro move hsends
    obtain ⟨j, tick, n, f, w', rfl, htick, hn, hid, hbegin⟩ := begins_of_sends hsends
    have hfailed := (h.leased tick (List.mem_of_getElem? htick) n hn hid).1
    have hcount := hfailed.count
    have hdelay := Engine.shouldDelay_of_sending hbegin
    have hpast := RetryPolicy.isPast_of_shouldDelay (by omega) hdelay
    exact ⟨j, tick, rfl, htick, hpast.mono hcount hfailed.stamp ht hfailed.plain⟩
  taken := by
    rintro j tick n htick rfl hdue
    obtain ⟨rest, hahead⟩ := hdue.next
    have hmem := List.mem_of_getElem? htick
    have hn : n ∈ tick.round.ahead := hahead ▸ List.mem_cons_self
    -- The record is in the message's state, and its role has no other duty there.
    have hduty : tick.round.duty = .send message :=
      Role.send_of_source (hordinary tick hmem _ List.mem_cons_self) (h.leased tick hmem n hn rfl).2
    exact sends_begin htick hduty hdue

/-- Let a message fail about a record that no other tick has, and let the failure be recorded, at a
time and on a record that have nothing to do with a leap second.  As
long as the record stays in its state and no engine is called about it, whatever else the engines do
and however the clock is set, no message about it starts before the delay has passed, and a tick
that comes to the record later sends one. -/
theorem sends_spaced (e : ι → Engine) (c : Crew ι) (hticks : c.ticks = []) (before : List (Move ι))
    (id : String) (message : Sending) (k : Nat) (failure : Move ι)
    (hknown : (c.run e before).world.Knows id)
    (halone : (claims (c.run e before).ticks).count id ≤ 1)
    (hplain : (c.run e before).world.IsLeapless id)
    (hrecords : (c.run e before).Records e id message k failure) (moves : List (Move ι))
    (hstay : IsStay e id message.source ((c.run e before).step e failure) moves) :
    (((c.run e before).step e failure).run e moves).IsPaced e id message k
      (c.run e before).world.now := by
  have hordinary : ∀ tick ∈ c.ticks, tick.round.IsOrdinary := by
    rw [hticks]
    exact nofun
  have hlater := isOrdinary_run (e := e)
    (isOrdinary_step (e := e) (isOrdinary_run (e := e) hordinary before) failure) moves
  have hspaced := hrecords.isSpaced hknown halone hplain
  exact (hspaced.run hstay).isPaced hrecords.pos hplain.clock hlater

/-- Two engines that wait a second before they send again. -/
def unhurried : Bool → Engine
  | false => ⟨"a", "http://a", 10, 1, ⟨7, .fixed 1000⟩, ⟨"a", 60000⟩, fun _ => false⟩
  | true => ⟨"b", "http://b", 10, 1, ⟨7, .fixed 1000⟩, ⟨"b", 60000⟩, fun _ => false⟩

/-- A wish to negotiate. -/
def asWished : Call :=
  .initiate ⟨"provider", "http://provider", "dsp", ⟨"offer", "asset", "provider", {}⟩⟩

/-- A reply that never came. -/
def lost : Reply :=
  .failed ⟨.retryable, "lost"⟩

/-- Engine "a" sends a request. -/
def untilLost : List (Move Bool) :=
  [.call false asWished, .start false .consumer, .work 0 .begin, .work 0 .next, .work 0 .begin]

/-- The clock is set back, and engine "b" comes to the request too early; then the clock is set
forward, and "b" comes to it again. -/
def untilDue : List (Move Bool) :=
  [.call true (.advance (-500)), .start true .consumer, .work 1 .next, .work 1 .begin,
   .call true (.advance 1500), .start true .consumer, .work 2 .next]

/-- The request is sent again when a second has passed since it was lost, and not earlier. -/
theorem sent_again_when_due :
    let c := newCrew.run unhurried untilLost
    let later := (c.step unhurried (.work 0 (.land 0 lost))).run unhurried untilDue
    c.Records unhurried "gen-0001" .request 1 (.work 0 (.land 0 lost))
      ∧ c.world.IsLeapless "gen-0001"
      ∧ IsStay unhurried "gen-0001" .requesting (c.step unhurried (.work 0 (.land 0 lost))) untilDue
      ∧ later.IsPaced unhurried "gen-0001" .request 1 c.world.now
      ∧ later.sends "gen-0001" = 0
      ∧ (later.step unhurried (.work 2 .begin)).sends "gen-0001" = 1 := by
  have hknown : (newCrew.run unhurried untilLost).world.Knows "gen-0001" := by
    have hfirst : (newCrew.run unhurried untilLost).world.supply.name 1 = "gen-0001" := by
      decide +kernel
    rw [← hfirst]
    exact World.knows_name (by decide +kernel)
  have hrecords : (newCrew.run unhurried untilLost).Records unhurried "gen-0001" .request 1
      (.work 0 (.land 0 lost)) := by decide +kernel
  have hstay : IsStay unhurried "gen-0001" .requesting
      ((newCrew.run unhurried untilLost).step unhurried (.work 0 (.land 0 lost))) untilDue := by
    decide +kernel
  have hplain : (newCrew.run unhurried untilLost).world.IsLeapless "gen-0001" := by
    refine ⟨by decide +kernel, ?_⟩
    decide +kernel
  have hpaced := sends_spaced unhurried newCrew rfl untilLost "gen-0001" .request 1
    (.work 0 (.land 0 lost)) hknown (by decide +kernel) hplain hrecords untilDue hstay
  exact ⟨hrecords, hplain, hstay, hpaced, by decide +kernel, by decide +kernel⟩

/-! ## §5. Sends out of time. -/

/-- What a tick has ahead of it: the records with how often they failed, and when last. -/
def ahead (c : Crew ι) (j : Nat) : List (String × Nat × Instant) :=
  match c.ticks[j]? with
  | none => []
  | some tick => tick.round.ahead.map fun n => (n.id, n.stateCount, n.stateTimestamp)

/-- Engine "a" takes two requests and sends the first.  A minute later, with the leases run out, "b"
takes and sends both. -/
def untilTakenTwice : List (Move Bool) :=
  [.call false asWished, .call false asWished, .start false .consumer, .work 0 .begin,
   .work 0 .begin, .work 0 .next, .work 0 .begin, .call true (.advance 60001),
   .start true .consumer, .work 1 .next, .work 1 .begin, .work 1 (.land 0 (.answered (.object []))),
   .work 1 .begin]

/-- The first request of "a" is answered, too. -/
def untilAnswered : List (Move Bool) :=
  [.work 0 (.land 0 (.answered (.object [])))]

/-- Engine "a" takes two requests and loses the first. -/
def untilFirstLost : List (Move Bool) :=
  [.call false asWished, .call false asWished, .start false .consumer, .work 0 .begin,
   .work 0 .begin, .work 0 .next, .work 0 .begin, .work 0 (.land 0 lost), .work 0 .begin]

/-- A second later "a" takes requests again. -/
def untilTakenAgain : List (Move Bool) :=
  [.call false (.advance 1000), .start false .consumer, .work 1 .next]

/-- While it sends the first of them the clock is set back. -/
def untilSetBack : List (Move Bool) :=
  [.work 1 .begin, .call false (.advance (-500)), .work 1 (.land 0 (.answered (.object [])))]

/-- The two engines, of which "b" holds the first negotiation back. -/
def watchful (i : Bool) : Engine :=
  { unhurried i with guard := fun n => i && n.id = "gen-0001" }

/-- A second after a failure "b" takes requests. -/
def untilTakenByOther : List (Move Bool) :=
  [.call true (.advance 1000), .start true .consumer, .work 1 .next]

/-- A request that failed a second ago, and has no offer. -/
def offerless : Crew Bool :=
  let n := Negotiation.new "n" .consumer "provider" "http://provider" "dsp" (.ofMillis 0)
  ⟨⟨Ledger.empty.put { n with state := State.requesting.code, stateCount := 1 },
    .ofMillis 1000, .counted, []⟩, []⟩

/-- A request that was made within a leap second.  The clock has gone back to the second before. -/
def leaping : Crew Bool :=
  let n := (Negotiation.new "n" .consumer "provider" "http://provider" "dsp" (.ofMillis 0)).addOffer
    ⟨"offer", "asset", "provider", {}⟩
  ⟨⟨Ledger.empty.put { n with
      state := State.requesting.code, stateTimestamp := ⟨1483228800100000000, true⟩ },
    ⟨1483228799900000000, false⟩, .counted, []⟩, []⟩

/-- Engine "a" sends it. -/
def untilLeapt : List (Move Bool) :=
  [.start false .consumer, .work 0 .next, .work 0 .begin]

/-- Six tenths of a second after it was lost "b" takes it. -/
def untilTakenSoon : List (Move Bool) :=
  [.call true (.advance 600), .start true .consumer, .work 1 .next]

/-- Sends that come too early, and sends that do not come.  One engine loses a request, and another
that took it before sends it at once.  The clock is set back between the taking of a request and its
turn.  A guard holds the request back.  There is no offer to send.  And the delay is counted from
within a leap second, which is not a part of it, while the failure came before. -/
theorem spacing_disturbed :
    (let c := newCrew.run unhurried untilTakenTwice
      let later := (c.step unhurried (.work 1 (.land 0 lost))).run unhurried untilAnswered
      c.Records unhurried "gen-0002" .request 1 (.work 1 (.land 0 lost))
        ∧ IsStay unhurried "gen-0002" .requesting (c.step unhurried (.work 1 (.land 0 lost)))
            untilAnswered
        ∧ (∀ i, later.world.now < c.world.now.addMillis ((unhurried i).retry.strategy.delay 1))
        ∧ later.sends "gen-0002" = 0
        ∧ (later.step unhurried (.work 0 .begin)).sends "gen-0002" = 1)
    ∧ (let c := newCrew.run unhurried untilFirstLost
      let taken := (c.step unhurried (.work 0 (.land 0 lost))).run unhurried untilTakenAgain
      let later := taken.run unhurried untilSetBack
      c.Records unhurried "gen-0002" .request 1 (.work 0 (.land 0 lost))
        ∧ IsStay unhurried "gen-0002" .requesting (c.step unhurried (.work 0 (.land 0 lost)))
            (untilTakenAgain ++ untilSetBack)
        ∧ taken.ahead 1 = [("gen-0001", 1, c.world.now), ("gen-0002", 1, c.world.now)]
        ∧ c.world.now.addMillis ((unhurried false).retry.strategy.delay 1) ≤ taken.world.now
        ∧ later.ahead 1 = [("gen-0002", 1, c.world.now)]
        ∧ (later.step unhurried (.work 1 .begin)).ahead 1 = []
        ∧ (later.step unhurried (.work 1 .begin)).sends "gen-0002" = 0)
    ∧ (let c := newCrew.run watchful untilLost
      let taken := (c.step watchful (.work 0 (.land 0 lost))).run watchful untilTakenByOther
      c.Records watchful "gen-0001" .request 1 (.work 0 (.land 0 lost))
        ∧ IsStay watchful "gen-0001" .requesting (c.step watchful (.work 0 (.land 0 lost)))
            untilTakenByOther
        ∧ taken.ahead 1 = [("gen-0001", 1, c.world.now)]
        ∧ c.world.now.addMillis ((watchful true).retry.strategy.delay 1) ≤ taken.world.now
        ∧ (taken.step watchful (.work 1 .begin)).ahead 1 = []
        ∧ (taken.step watchful (.work 1 .begin)).sends "gen-0001" = 0)
    ∧ (let taken := offerless.run unhurried [.start false .consumer, .work 0 .next]
      taken.ahead 0 = [("n", 1, .ofMillis 0)]
        ∧ (Instant.ofMillis 0).addMillis ((unhurried false).retry.strategy.delay 1)
          ≤ taken.world.now
        ∧ (taken.step unhurried (.work 0 .begin)).ahead 0 = []
        ∧ (taken.step unhurried (.work 0 .begin)).sends "n" = 0)
    ∧ (let c := leaping.run unhurried untilLeapt
      let later := (c.step unhurried (.work 0 (.land 0 lost))).run unhurried untilTakenSoon
      c.Records unhurried "n" .request 1 (.work 0 (.land 0 lost))
        ∧ IsStay unhurried "n" .requesting (c.step unhurried (.work 0 (.land 0 lost))) untilTakenSoon
        ∧ (∀ i, later.world.now < c.world.now.addMillis ((unhurried i).retry.strategy.delay 1))
        ∧ later.sends "n" = 0
        ∧ (later.step unhurried (.work 1 .begin)).sends "n" = 1) := by
  refine ⟨?early, ?setBack, ?held, ?empty, ?leapt⟩
  case early => decide +kernel
  case setBack => decide +kernel
  case held => decide +kernel
  case empty => decide +kernel
  case leapt => decide +kernel

end Crew

end Parley
