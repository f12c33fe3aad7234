/-
  Parley.Proofs.Engine.Reply
  ────────────────────────────────
  **REPLIES THAT COME TOO LATE.**

  While a message is on its way the negotiation can be terminated, by either
  side, and nothing else can happen to it (`Round.IsAwaited`).  A reply that
  comes after that is too late: it only ends the lease.  The exception is a
  failure that ends the attempts at the send.  It ends a negotiation that was to
  be terminated as well, with the failure as the reason, and so the counter
  party is not told of the termination (`late_reply_ends_terminating_only`).
-/
import Parley.Proofs.Engine.Graph

namespace Parley

/-! ## §1. What a late reply makes of a record. -/

namespace Engine

variable {e : Engine} {w : World}

/-- Why a negotiation ends by a reply that ends the attempts at a send. -/
def lastWord? (e : Engine) (f : Flight) (n : Negotiation) : Reply → Option String
  | .failed failure =>
    if failure.isFatal then some failure.message
    else if e.retry.isExhausted n then some (givenUp f failure)
    else none
  | _ => none

/-- A failure that ends the attempts ends the negotiation, in whatever state it is. -/
theorem upshot_of_lastWord {f : Flight} {n : Negotiation} {now : Instant} {reply : Reply}
    {detail : String} (h : e.lastWord? f n reply = some detail) :
    e.upshot f n now reply
      = toward .terminated ((n.moveTo .terminated now).map (·.explained detail)) := by
  cases reply with
  | answered response => cases h
  | panicked => cases h
  | failed failure =>
    unfold lastWord? at h
    unfold upshot
    simp only at h ⊢
    split at h
    · rename_i hfatal
      cases h
      rw [if_pos hfatal]
    · rename_i hfatal
      split at h
      · rename_i hlast
        cases h
        rw [if_neg hfatal, if_pos hlast]
      · cases h

/-- From TERMINATING only the termination leads on. -/
theorem not_canMoveTo_target {message : Sending} (hne : State.terminating ≠ message.source) :
    State.terminating.canMoveTo message.target = false := by
  cases message <;> first
    | rfl
    | exact absurd rfl hne

/-- Other replies make nothing of a record that is to be terminated, unless it is the reply to the
termination. -/
theorem upshot_of_terminating {f : Flight} {n : Negotiation}
    (hstate : n.state = State.terminating.code) (hleft : n.state ≠ f.sending.source.code)
    {reply : Reply} (hlast : e.lastWord? f n reply = none) (now : Instant) :
    e.upshot f n now reply = none := by
  have hne : State.terminating ≠ f.sending.source := by
    intro h
    exact hleft (hstate.trans (congrArg State.code h))
  -- There is no edge to the state that the reply would lead to.
  have hedge {b : State} (h : n.checkEdge b = .ok ()) : State.terminating.canMoveTo b = true := by
    obtain ⟨a, ha, hab⟩ := Negotiation.checkEdge_eq_ok_iff.mp h
    rwa [State.code_injective (hstate.symm.trans ha)]
  cases hup : e.upshot f n now reply with
  | none => rfl
  | some moved =>
    obtain ⟨kind, n'⟩ := moved
    cases turn_of_upshot hup with
    | onward response hcheck hset =>
      have := hedge hcheck
      rw [not_canMoveTo_target hne] at this
      cases this
    | ended failure detail hcheck hends =>
      unfold lastWord? at hlast
      simp only at hlast
      rcases hends with hends | hends
      · rw [if_pos hends] at hlast
        cases hlast
      · rw [if_pos hends] at hlast
        split at hlast <;> cases hlast
    | again failure hcheck hkind hmore =>
      have := hedge hcheck
      rw [Session.not_canMoveTo_source (.inl rfl) hne] at this
      cases this

/-- A failure that ends the attempts ends a record that was to be terminated. -/
theorem landed_of_lastWord {f : Flight} {n : Negotiation}
    (hn : w.ledger.find? f.leased.id = some n) (hstate : n.state = State.terminating.code)
    {reply : Reply} {detail : String} (hlast : e.lastWord? f n reply = some detail) :
    (e.landed w f reply).2
      = w.commit .terminated ((n.enter State.terminated.code w.now).withErrorDetail detail) := by
  have hedge : n.checkEdge .terminated = .ok () :=
    Negotiation.checkEdge_eq_ok_iff.mpr ⟨_, hstate, rfl⟩
  unfold landed
  rw [hn]
  simp only
  rw [upshot_of_lastWord hlast, moveTo_of_checkEdge hedge]
  rfl

/-- What is TERMINATED stays so, whatever the reply. -/
theorem upshot_of_terminated {f : Flight} {n : Negotiation}
    (hstate : n.state = State.terminated.code) (now : Instant) (reply : Reply) :
    e.upshot f n now reply = none := by
  cases hup : e.upshot f n now reply with
  | none => rfl
  | some moved =>
    obtain ⟨a, b, ha, _, hedge⟩ := (turn_of_upshot hup).moves
    rw [← State.code_injective (hstate.symm.trans ha), State.canMoveTo_of_isFinal rfl] at hedge
    cases hedge

/-- Any other late reply ends the lease. -/
theorem landed_of_late {f : Flight} {n : Negotiation}
    (hn : w.ledger.find? f.leased.id = some n) (hleft : n.state ≠ f.sending.source.code)
    {reply : Reply} (hlate : n.state = State.terminated.code
      ∨ n.state = State.terminating.code ∧ e.lastWord? f n reply = none) :
    (e.landed w f reply).2 = w.free f.leased.id := by
  have hup : e.upshot f n w.now reply = none := by
    rcases hlate with hstate | ⟨hstate, hlast⟩
    · exact upshot_of_terminated hstate w.now reply
    · exact upshot_of_terminating hstate hleft hlast w.now
  unfold landed
  rw [hn]
  simp only
  rw [hup]

/-- A reply is about one record. -/
theorem find?_landed_of_ne {f : Flight} {n : Negotiation}
    (hn : w.ledger.find? f.leased.id = some n) {id : String} (hne : f.leased.id ≠ id)
    (reply : Reply) : (e.landed w f reply).2.ledger.find? id = w.ledger.find? id := by
  unfold landed
  rw [hn]
  simp only
  cases hup : e.upshot f n w.now reply with
  | none =>
    simp only
    rw [World.ledger_free, Ledger.find?_setLease, if_neg (Ne.symm hne)]
  | some moved =>
    have hid : (moved.2.withLease none).id = f.leased.id :=
      (turn_of_upshot hup).id.trans (Ledger.id_of_find? hn)
    simp only
    rw [World.ledger_commit, Ledger.find?_put, if_neg (hid ▸ hne)]

end Engine

/-! ## §2. What can happen while a message is on its way. -/

/-- The records whose messages are on their way are in the messages' states, or have been
terminated, or are to be. -/
def Round.IsAwaited (r : Round) (l : Ledger) : Prop :=
  ∀ f ∈ r.airborne, ∀ current, l.content f.leased.id = some current → current.Awaits f.sending

/-- What holds of the messages on their way throughout a run. -/
def Session.IsAwaited (s : Session) : Prop :=
  ∀ r, s.round = some r → r.IsAwaited s.world.ledger

namespace Session

variable {s : Session} {e : Engine} {r : Round}

theorem IsFresh.isAwaited (h : s.IsFresh) : s.IsAwaited := by
  intro r hr
  rw [h.2] at hr
  cases hr

/-- When a batch is leased no message is on its way. -/
theorem lookAfter_isAwaited (w : World) (role : Role) (duties : List Duty) :
    (lookAfter e w role duties).IsAwaited := by
  cases duties with
  | nil =>
    intro r hr
    cases hr
  | cons duty later =>
    rintro r ⟨⟩ f hf
    cases hf

/-- A call leaves what is awaited so, or terminates it. -/
theorem call_isAwaited (h : s.IsCoherent e) (ha : s.IsAwaited) (c : Call) :
    ({ s with world := c.run e s.world } : Session).IsAwaited := by
  intro r hr f hf current hcurrent
  have hround := h.round r hr
  have hleased : f.leased ∈ r.members := List.mem_append_right _ (List.mem_map_of_mem hf)
  obtain ⟨_, _, hrole, before, hbefore, hkept⟩ := hround.leased f.leased hleased
  have hwas := ha r hr f hf before hbefore
  simp only at hcurrent
  cases (Call.effect_run h.orderly.held c).1 with
  | quiet hcontent hsupply =>
    rw [hcontent, hbefore] at hcurrent
    cases hcurrent
    exact hwas
  | moved n n' hn hmakes hputs =>
    rw [hputs.content] at hcurrent
    split at hcurrent
    · rename_i hid
      cases hcurrent
      have hsame : n = before := by
        rw [← hmakes.keeps.id, hid, hbefore] at hn
        exact (Option.some.inj hn).symm
      subst hsame
      have hduty : Duty.send f.sending ∈ n.role.duties := by
        rw [hkept.role, hrole, ← (hround.flights f hf).1]
        exact hround.duty
      have hafter : n'.Awaits f.sending := Round.awaits_of_makes hduty hwas hmakes
      exact hafter
    · rw [hbefore] at hcurrent
      cases hcurrent
      exact hwas
  | born n hopens hbears =>
    -- The new record has an id that was free.
    have hne : n.id ≠ f.leased.id := by
      intro hid
      rw [← hid, hbears.id, h.orderly.content_nextId] at hbefore
      cases hbefore
    rw [hbears.content, if_neg hne, hbefore] at hcurrent
    cases hcurrent
    exact hwas

/-- Beginning a record leaves the others as they are, and a message goes out in its state. -/
theorem begin_isAwaited (h : s.IsCoherent e) (ha : s.IsAwaited) (hr : s.round = some r)
    {n : Negotiation} {rest : List Negotiation} (hahead : r.ahead = n :: rest) :
    (beginOne e s.world r n rest).IsAwaited := by
  have hround := h.round r hr
  have hn : n ∈ r.members := by simp [Round.members, hahead]
  obtain ⟨hbegin, _⟩ :=
    e.begin_effect h.orderly.held r.role r.duty (hround.leased n hn).sound.offered
  have hkept (w' : World) (hcontent : ∀ id, n.id ≠ id →
      w'.ledger.content id = s.world.ledger.content id) :
      (⟨w', some { r with ahead := rest }⟩ : Session).IsAwaited := by
    rintro _ ⟨⟩ f hf current hcurrent
    have hother : f.leased ∈ { r with ahead := rest }.members :=
      List.mem_append_right _ (List.mem_map_of_mem hf)
    have hcurrent' : w'.ledger.content f.leased.id = some current := hcurrent
    rw [hcontent _ (hround.id_ne_of_ahead hahead _ hother)] at hcurrent'
    exact ha r hr f hf current hcurrent'
  unfold beginOne
  generalize e.begin .direct r.role r.duty n s.world = result at hbegin ⊢
  obtain ⟨begun, w'⟩ := result
  cases hbegin with
  | parked hguard hb hputs =>
    subst hb
    exact hkept w' fun _ hid => hputs.content_of_ne hid
  | decided source target hduty hedge hb hputs =>
    subst hb
    exact hkept w' fun _ hid => hputs.content_of_ne hid
  | undecided source target hduty hedge hb hsame =>
    subst hb
    exact hkept w' fun id _ => hsame.content id
  | delayed message hduty hdelay hb hsame =>
    subst hb
    exact hkept w' fun id _ => hsame.content id
  | sending message payload hduty hguard hpayload hb hsame =>
    subst hb
    have hw : w' = s.world := hsame
    subst hw
    rintro _ ⟨⟩ f hf current hcurrent
    rcases List.mem_append.mp hf with hf | hf
    · exact ha r hr f hf current hcurrent
    · rw [List.mem_singleton] at hf
      subst hf
      exact hround.awaiting message hduty n (hahead ▸ List.mem_cons_self) current hcurrent

/-- A reply changes no record but the one that it is about. -/
theorem land_isAwaited (h : s.IsCoherent e) (ha : s.IsAwaited) (hr : s.round = some r) (k : Nat)
    (reply : Reply) : (landOne e s.world r k reply).IsAwaited := by
  have hround := h.round r hr
  unfold landOne
  cases hk : r.airborne[k]? with
  | none =>
    rintro _ ⟨⟩
    exact ha r hr
  | some f =>
    obtain ⟨hland, _⟩ := e.land_effect h.orderly.held r.role f reply
    rintro _ ⟨⟩ g hg current hcurrent
    have hother : g.leased ∈ { r with airborne := r.airborne.eraseIdx k }.members :=
      List.mem_append_right _ (List.mem_map_of_mem hg)
    have hne := hround.id_ne_of_airborne hk _ hother
    have hcontent : (e.land .direct r.role f reply s.world).2.ledger.content g.leased.id
        = s.world.ledger.content g.leased.id := by
      cases hland with
      | gone hn hsame => rw [hsame]
      | idle n hn hup hcounts hsame => exact hsame.content _
      | turned n n' kind hn hup hcounts hputs =>
        refine hputs.content_of_ne ?_
        rw [(Engine.turn_of_upshot hup).id, Ledger.id_of_content hn]
        exact hne
    have hcurrent' : (e.land .direct r.role f reply s.world).2.ledger.content g.leased.id
        = some current := hcurrent
    rw [hcontent] at hcurrent'
    exact ha r hr g ((List.eraseIdx_sublist _ k).subset hg) current hcurrent'

theorem step_isAwaited (h : s.IsCoherent e) (ha : s.IsAwaited) (move : Move) :
    (s.step e move).IsAwaited := by
  have hstep := step_cases e s move
  generalize s.step e move = s' at hstep ⊢
  cases hstep with
  | idle => exact ha
  | called c hmove hopen => exact call_isAwaited h ha c
  | started role hmove hr => exact lookAfter_isAwaited s.world role role.duties
  | worked r s' hr hround =>
    cases hround with
    | idle =>
      rintro _ ⟨⟩
      exact ha r hr
    | begun n rest hmove hahead hroom => exact begin_isAwaited h ha hr hahead
    | landed k reply hmove => exact land_isAwaited h ha hr k reply
    | next hmove hdone => exact lookAfter_isAwaited s.world r.role r.later

theorem run_isAwaited (h : s.IsCoherent e) (ha : s.IsAwaited) (moves : List Move) :
    (s.run e moves).IsAwaited := by
  induction moves generalizing s with
  | nil => exact ha
  | cons move moves ih => exact ih (step_effect h move).2 (step_isAwaited h ha move)

/-! ## §3. Late replies. -/

/-- In every run from a world without records, take any message that is on its way, and any reply to
it.  Its record is still stored, and if it is no longer in the message's state then it is
TERMINATING or TERMINATED.  The reply then leaves all other records alone, and of this one it only
ends the lease; unless the record is TERMINATING and the reply a failure that ends the attempts,
which makes it TERMINATED with the failure as the reason. -/
theorem late_reply_ends_terminating_only (e : Engine) (s : Session) (hs : s.IsFresh)
    (moves : List Move) (r : Round) (hr : (s.run e moves).round = some r) (k : Nat) (f : Flight)
    (hk : r.airborne[k]? = some f) (reply : Reply) :
    ∃ n, (s.run e moves).world.ledger.content f.leased.id = some n
      ∧ (n.state ≠ f.sending.source.code →
        (n.state = State.terminating.code ∨ n.state = State.terminated.code)
        ∧ (∀ id, f.leased.id ≠ id →
          ((s.run e moves).step e (.land k reply)).world.ledger.find? id
            = (s.run e moves).world.ledger.find? id)
        ∧ (n.state = State.terminated.code ∨ e.lastWord? f n reply = none →
          ((s.run e moves).step e (.land k reply)).world.ledger.find? f.leased.id = some n)
        ∧ ∀ detail, n.state = State.terminating.code → e.lastWord? f n reply = some detail →
          ((s.run e moves).step e (.land k reply)).world.ledger.find? f.leased.id
            = some ((n.enter State.terminated.code (s.run e moves).world.now).withErrorDetail
                detail)) := by
  have h := (hs.isCoherent e).run moves
  have hf : f ∈ r.airborne := List.mem_of_getElem? hk
  have hleased : f.leased ∈ r.members := List.mem_append_right _ (List.mem_map_of_mem hf)
  obtain ⟨_, _, _, n, hn, _⟩ := (h.round r hr).leased f.leased hleased
  have hawaits := run_isAwaited (hs.isCoherent e) hs.isAwaited moves r hr f hf n hn
  refine ⟨n, hn, fun hleft => ?_⟩
  have hends : n.state = State.terminating.code ∨ n.state = State.terminated.code :=
    hawaits.resolve_left hleft
  obtain ⟨stored, hstored, rfl⟩ := Ledger.find?_of_content hn
  have hstep : ((s.run e moves).step e (.land k reply)).world
      = (e.landed (s.run e moves).world f reply).2 := by
    simp only [step, hr, stepRound, landOne, hk]
    rw [Engine.land_direct h.orderly.held]
  rw [hstep]
  refine ⟨hends, fun id hne => ?_, fun hlate => ?_, fun detail hstate hlast => ?_⟩
  · exact Engine.find?_landed_of_ne hstored hne reply
  · have hlate' : stored.state = State.terminated.code
        ∨ stored.state = State.terminating.code ∧ e.lastWord? f stored reply = none := by
      rcases hends with hstate | hstate
      · exact hlate.imp_right fun hlast => ⟨hstate, hlast⟩
      · exact .inl hstate
    rw [Engine.landed_of_late hstored hleft hlate', World.ledger_free, Ledger.find?_setLease,
      if_pos rfl, hstored]
    rfl
  · rw [Engine.landed_of_lastWord hstored hstate hlast, World.ledger_commit, Ledger.find?_put]
    exact if_pos (Ledger.id_of_find? hstored)

/-! ## §4. A termination that is not sent. -/

/-- An engine that nothing holds back. -/
def unhindered : Engine where
  participantId := "consumer"
  callbackAddress := "http://consumer"
  batchSize := 10
  maxConcurrent := 1
  retry := ⟨7, .immediate⟩
  handle := ⟨"consumer", 60000⟩
  guard _ := false

/-- While a request is on its way, the local application decides to end the negotiation. -/
def untilDecided : List Move :=
  let offer : Offer := ⟨"offer", "asset", "provider", {}⟩
  [.call (.initiate ⟨"provider", "http://provider", "dsp", offer⟩),
   .start .consumer, .begin, .next, .begin, .call (.terminate "gen-0001" "stop")]

/-- The counter party refuses the request for good, and the negotiation ends with that for a reason:
the counter party is not told of the termination. -/
theorem terminating_ended_by_fatal_reply :
    ∃ r f, (blank.run unhindered untilDecided).round = some r ∧ r.airborne[0]? = some f
      ∧ (∃ n, (blank.run unhindered untilDecided).world.ledger.content f.leased.id = some n
        ∧ n.state = State.terminating.code ∧ n.errorDetail = some "stop"
        ∧ n.state ≠ f.sending.source.code)
      ∧ ∃ n, ((blank.run unhindered untilDecided).step unhindered
          (.land 0 (.failed ⟨.fatal, "rejected"⟩))).world.ledger.find? f.leased.id = some n
        ∧ n.state = State.terminated.code ∧ n.errorDetail = some "rejected" := by
  have hflight : ((blank.run unhindered untilDecided).round.bind (·.airborne[0]?)).map
      (fun f => (f.leased.id, f.sending)) = some ("gen-0001", .request) := by decide +kernel
  have hstored : ((blank.run unhindered untilDecided).world.ledger.content "gen-0001").map
      (fun n => (n.state, n.errorDetail)) = some (State.terminating.code, some "stop") := by
    decide +kernel
  obtain ⟨f, hf, hsent⟩ := Option.map_eq_some_iff.mp hflight
  obtain ⟨r, hr, hk⟩ := Option.bind_eq_some_iff.mp hf
  obtain ⟨hid, hsending⟩ := Prod.mk.inj hsent
  obtain ⟨n, hn, hlate⟩ := late_reply_ends_terminating_only unhindered blank ⟨rfl, rfl⟩
    untilDecided r hr 0 f hk (.failed ⟨.fatal, "rejected"⟩)
  have hcontent := hn
  rw [hid] at hcontent
  rw [hcontent] at hstored
  obtain ⟨hstate, hdetail⟩ := Prod.mk.inj (Option.some.inj hstored)
  have hleft : n.state ≠ f.sending.source.code := by
    rw [show n.state = State.terminating.code from hstate, hsending]
    decide
  exact ⟨r, f, hr, hk, ⟨n, hn, hstate, hdetail, hleft⟩, _,
    (hlate hleft).2.2.2 "rejected" hstate rfl, rfl, rfl⟩

end Session

end Parley
