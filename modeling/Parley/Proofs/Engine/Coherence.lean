/-
  Parley.Proofs.Engine.Coherence
  ────────────────────────────────
  **WHAT HOLDS THROUGHOUT A RUN.**

  A round works with records as they were when its batch was leased, while
  others may change them.  The invariant of a run (`Session.IsCoherent`) says
  how far the two can come apart:

      a decision        not at all, for nothing comes in between
      a message         the stored record keeps the leased one; while the
                        record is not begun, it is in the state it was leased
                        in, or termination has been decided or taken place

  and the store is the engine's alone, its records are sound, and their ids are
  those of earlier draws (`World.IsOrderly`).
-/
import Parley.Proofs.Engine.Session
import Parley.Proofs.World.Ids

namespace Parley

/-! ## §1. Orderly worlds. -/

/-- A world that an engine has to itself and filled itself. -/
structure World.IsOrderly (w : World) (holder : String) : Prop where
  held : w.ledger.HeldBy holder
  numbered : w.ledger.IsNumbered w.supply
  sound : ∀ id n, w.ledger.content id = some n → n.IsSound

namespace World.IsOrderly

variable {w w' : World} {holder : String}

theorem of_empty (hw : w.ledger = .empty) (holder : String) : w.IsOrderly holder where
  held := by
    rw [hw]
    exact Ledger.heldBy_empty holder
  numbered := by
    intro id n hn
    rw [hw] at hn
    cases hn
  sound := by
    intro id n hn
    rw [hw] at hn
    cases hn

theorem isKnown (h : w.IsOrderly holder) : w.ledger.IsKnown :=
  Ledger.isKnown_of_content fun id n hn => (h.sound id n hn).known

/-- Order stays where the records stay. -/
theorem quiet (h : w.IsOrderly holder) (hheld : w'.ledger.HeldBy holder)
    (hcontent : ∀ id, w'.ledger.content id = w.ledger.content id)
    (hsupply : w'.supply = w.supply) : w'.IsOrderly holder where
  held := hheld
  numbered := by
    intro id n hn
    rw [hcontent] at hn
    rw [hsupply]
    exact h.numbered id n hn
  sound := by
    intro id n hn
    rw [hcontent] at hn
    exact h.sound id n hn

/-- Order stays where a sound record takes the place of another. -/
theorem puts (h : w.IsOrderly holder) (hheld : w'.ledger.HeldBy holder) {n n' : Negotiation}
    (hn : w.ledger.content n'.id = some n) (hsound : n'.IsSound) (hw : w.Puts w' n') :
    w'.IsOrderly holder where
  held := hheld
  numbered := by
    intro id m hm
    rw [hw.supply]
    rw [hw.content] at hm
    split at hm
    · rename_i hid
      rw [hid] at hn
      exact h.numbered id n hn
    · exact h.numbered id m hm
  sound := by
    intro id m hm
    rw [hw.content] at hm
    split at hm
    · cases hm
      exact hsound.withLease none
    · exact h.sound id m hm

/-- Order stays where a sound record is added under the next id. -/
theorem bears (h : w.IsOrderly holder) (hheld : w'.ledger.HeldBy holder) {n : Negotiation}
    (hsound : n.IsSound) (hw : w.Bears w' n) : w'.IsOrderly holder where
  held := hheld
  numbered := by
    intro id m hm
    rw [hw.supply]
    rw [hw.content] at hm
    split at hm
    · rename_i hid
      exact ⟨w.supply.drawn + 1, Nat.le_refl _, hid.symm.trans hw.id⟩
    · obtain ⟨k, hk, hid⟩ := h.numbered id m hm
      exact ⟨k, Nat.le_succ_of_le hk, hid⟩
  sound := by
    intro id m hm
    rw [hw.content] at hm
    split at hm
    · cases hm
      exact hsound.withLease none
    · exact h.sound id m hm

/-- Order stays when others act. -/
theorem effect (h : w.IsOrderly holder) (hheld : w'.ledger.HeldBy holder)
    (heffect : Call.Effect w w') : w'.IsOrderly holder ∧ w.supply.Precedes w'.supply := by
  cases heffect with
  | quiet hcontent hsupply =>
    exact ⟨h.quiet hheld hcontent hsupply, IdSupply.precedes_of_eq hsupply⟩
  | moved n n' hn hmakes hputs =>
    have hn' : w.ledger.content n'.id = some n := by rw [hmakes.keeps.id, hn]
    exact ⟨h.puts hheld hn' ((h.sound _ _ hn).of_moves hmakes.moves hmakes.keeps) hputs,
      IdSupply.precedes_of_eq hputs.supply⟩
  | born n hopens hbears =>
    refine ⟨h.bears hheld hopens.isSound hbears, ?_⟩
    rw [hbears.supply]
    exact IdSupply.precedes_draw _

/-- The next id is new. -/
theorem content_nextId (h : w.IsOrderly holder) : w.ledger.content w.nextId = none :=
  h.numbered.content_next

end World.IsOrderly

/-! ## §2. Coherent rounds. -/

/-- A record that was leased for a duty of a role, beside the records as they are stored. -/
structure Negotiation.IsLeasedFor (n : Negotiation) (role : Role) (duty : Duty) (l : Ledger) :
    Prop where
  sound : n.IsSound
  state : n.state = duty.state.code
  role : n.role = role
  stored : ∃ current, l.content n.id = some current ∧ n.Keeps current

/-- Whether a record is in a message's state or has been terminated, or is to be, since. -/
def Negotiation.Awaits (n : Negotiation) (message : Sending) : Prop :=
  n.state = message.source.code ∨ n.state = State.terminating.code
    ∨ n.state = State.terminated.code

/-- How a round is related to the records as they are stored. -/
structure Round.IsCoherent (r : Round) (e : Engine) (l : Ledger) : Prop where
  duty : r.duty ∈ r.role.duties
  later : ∀ duty ∈ r.later, duty ∈ r.role.duties
  nodup : (r.members.map (·.id)).Nodup
  leased : ∀ n ∈ r.members, n.IsLeasedFor r.role r.duty l
  flights : ∀ f ∈ r.airborne, r.duty = .send f.sending ∧ ∃ payload now,
    f.message = .forNegotiation f.leased payload
      ∧ e.payloadFor f.sending f.leased now = .ok payload
  /-- What is decided on is as it was leased. -/
  fresh : ∀ source target, r.duty = .decide source target → ∀ n ∈ r.ahead,
    l.content n.id = some (n.withLease none)
  awaiting : ∀ message, r.duty = .send message → ∀ n ∈ r.ahead, ∀ current,
    l.content n.id = some current → current.Awaits message

/-- What holds throughout a run. -/
structure Session.IsCoherent (s : Session) (e : Engine) : Prop where
  orderly : s.world.IsOrderly e.handle.holder
  round : ∀ r, s.round = some r → r.IsCoherent e s.world.ledger

theorem Session.IsFresh.isCoherent {s : Session} (h : s.IsFresh) (e : Engine) :
    s.IsCoherent e where
  orderly := World.IsOrderly.of_empty h.1 _
  round := by
    intro r hr
    rw [h.2] at hr
    cases hr

namespace Round

variable {r : Round} {e : Engine} {l l' : Ledger}

/-- The stored states of a record that waits to be sent for: what comes in can only terminate it. -/
theorem awaits_terminated {role : Role} {message : Sending} {s t : State}
    (hduty : Duty.send message ∈ role.duties)
    (hs : s = message.source ∨ s = .terminating ∨ s = .terminated)
    (hedge : s.canMoveTo t = true) (hawaits : role.awaits t = true) :
    t = .terminating ∨ t = .terminated := by
  -- One state and one message at a time: the graph has no such edge, or the role does not wait.
  rcases hs with rfl | rfl | rfl
  · cases role <;> cases message <;> first
      | exact absurd hduty (by decide)
      | (cases t <;> first
          | exact .inl rfl
          | exact .inr rfl
          | exact absurd hedge (by decide)
          | exact absurd hawaits (by decide))
  · cases t <;> first
      | exact .inl rfl
      | exact .inr rfl
      | exact absurd hedge (by decide)
  · rw [State.canMoveTo_of_isFinal rfl] at hedge
    cases hedge

/-- What a call makes of a record that waits to be sent for is TERMINATING or TERMINATED. -/
theorem terminated_of_makes {w : World} {message : Sending} {n n' : Negotiation}
    (hduty : Duty.send message ∈ n.role.duties) (hn : n.Awaits message)
    (hmakes : Call.Makes w n n') :
    n'.state = State.terminating.code ∨ n'.state = State.terminated.code := by
  obtain ⟨target, hedge, hstate, hawaits⟩ := hmakes.edge
  obtain ⟨s, hs, hst⟩ := Negotiation.checkEdge_eq_ok_iff.mp hedge
  rw [Negotiation.Awaits, hs] at hn
  have hs' : s = message.source ∨ s = .terminating ∨ s = .terminated := by
    rcases hn with hn | hn | hn
    · exact .inl (State.code_injective hn)
    · exact .inr (.inl (State.code_injective hn))
    · exact .inr (.inr (State.code_injective hn))
  rw [hstate]
  rcases awaits_terminated hduty hs' hst hawaits with rfl | rfl
  · exact .inl rfl
  · exact .inr rfl

/-- A record that waits to be sent for still does when something comes in. -/
theorem awaits_of_makes {w : World} {message : Sending} {n n' : Negotiation}
    (hduty : Duty.send message ∈ n.role.duties) (hn : n.Awaits message)
    (hmakes : Call.Makes w n n') : n'.Awaits message :=
  .inr (terminated_of_makes hduty hn hmakes)

/-- A round stays coherent where its records stay as they are stored. -/
theorem IsCoherent.congr (h : r.IsCoherent e l)
    (hcontent : ∀ n ∈ r.members, l'.content n.id = l.content n.id) : r.IsCoherent e l' where
  duty := h.duty
  later := h.later
  nodup := h.nodup
  leased := by
    intro n hn
    obtain ⟨hsound, hstate, hrole, current, hcurrent, hkeeps⟩ := h.leased n hn
    exact ⟨hsound, hstate, hrole, current, (hcontent n hn).trans hcurrent, hkeeps⟩
  flights := h.flights
  fresh := by
    intro source target hduty n hn
    rw [hcontent n (List.mem_append_left _ hn)]
    exact h.fresh source target hduty n hn
  awaiting := by
    intro message hduty n hn current hcurrent
    rw [hcontent n (List.mem_append_left _ hn)] at hcurrent
    exact h.awaiting message hduty n hn current hcurrent

/-- A round stays coherent when it is done with some of its records. -/
theorem IsCoherent.shrink (h : r.IsCoherent e l) {ahead : List Negotiation}
    {airborne : List Flight} (hahead : ahead.Sublist r.ahead)
    (hairborne : airborne.Sublist r.airborne) :
    { r with ahead := ahead, airborne := airborne }.IsCoherent e l := by
  have hmembers : (ahead ++ airborne.map (·.leased)).Sublist r.members :=
    hahead.append (hairborne.map _)
  exact
    { duty := h.duty
      later := h.later
      nodup := (hmembers.map _).nodup h.nodup
      leased := fun n hn => h.leased n (hmembers.subset hn)
      flights := fun f hf => h.flights f (hairborne.subset hf)
      fresh := fun source target hduty n hn => h.fresh source target hduty n (hahead.subset hn)
      awaiting := fun message hduty n hn =>
        h.awaiting message hduty n (hahead.subset hn) }

/-- A round stays coherent when a record's message is sent. -/
theorem IsCoherent.launch (h : r.IsCoherent e l) {n : Negotiation} {rest : List Negotiation}
    (hahead : r.ahead = n :: rest) {message : Sending} {payload : Payload} {now : Instant}
    (hduty : r.duty = .send message) (hpayload : e.payloadFor message n now = .ok payload) :
    ({ r with
      ahead := rest
      airborne := r.airborne ++ [⟨message, n, .forNegotiation n payload⟩] } : Round).IsCoherent
        e l := by
  -- The record is still a member, but further behind.
  have hperm : (rest ++ (r.airborne ++ [(⟨message, n, .forNegotiation n payload⟩ : Flight)]).map
      (·.leased)).Perm r.members := by
    rw [members, hahead, List.map_append, ← List.append_assoc]
    exact List.perm_append_singleton _ _
  exact
    { duty := h.duty
      later := h.later
      nodup := (hperm.map _).nodup_iff.mpr h.nodup
      leased := fun m hm => h.leased m (hperm.mem_iff.mp hm)
      flights := by
        intro f hf
        rcases List.mem_append.mp hf with hf | hf
        · exact h.flights f hf
        · rw [List.mem_singleton] at hf
          subst hf
          exact ⟨hduty, payload, now, rfl, hpayload⟩
      fresh := fun source target hd m hm =>
        h.fresh source target hd m (hahead ▸ List.mem_cons_of_mem n hm)
      awaiting := fun message hd m hm =>
        h.awaiting message hd m (hahead ▸ List.mem_cons_of_mem n hm) }

/-- The record that comes first is none of the others. -/
theorem IsCoherent.id_ne_of_ahead (h : r.IsCoherent e l) {n : Negotiation}
    {rest : List Negotiation} (hahead : r.ahead = n :: rest) :
    ∀ m ∈ { r with ahead := rest }.members, n.id ≠ m.id := by
  have hnodup := h.nodup
  rw [members, hahead, List.cons_append, List.map_cons, List.nodup_cons] at hnodup
  intro m hm hid
  exact hnodup.1 (hid ▸ List.mem_map_of_mem hm)

/-- The record of a message that is on its way is none of the others. -/
theorem IsCoherent.id_ne_of_airborne (h : r.IsCoherent e l) {k : Nat} {f : Flight}
    (hk : r.airborne[k]? = some f) :
    ∀ m ∈ { r with airborne := r.airborne.eraseIdx k }.members, f.leased.id ≠ m.id := by
  have hnodup := ((members_perm hk).map (·.id)).nodup_iff.mpr h.nodup
  rw [List.map_cons, List.nodup_cons] at hnodup
  intro m hm hid
  exact hnodup.1 (hid ▸ List.mem_map_of_mem hm)

/-- A round that waits for a reply stays coherent when others move a record. -/
theorem IsCoherent.moved {w : World} (h : r.IsCoherent e l) (hopen : r.airborne ≠ [])
    {n n' : Negotiation} (hn : l.content n.id = some n) (hmakes : Call.Makes w n n')
    (hcontent : ∀ id, l'.content id
      = if n'.id = id then some (n'.withLease none) else l.content id) :
    r.IsCoherent e l' := by
  obtain ⟨f, hf⟩ := List.exists_mem_of_ne_nil r.airborne hopen
  obtain ⟨hsend, _⟩ := h.flights f hf
  have hkeeps := hmakes.keeps
  exact
    { duty := h.duty
      later := h.later
      nodup := h.nodup
      flights := h.flights
      leased := by
        intro m hm
        obtain ⟨hsound, hmstate, hmrole, current, hcurrent, hmkeeps⟩ := h.leased m hm
        refine ⟨hsound, hmstate, hmrole, ?_⟩
        rw [hcontent]
        by_cases hid : n'.id = m.id
        · rw [if_pos hid]
          rw [← hid, hkeeps.id, hn] at hcurrent
          cases hcurrent
          exact ⟨_, rfl, (hmkeeps.trans hkeeps).withLease none⟩
        · rw [if_neg hid]
          exact ⟨current, hcurrent, hmkeeps⟩
      -- While a message is on its way the duty is no decision.
      fresh := by
        intro source target hduty
        rw [hsend] at hduty
        cases hduty
      awaiting := by
        intro message hduty m hm current hcurrent
        rw [hcontent] at hcurrent
        by_cases hid : n'.id = m.id
        · rw [if_pos hid] at hcurrent
          cases hcurrent
          -- The record was waiting, so what moved it was a termination.
          have hnm : l.content m.id = some n := by rw [← hid, hkeeps.id, hn]
          obtain ⟨_, _, hmrole, before, hbefore, hmkeeps⟩ :=
            h.leased m (List.mem_append_left _ hm)
          rw [hnm] at hbefore
          cases hbefore
          have hin : Duty.send message ∈ n.role.duties := by
            rw [hmkeeps.role, hmrole, ← hduty]
            exact h.duty
          have hafter : n'.Awaits message :=
            awaits_of_makes hin (h.awaiting message hduty m hm n hnm) hmakes
          exact hafter
        · rw [if_neg hid] at hcurrent
          exact h.awaiting message hduty m hm current hcurrent }

end Round

/-! ## §3. Moves. -/

namespace Session

variable {s : Session} {e : Engine} {w : World} {r : Round}

/-- A move begins a record that the guard holds back: it stores the record as it was leased, but
pending. -/
def Parks (s : Session) (e : Engine) (move : Move) (n : Negotiation) : Prop :=
  move = .begin ∧ e.guard n = true ∧ ∃ r rest, s.round = some r ∧ r.ahead = n :: rest
    ∧ r.airborne.length < e.maxConcurrent

/-- What a move does to the records. -/
inductive Effect (e : Engine) (s : Session) (move : Move) (w' : World) : Prop
  | quiet (hcontent : ∀ id, w'.ledger.content id = s.world.ledger.content id)
      (hsupply : w'.supply = s.world.supply)
  | called (c : Call) (n n' : Negotiation) (hmove : move = .call c)
      (hn : s.world.ledger.content n.id = some n) (hmakes : Call.Makes s.world n n')
      (hw : s.world.Puts w' n')
  | decided (r : Round) (n : Negotiation) (source target : State) (hr : s.round = some r)
      (hduty : r.duty = .decide source target) (hrole : n.role = r.role)
      (hstate : n.state = source.code) (hn : s.world.ledger.content n.id = some n)
      (hedge : n.checkEdge target = .ok ())
      (hw : s.world.Puts w' (n.enter target.code s.world.now))
  | turned (k : Nat) (reply : Reply) (r : Round) (f : Flight) (n n' : Negotiation) (kind : State)
      (hmove : move = .land k reply) (hr : s.round = some r) (hk : r.airborne[k]? = some f)
      (hn : s.world.ledger.content n.id = some n) (hid : n.id = f.leased.id)
      (hturn : Engine.Turn e f n s.world.now reply kind n') (hkeeps : n.Keeps n')
      (hw : s.world.Puts w' n')
  | born (c : Call) (n : Negotiation) (hmove : move = .call c) (hopens : Call.Opens s.world n)
      (hw : s.world.Bears w' n)
  | parked (n : Negotiation) (hparks : s.Parks e move n)
      (hw : s.world.Puts w' (n.withPending true))

/-- A move leaves the records as they are, moves one along an edge, adds one, or parks one. -/
theorem Effect.kinds {move : Move} {w' : World} (h : Effect e s move w') :
    ((∀ id, w'.ledger.content id = s.world.ledger.content id) ∧ w'.supply = s.world.supply)
      ∨ (∃ n n', s.world.ledger.content n.id = some n ∧ n.Moves n' ∧ n.Keeps n'
          ∧ s.world.Puts w' n')
      ∨ (∃ n, n.IsSound ∧ n.agreement = none ∧ s.world.Bears w' n)
      ∨ ∃ n, s.Parks e move n ∧ s.world.Puts w' (n.withPending true) := by
  cases h with
  | quiet hcontent hsupply => exact .inl ⟨hcontent, hsupply⟩
  | called c n n' hmove hn hmakes hw =>
    exact .inr (.inl ⟨n, n', hn, hmakes.moves, hmakes.keeps, hw⟩)
  | decided r n source target hr hduty hrole hstate hn hedge hw =>
    exact .inr (.inl ⟨n, _, hn, Negotiation.moves_of_checkEdge hedge rfl,
      (Negotiation.Keeps.refl n).enter _ _, hw⟩)
  | turned k reply r f n n' kind hmove hr hk hn hid hturn hkeeps hw =>
    exact .inr (.inl ⟨n, n', hn, hturn.moves, hkeeps, hw⟩)
  | born c n hmove hopens hw =>
    exact .inr (.inr (.inl ⟨n, hopens.isSound, hopens.agreement, hw⟩))
  | parked n hparks hw => exact .inr (.inr (.inr ⟨n, hparks, hw⟩))

/-- A batch that was just leased is coherent. -/
theorem lookAfter_coherent (hw : w.IsOrderly e.handle.holder) {role : Role} {duties : List Duty}
    (hduties : ∀ duty ∈ duties, duty ∈ role.duties) :
    (∀ id, (lookAfter e w role duties).world.ledger.content id = w.ledger.content id)
      ∧ (lookAfter e w role duties).world.supply = w.supply
      ∧ (lookAfter e w role duties).IsCoherent e := by
  cases duties with
  | nil => exact ⟨fun _ => rfl, rfl, hw, fun r hr => by cases hr⟩
  | cons duty later =>
    unfold lookAfter
    simp only
    rw [Engine.lease_direct hw.isKnown]
    -- Leases change no content.
    have hcontent : ∀ id, (w.withLedger (w.ledger.leaseEach
        ((w.ledger.dutyBatch e.handle w.now e.batchSize role duty.state).map (·.id))
        (e.handle.leaseAt w.now))).ledger.content id = w.ledger.content id := by
      intro id
      rw [World.ledger_withLedger, Ledger.content_leaseEach]
    refine ⟨hcontent, rfl, hw.quiet (hw.held.leaseEach _ rfl) hcontent rfl, ?_⟩
    rintro r ⟨⟩
    have hbatch : ∀ n ∈ (w.ledger.dutyBatch e.handle w.now e.batchSize role duty.state) ++ [],
        w.ledger.content n.id = some (n.withLease none) ∧ n.state = duty.state.code
          ∧ n.role = role := by
      intro n hn
      rw [List.append_nil] at hn
      obtain ⟨hstored, hstate, hrole, _⟩ := Ledger.mem_dutyBatch hn
      exact ⟨hstored, hstate, hrole⟩
    exact
      { duty := hduties duty List.mem_cons_self
        later := fun d hd => hduties d (List.mem_cons_of_mem duty hd)
        nodup := by
          show ((_ ++ []).map _).Nodup
          rw [List.append_nil]
          exact Ledger.nodup_dutyBatch _ _ _ _ _ _
        leased := by
          intro n hn
          obtain ⟨hstored, hstate, hrole⟩ := hbatch n hn
          have hsound := hw.sound n.id _ hstored
          refine ⟨⟨hsound.known, hsound.offered, hsound.correlated⟩, hstate, hrole,
            n.withLease none, (hcontent n.id).trans hstored, ?_⟩
          exact (Negotiation.Keeps.refl n).withLease none
        flights := fun f hf => absurd hf List.not_mem_nil
        fresh := by
          intro source target _ n hn
          exact (hcontent n.id).trans (hbatch n (List.mem_append_left _ hn)).1
        awaiting := by
          intro message hmessage n hn current hcurrent
          obtain ⟨hstored, hstate, _⟩ := hbatch n (List.mem_append_left _ hn)
          rw [hcontent, hstored] at hcurrent
          cases hcurrent
          have hduty : duty = .send message := hmessage
          rw [hduty] at hstate
          exact .inl hstate }

/-- A call while a session is open. -/
theorem call_effect (h : s.IsCoherent e) (hopen : s.isOpen = true) (c : Call) :
    Effect e s (.call c) (c.run e s.world)
      ∧ ({ s with world := c.run e s.world } : Session).IsCoherent e := by
  obtain ⟨heffect, hheld⟩ := Call.effect_run h.orderly.held c
  -- Others can call between rounds, and while some message is on its way.
  have hair : ∀ r, s.round = some r → r.airborne ≠ [] := by
    intro r hr hnil
    simp [isOpen, hr, hnil] at hopen
  have horderly := (h.orderly.effect hheld heffect).1
  cases heffect with
  | quiet hcontent hsupply =>
    refine ⟨.quiet hcontent hsupply, horderly, fun r hr => ?_⟩
    exact (h.round r hr).congr fun n _ => hcontent n.id
  | moved n n' hn hmakes hputs =>
    refine ⟨.called c n n' rfl hn hmakes hputs, horderly, fun r hr => ?_⟩
    exact (h.round r hr).moved (hair r hr) hn hmakes hputs.content
  | born n hopens hbears =>
    refine ⟨.born c n rfl hopens hbears, horderly, fun r hr => ?_⟩
    refine (h.round r hr).congr fun m hm => ?_
    -- The records of the round are stored, and the new one was not.
    obtain ⟨_, _, _, current, hcurrent, _⟩ := (h.round r hr).leased m hm
    have hne : n.id ≠ m.id := by
      intro hid
      rw [← hid, hbears.id, h.orderly.content_nextId] at hcurrent
      cases hcurrent
    rw [hbears.content, if_neg hne]

/-- A record is begun: it is parked, or decided on, or left for later, or its message is sent. -/
theorem begin_effect (h : s.IsCoherent e) (hr : s.round = some r) {n : Negotiation}
    {rest : List Negotiation} (hahead : r.ahead = n :: rest)
    (hroom : r.airborne.length < e.maxConcurrent) :
    Effect e s .begin (beginOne e s.world r n rest).world
      ∧ (beginOne e s.world r n rest).IsCoherent e := by
  have hround := h.round r hr
  have hn : n ∈ r.members := by simp [Round.members, hahead]
  obtain ⟨hsound, hstate, hrole, current, hcurrent, hkeeps⟩ := hround.leased n hn
  obtain ⟨hbegin, hheld⟩ := e.begin_effect h.orderly.held r.role r.duty hsound.offered
  have hrest : { r with ahead := rest }.IsCoherent e s.world.ledger :=
    hround.shrink (hahead ▸ List.sublist_cons_self n rest) (List.Sublist.refl _)
  -- Whatever is written, the others of the batch have other ids.
  have hother (w' : World) (n' : Negotiation) (hid : n'.id = n.id)
      (hputs : s.world.Puts w' n') : { r with ahead := rest }.IsCoherent e w'.ledger := by
    refine hrest.congr fun m hm => hputs.content_of_ne ?_
    rw [hid]
    exact hround.id_ne_of_ahead hahead m hm
  have hidle (w' : World) (hsame : s.world.Same w') (hheld : w'.ledger.HeldBy e.handle.holder) :
      Effect e s .begin w' ∧ (⟨w', some { r with ahead := rest }⟩ : Session).IsCoherent e := by
    refine ⟨.quiet hsame.content hsame.supply,
      h.orderly.quiet hheld hsame.content hsame.supply, ?_⟩
    rintro r' ⟨⟩
    exact hrest.congr fun m _ => hsame.content m.id
  unfold beginOne
  generalize e.begin .direct r.role r.duty n s.world = result at hbegin hheld ⊢
  obtain ⟨begun, w'⟩ := result
  cases hbegin with
  | parked hguard hb hputs =>
    subst hb
    have hstored : s.world.ledger.content (n.withPending true).id = some current := hcurrent
    -- The record is stored as it was leased, whatever became of it since.
    refine ⟨.parked n ⟨rfl, hguard, r, rest, hr, hahead, hroom⟩ hputs,
      h.orderly.puts hheld hstored (hsound.withPending true) hputs, ?_⟩
    rintro r' ⟨⟩
    exact hother w' (n.withPending true) rfl hputs
  | decided source target hduty hedge hb hputs =>
    subst hb
    -- What is decided on is as it was leased.
    have hfresh := hround.fresh source target hduty n (hahead ▸ List.mem_cons_self)
    have hmoves : (n.withLease none).Moves (n.enter target.code s.world.now) :=
      Negotiation.moves_of_checkEdge hedge rfl
    have hkept : (n.withLease none).Keeps (n.enter target.code s.world.now) :=
      (Negotiation.Keeps.of_withLease n none).enter _ _
    have hstored : s.world.ledger.content (n.enter target.code s.world.now).id
        = some (n.withLease none) := hfresh
    rw [hduty] at hstate
    refine ⟨.decided r (n.withLease none) source target hr hduty hrole hstate hfresh hedge
        (hputs.congr rfl),
      h.orderly.puts hheld hstored ((hsound.withLease none).of_moves hmoves hkept) hputs, ?_⟩
    rintro r' ⟨⟩
    exact hother w' (n.enter target.code s.world.now) rfl hputs
  | undecided source target hduty hedge hb hsame =>
    subst hb
    exact hidle w' hsame hheld
  | delayed message hduty hdelay hb hsame =>
    subst hb
    exact hidle w' hsame hheld
  | sending message payload hduty hguard hpayload hb hsame =>
    subst hb
    -- Nothing is written before the reply.
    have hw : w' = s.world := hsame
    subst hw
    refine ⟨.quiet (fun _ => rfl) rfl, h.orderly, ?_⟩
    rintro r' ⟨⟩
    exact hround.launch hahead hduty hpayload

/-- A reply arrives: the record that it is about is moved, or nothing happens. -/
theorem land_effect (h : s.IsCoherent e) (hr : s.round = some r) (k : Nat) (reply : Reply) :
    Effect e s (.land k reply) (landOne e s.world r k reply).world
      ∧ (landOne e s.world r k reply).IsCoherent e := by
  have hround := h.round r hr
  unfold landOne
  cases hk : r.airborne[k]? with
  | none =>
    refine ⟨.quiet (fun _ => rfl) rfl, h.orderly, ?_⟩
    rintro r' ⟨⟩
    exact hround
  | some f =>
    have hf : f ∈ r.airborne := List.mem_of_getElem? hk
    have hleased : f.leased ∈ r.members := List.mem_append_right _ (List.mem_map_of_mem hf)
    obtain ⟨_, _, hrole, current, hcurrent, hkeeps⟩ := hround.leased f.leased hleased
    obtain ⟨hland, hheld⟩ := e.land_effect h.orderly.held r.role f reply
    have hrest : { r with airborne := r.airborne.eraseIdx k }.IsCoherent e s.world.ledger :=
      hround.shrink (List.Sublist.refl _) (List.eraseIdx_sublist _ k)
    simp only
    -- What the reply makes of the record depends on how it is stored by now.
    cases hland with
    | gone hn hsame =>
      rw [hn] at hcurrent
      cases hcurrent
    | idle n hn hup hcounts hsame =>
      refine ⟨.quiet hsame.content hsame.supply,
        h.orderly.quiet hheld hsame.content hsame.supply, ?_⟩
      rintro r' ⟨⟩
      exact hrest.congr fun m _ => hsame.content m.id
    | turned n n' kind hn hup hcounts hputs =>
      have hturn := Engine.turn_of_upshot hup
      have hid : n.id = f.leased.id := Ledger.id_of_content hn
      -- Only consumers send requests.
      have hconsumer : f.sending = .request → n.role = .consumer := by
        intro hrequest
        have hduty := (hround.flights f hf).1
        rw [hrequest] at hduty
        have hin := hround.duty
        rw [hduty] at hin
        rw [hn] at hcurrent
        cases hcurrent
        rw [hkeeps.role, hrole]
        cases hrole' : r.role with
        | consumer => rfl
        | provider =>
          rw [hrole'] at hin
          exact absurd hin (by decide)
      have hmoves := hturn.moves
      have hkept := hturn.keeps hconsumer
      rw [← hid] at hn
      have hn' : s.world.ledger.content n'.id = some n := by rw [hkept.id, hn]
      refine ⟨.turned k reply r f n n' kind rfl hr hk hn hid hturn hkept hputs,
        h.orderly.puts hheld hn' ((h.orderly.sound _ _ hn).of_moves hmoves hkept) hputs, ?_⟩
      rintro r' ⟨⟩
      refine hrest.congr fun m hm => hputs.content_of_ne ?_
      rw [hkept.id, hid]
      exact hround.id_ne_of_airborne hk m hm

/-- What one move does to the records; and the invariant holds after it. -/
theorem step_effect (h : s.IsCoherent e) (move : Move) :
    Effect e s move (s.step e move).world ∧ (s.step e move).IsCoherent e := by
  have hrounds {role : Role} {duties : List Duty} (hduties : ∀ d ∈ duties, d ∈ role.duties) :
      Effect e s move (lookAfter e s.world role duties).world
        ∧ (lookAfter e s.world role duties).IsCoherent e := by
    obtain ⟨hcontent, hsupply, hcoherent⟩ := lookAfter_coherent h.orderly hduties
    exact ⟨.quiet hcontent hsupply, hcoherent⟩
  have hstep := step_cases e s move
  generalize s.step e move = s' at hstep ⊢
  cases hstep with
  | idle => exact ⟨.quiet (fun _ => rfl) rfl, h⟩
  | called c hmove hopen => exact hmove ▸ call_effect h hopen c
  | started role hmove hr => exact hrounds fun _ hd => hd
  | worked r s' hr hround =>
    cases hround with
    | idle => exact ⟨.quiet (fun _ => rfl) rfl, ⟨h.orderly, fun r' hr' => by
        cases hr'
        exact h.round r hr⟩⟩
    | begun n rest hmove hahead hroom => exact hmove ▸ begin_effect h hr hahead hroom
    | landed k reply hmove => exact hmove ▸ land_effect h hr k reply
    | next hmove hdone => exact hrounds (h.round r hr).later

/-- The invariant holds throughout a run. -/
theorem IsCoherent.run (h : s.IsCoherent e) (moves : List Move) : (s.run e moves).IsCoherent e := by
  -- The invariant is carried over the moves, from any session.
  induction moves generalizing s with
  | nil => exact h
  | cons move moves ih => exact ih (step_effect h move).2

end Session

end Parley
