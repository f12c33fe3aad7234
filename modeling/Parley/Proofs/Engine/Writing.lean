/-
  Parley.Proofs.Engine.Writing
  ────────────────────────────────
  **WHAT A MOVE STORES.**

  A record is overwritten as a whole, and what is written was read at different
  times.  A call and a reply read the record just before; a decision and the
  guard work with the record as it was leased for the batch.  That makes no
  difference but for book keeping (`Session.IsMatched`): while a round has a
  record, all that can happen to it from outside is that it is terminated.

      Session.Rewrites   what a move makes of a stored record
      Session.Becomes    what a move makes of what is stored for an id
      Session.Retains    what has become of a record that a round has
-/
import Parley.Proofs.Engine.Reply

namespace Parley

/-! ## §1. Records apart from book keeping. -/

namespace Negotiation

/-- What a record says, its book keeping left out: who negotiates, by which names, what was offered
and what was agreed on. -/
def matter (n : Negotiation) : Negotiation :=
  { n with
    state := 0
    stateCount := 0
    stateTimestamp := default
    pending := false
    errorDetail := none
    lease := none
    updatedAt := default }

theorem keeps_of_matter {n m : Negotiation} (h : n.matter = m.matter) : n.Keeps m where
  id := congrArg (·.id) h.symm
  role := congrArg (·.role) h.symm
  counterPartyId := congrArg (·.counterPartyId) h.symm
  counterPartyAddress := congrArg (·.counterPartyAddress) h.symm
  protocol := congrArg (·.protocol) h.symm
  createdAt := congrArg (·.createdAt) h.symm
  traceContext := congrArg (·.traceContext) h.symm
  offers := by
    have hoffers : n.offers = m.offers := congrArg (·.offers) h
    exact hoffers ▸ List.prefix_refl n.offers
  agreement := .inr (congrArg (·.agreement) h.symm)
  correlationId := fun _ => congrArg (·.correlationId) h.symm

/-- A record that awaits a message and moves on is in the message's state. -/
theorem Awaits.of_target {n : Negotiation} {message : Sending} (h : n.Awaits message)
    (hedge : n.checkEdge message.target = .ok ()) : n.state = message.source.code := by
  obtain ⟨s, hs, hst⟩ := checkEdge_eq_ok_iff.mp hedge
  rcases h with hsource | hends | hends
  · exact hsource
  · cases State.code_injective (hs.symm.trans hends)
    by_cases hne : State.terminating = message.source
    · rw [hends, hne]
    · rw [Engine.not_canMoveTo_target hne] at hst
      cases hst
  · cases State.code_injective (hs.symm.trans hends)
    rw [State.canMoveTo_of_isFinal rfl] at hst
    cases hst

/-- A record that awaits a message and may enter the message's state is in it. -/
theorem Awaits.of_source {n : Negotiation} {message : Sending} (h : n.Awaits message)
    (hedge : n.checkEdge message.source = .ok ()) : n.state = message.source.code := by
  obtain ⟨s, hs, hst⟩ := checkEdge_eq_ok_iff.mp hedge
  rcases h with hsource | hends
  · exact hsource
  · have hends' : s = .terminating ∨ s = .terminated :=
      hends.imp (fun h => State.code_injective (hs.symm.trans h))
        (fun h => State.code_injective (hs.symm.trans h))
    by_cases hne : s = message.source
    · rw [hs, hne]
    · rw [Session.not_canMoveTo_source hends' hne] at hst
      cases hst

end Negotiation

/-- A termination changes nothing but book keeping. -/
theorem Message.matter_outcome {m : Message} (hm : m.payload.target = .terminated)
    (n : Negotiation) (now : Instant) : (m.outcome n now).matter = n.matter := by
  unfold Message.outcome Message.enrich
  cases hp : m.payload with
  | termination reason policy => cases reason <;> rfl
  | negotiationEvent event =>
    rw [hp] at hm
    cases event <;> cases hm
  | _ =>
    rw [hp] at hm
    cases hm

theorem Call.Makes.matter {w : World} {n n' : Negotiation} (h : Call.Makes w n n')
    (hends : n'.state = State.terminating.code ∨ n'.state = State.terminated.code) :
    n'.matter = n.matter := by
  cases h with
  | accepted m haddr hok =>
    obtain ⟨_, _, _, rfl⟩ := Message.acceptedBy_eq_ok_iff.mp hok
    rw [m.state_outcome n w.now] at hends
    refine m.matter_outcome ?_ n w.now
    rcases hends with hcode | hcode
    · exact absurd (State.code_injective hcode) m.payload.target_ne_terminating
    · exact State.code_injective hcode
  | doomed reason hedge hn' =>
    subst hn'
    rfl

namespace Session

variable {s : Session} {e : Engine} {w : World} {r : Round}

/-! ## §2. The records of a round. -/

/-- What has become of a record of a round after a move: it was just leased; or the round had it
before, and it is stored as it was, or others called while a message was on its way. -/
inductive Retains (e : Engine) (s : Session) (move : Move) (r' : Round) (n : Negotiation) : Prop
  | leased (hn : (s.step e move).world.ledger.content n.id = some (n.withLease none))
  | held (r : Round) (hr : s.round = some r) (hrole : r'.role = r.role) (hn : n ∈ r.members)
      (hcontent : (s.step e move).world.ledger.content n.id = s.world.ledger.content n.id)
  | touched (r : Round) (before after : Negotiation) (hr : s.round = some r)
      (hrole : r'.role = r.role) (hn : n ∈ r.members) (hair : r.airborne ≠ [])
      (hbefore : s.world.ledger.content n.id = some before)
      (hafter : (s.step e move).world.ledger.content n.id = some (after.withLease none))
      (hmakes : Call.Makes s.world before after)

/-- The records of a batch that was just leased are stored as they were leased. -/
theorem lookAfter_members (hw : w.IsOrderly e.handle.holder) (role : Role) (duties : List Duty)
    {r' : Round} (hr' : (lookAfter e w role duties).round = some r') :
    r'.role = role ∧ ∀ n ∈ r'.members,
      (lookAfter e w role duties).world.ledger.content n.id = some (n.withLease none) := by
  cases duties with
  | nil => cases hr'
  | cons duty later =>
    unfold lookAfter at hr' ⊢
    simp only at hr' ⊢
    rw [Engine.lease_direct hw.isKnown] at hr' ⊢
    cases hr'
    refine ⟨rfl, fun n hn => ?_⟩
    have hbatch : n ∈ w.ledger.dutyBatch e.handle w.now e.batchSize role duty.state := by
      simpa [Round.members] using hn
    rw [World.ledger_withLedger, Ledger.content_leaseEach]
    exact (Ledger.mem_dutyBatch hbatch).1

/-- Beginning a record changes none of those that the round still has afterwards. -/
theorem beginOne_members (h : s.IsCoherent e) (hr : s.round = some r) {n : Negotiation}
    {rest : List Negotiation} (hahead : r.ahead = n :: rest) {r' : Round}
    (hr' : (beginOne e s.world r n rest).round = some r') :
    r'.role = r.role ∧ ∀ m ∈ r'.members, m ∈ r.members
      ∧ (beginOne e s.world r n rest).world.ledger.content m.id
        = s.world.ledger.content m.id := by
  have hround := h.round r hr
  have hn : n ∈ r.members := by simp [Round.members, hahead]
  obtain ⟨hbegin, _⟩ :=
    e.begin_effect h.orderly.held r.role r.duty (hround.leased n hn).sound.offered
  have hothers {w' : World} (hcontent : ∀ id, n.id ≠ id →
      w'.ledger.content id = s.world.ledger.content id) :
      ∀ m ∈ { r with ahead := rest }.members, m ∈ r.members
        ∧ w'.ledger.content m.id = s.world.ledger.content m.id := by
    intro m hm
    refine ⟨?_, hcontent m.id (hround.id_ne_of_ahead hahead m hm)⟩
    rw [Round.members, hahead]
    exact List.mem_cons_of_mem n hm
  unfold beginOne at hr' ⊢
  generalize e.begin .direct r.role r.duty n s.world = result at hbegin hr' ⊢
  obtain ⟨begun, w'⟩ := result
  cases hbegin with
  | parked hguard hb hputs =>
    subst hb
    cases hr'
    exact ⟨rfl, hothers fun _ hid => hputs.content_of_ne hid⟩
  | decided source target hduty hedge hb hputs =>
    subst hb
    cases hr'
    exact ⟨rfl, hothers fun _ hid => hputs.content_of_ne hid⟩
  | undecided source target hduty hedge hb hsame =>
    subst hb
    cases hr'
    exact ⟨rfl, hothers fun id _ => hsame.content id⟩
  | delayed message hduty hdelay hb hsame =>
    subst hb
    cases hr'
    exact ⟨rfl, hothers fun id _ => hsame.content id⟩
  | sending message payload hduty hguard hpayload hb hsame =>
    subst hb
    cases hr'
    have hw : w' = s.world := hsame
    subst hw
    refine ⟨rfl, fun m hm => ⟨?_, rfl⟩⟩
    -- The record whose message goes out is one that was ahead.
    simp only [Round.members, List.map_append, List.map_cons, List.map_nil, List.mem_append,
      List.mem_singleton] at hm
    rw [Round.members, hahead]
    rcases hm with hm | hm | rfl
    · exact List.mem_append_left _ (List.mem_cons_of_mem n hm)
    · exact List.mem_append_right _ hm
    · exact List.mem_append_left _ List.mem_cons_self

/-- A reply changes none of the records that the round still has afterwards. -/
theorem landOne_members (h : s.IsCoherent e) (hr : s.round = some r) (k : Nat) (reply : Reply)
    {r' : Round} (hr' : (landOne e s.world r k reply).round = some r') :
    r'.role = r.role ∧ ∀ m ∈ r'.members, m ∈ r.members
      ∧ (landOne e s.world r k reply).world.ledger.content m.id
        = s.world.ledger.content m.id := by
  have hround := h.round r hr
  unfold landOne at hr' ⊢
  cases hk : r.airborne[k]? with
  | none =>
    rw [hk] at hr'
    cases hr'
    exact ⟨rfl, fun m hm => ⟨hm, rfl⟩⟩
  | some f =>
    rw [hk] at hr'
    cases hr'
    refine ⟨rfl, fun m hm => ⟨?_, ?_⟩⟩
    · have hsub : (r.ahead ++ (r.airborne.eraseIdx k).map (·.leased)).Sublist r.members :=
        (List.Sublist.refl _).append ((List.eraseIdx_sublist _ k).map _)
      exact hsub.subset hm
    · have hne := hround.id_ne_of_airborne hk m hm
      obtain ⟨hland, _⟩ := e.land_effect h.orderly.held r.role f reply
      simp only
      cases hland with
      | gone hn hsame => rw [hsame]
      | idle n hn hup hcounts hsame => exact hsame.content _
      | turned n n' kind hn hup hcounts hputs =>
        refine hputs.content_of_ne ?_
        rw [(Engine.turn_of_upshot hup).id, Ledger.id_of_content hn]
        exact hne

/-- What has become of the records of a round after a call. -/
theorem call_retains (h : s.IsCoherent e) (hopen : s.isOpen = true) (c : Call)
    (hr : s.round = some r) {n : Negotiation} (hn : n ∈ r.members) :
    Retains e s (.call c) r n := by
  have hair : r.airborne ≠ [] := by
    intro hnil
    simp [isOpen, hr, hnil] at hopen
  have hs : (s.step e (.call c)).world = c.run e s.world := by
    show (if s.isOpen then _ else s : Session).world = _
    rw [if_pos hopen]
  obtain ⟨_, _, _, before, hbefore, _⟩ := (h.round r hr).leased n hn
  cases (Call.effect_run h.orderly.held c).1 with
  | quiet hcontent hsupply =>
    exact .held r hr rfl hn (by rw [hs]; exact hcontent n.id)
  | moved m m' hm hmakes hputs =>
    by_cases hid : m'.id = n.id
    · have hsame : m = before := by
        rw [← hmakes.keeps.id, hid, hbefore] at hm
        exact (Option.some.inj hm).symm
      subst hsame
      refine .touched r m m' hr rfl hn hair hbefore ?_ hmakes
      rw [hs, ← hid]
      exact hputs.content_self
    · exact .held r hr rfl hn (by rw [hs]; exact hputs.content_of_ne hid)
  | born m hopens hbears =>
    -- The new record has an id that was free.
    have hne : m.id ≠ n.id := by
      intro hid
      rw [← hid, hbears.id, h.orderly.content_nextId] at hbefore
      cases hbefore
    refine .held r hr rfl hn ?_
    rw [hs, hbears.content, if_neg hne]

/-- What has become of the records of a round after a move. -/
theorem step_retains (h : s.IsCoherent e) (move : Move) {r' : Round}
    (hr' : (s.step e move).round = some r') {n : Negotiation} (hn : n ∈ r'.members) :
    Retains e s move r' n := by
  have hstep := step_cases e s move
  generalize hs' : s.step e move = s' at hstep hr'
  cases hstep with
  | idle => exact .held r' hr' rfl hn (by rw [hs'])
  | called c hmove hopen =>
    subst hmove
    exact call_retains h hopen c hr' hn
  | started role hmove hr =>
    exact .leased (by rw [hs']; exact (lookAfter_members h.orderly role role.duties hr').2 n hn)
  | worked r s' hr hround =>
    cases hround with
    | idle =>
      cases hr'
      exact .held r' hr rfl hn (by rw [hs'])
    | begun m rest hmove hahead hroom =>
      obtain ⟨hrole, hmembers⟩ := beginOne_members h hr hahead hr'
      obtain ⟨hin, hcontent⟩ := hmembers n hn
      exact .held r hr hrole hin (by rw [hs']; exact hcontent)
    | landed k reply hmove =>
      obtain ⟨hrole, hmembers⟩ := landOne_members h hr k reply hr'
      obtain ⟨hin, hcontent⟩ := hmembers n hn
      exact .held r hr hrole hin (by rw [hs']; exact hcontent)
    | next hmove hdone =>
      exact .leased (by rw [hs']; exact (lookAfter_members h.orderly r.role r.later hr').2 n hn)

end Session

/-! ## §3. Rounds keep up with the store. -/

/-- The records of a round are stored as it has them, but for book keeping. -/
def Round.IsMatched (r : Round) (l : Ledger) : Prop :=
  ∀ n ∈ r.members, ∀ current, l.content n.id = some current → current.matter = n.matter

/-- What holds of the records of a tick throughout a run. -/
def Session.IsMatched (s : Session) : Prop :=
  ∀ r, s.round = some r → r.IsMatched s.world.ledger

/-- While a message is on its way, every record of the round waits for its message to be sent or
answered. -/
theorem Round.IsCoherent.awaits {r : Round} {e : Engine} {l : Ledger} (h : r.IsCoherent e l)
    (ha : r.IsAwaited l) (hair : r.airborne ≠ []) {n current : Negotiation} (hn : n ∈ r.members)
    (hcurrent : l.content n.id = some current) :
    ∃ message, Duty.send message ∈ current.role.duties ∧ current.Awaits message := by
  obtain ⟨f, hf⟩ := List.exists_mem_of_ne_nil r.airborne hair
  obtain ⟨hsend, _⟩ := h.flights f hf
  obtain ⟨_, _, hrole, stored, hstored, hkeeps⟩ := h.leased n hn
  cases hstored.symm.trans hcurrent
  have hduty : Duty.send f.sending ∈ current.role.duties := by
    rw [hkeeps.role, hrole, ← hsend]
    exact h.duty
  rcases List.mem_append.mp hn with hn | hn
  · exact ⟨f.sending, hduty, h.awaiting f.sending hsend n hn current hcurrent⟩
  · obtain ⟨g, hg, rfl⟩ := List.mem_map.mp hn
    -- All messages of a round are of one kind.
    have hkind : g.sending = f.sending :=
      Duty.send.inj ((h.flights g hg).1.symm.trans hsend)
    rw [← hkind] at hduty
    exact ⟨g.sending, hduty, ha g hg current hcurrent⟩

namespace Session

variable {s : Session} {e : Engine}

theorem step_isMatched (h : s.IsCoherent e) (ha : s.IsAwaited) (hm : s.IsMatched) (move : Move) :
    (s.step e move).IsMatched := by
  intro r' hr' n hn current hcurrent
  cases step_retains h move hr' hn with
  | leased hleased =>
    cases hleased.symm.trans hcurrent
    rfl
  | held r hr hrole hin hcontent =>
    rw [hcontent] at hcurrent
    exact hm r hr n hin current hcurrent
  | touched r before after hr hrole hin hair hbefore hafter hmakes =>
    cases hafter.symm.trans hcurrent
    obtain ⟨message, hduty, hawaits⟩ := (h.round r hr).awaits (ha r hr) hair hin hbefore
    have hends := Round.terminated_of_makes hduty hawaits hmakes
    calc (after.withLease none).matter = after.matter := rfl
      _ = before.matter := hmakes.matter hends
      _ = n.matter := hm r hr n hin before hbefore

/-! ## §4. Records overwritten. -/

/-- What a move makes of a stored record.  Moves of a round write records of its role only. -/
inductive Rewrites (e : Engine) (s : Session) (move : Move) (n n' : Negotiation) : Prop
  | called (c : Call) (hmove : move = .call c) (hmakes : Call.Makes s.world n n')
  | decided (r : Round) (source target : State) (hr : s.round = some r) (hrole : n.role = r.role)
      (hduty : Duty.decide source target ∈ n.role.duties) (hstate : n.state = source.code)
      (hn' : n' = n.enter target.code s.world.now)
  | turned (k : Nat) (reply : Reply) (r : Round) (f : Flight) (kind : State)
      (hmove : move = .land k reply) (hr : s.round = some r) (hk : r.airborne[k]? = some f)
      (hrole : n.role = r.role) (hduty : Duty.send f.sending ∈ n.role.duties)
      (hawaits : n.Awaits f.sending) (hleased : f.leased.Keeps n)
      (hmessage : ∃ payload now, f.message = .forNegotiation f.leased payload
        ∧ e.payloadFor f.sending f.leased now = .ok payload)
      (hturn : Engine.Turn e f n s.world.now reply kind n') (hkeeps : n.Keeps n')
  | parked (r : Round) (m : Negotiation) (hr : s.round = some r) (hrole : n.role = r.role)
      (hm : m ∈ r.members) (hmatter : n.matter = m.matter) (hn' : n' = m.withPending true)

/-- What a move makes of what is stored for an id. -/
inductive Becomes (e : Engine) (s : Session) (move : Move) (id : String) : Prop
  | kept (hcontent : (s.step e move).world.ledger.content id = s.world.ledger.content id)
  | rewritten (n n' : Negotiation) (hn : s.world.ledger.content id = some n)
      (hn' : (s.step e move).world.ledger.content id = some (n'.withLease none))
      (hrewrites : Rewrites e s move n n')
  | opened (c : Call) (n : Negotiation) (hmove : move = .call c)
      (hnone : s.world.ledger.content id = none)
      (hn : (s.step e move).world.ledger.content id = some (n.withLease none))
      (hopens : Call.Opens s.world n)

theorem Rewrites.keeps {move : Move} {n n' : Negotiation} (h : Rewrites e s move n n') :
    n.Keeps n' := by
  cases h with
  | called c hmove hmakes => exact hmakes.keeps
  | decided r source target hr hrole hduty hstate hn' =>
    subst hn'
    exact (Negotiation.Keeps.refl n).enter _ _
  | turned k reply r f kind hmove hr hk hrole hduty hawaits hleased hmessage hturn hkeeps =>
    exact hkeeps
  | parked r m hr hrole hm hmatter hn' =>
    subst hn'
    exact (Negotiation.keeps_of_matter hmatter).withPending true

/-- What a move makes of what is stored. -/
theorem step_becomes (h : s.IsCoherent e) (ha : s.IsAwaited) (hm : s.IsMatched) (move : Move)
    (id : String) : Becomes e s move id := by
  -- One record is written: the one of the id or another.
  have hwritten {n n' : Negotiation} (hn : s.world.ledger.content n.id = some n)
      (hrewrites : Rewrites e s move n n') (hputs : s.world.Puts (s.step e move).world n') :
      Becomes e s move id := by
    by_cases hid : n'.id = id
    · rw [← hrewrites.keeps.id, hid] at hn
      refine .rewritten n n' hn ?_ hrewrites
      rw [← hid]
      exact hputs.content_self
    · exact .kept (hputs.content_of_ne hid)
  cases (step_effect h move).1 with
  | quiet hcontent hsupply => exact .kept (hcontent id)
  | called c n n' hmove hn hmakes hputs => exact hwritten hn (.called c hmove hmakes) hputs
  | decided r n source target hr hduty hrole hstate hn hedge hputs =>
    have hin : Duty.decide source target ∈ n.role.duties := by
      rw [hrole, ← hduty]
      exact (h.round r hr).duty
    exact hwritten hn (.decided r source target hr hrole hin hstate rfl) hputs
  | turned k reply r f n n' kind hmove hr hk hn hid hturn hkeeps hputs =>
    have hf : f ∈ r.airborne := List.mem_of_getElem? hk
    have hround := h.round r hr
    obtain ⟨hsend, hmessage⟩ := hround.flights f hf
    obtain ⟨_, _, hrole, current, hcurrent, hleased⟩ :=
      hround.leased f.leased (List.mem_append_right _ (List.mem_map_of_mem hf))
    rw [← hid] at hcurrent
    cases hcurrent.symm.trans hn
    have hnrole : n.role = r.role := hleased.role.trans hrole
    have hin : Duty.send f.sending ∈ n.role.duties := by
      rw [hnrole, ← hsend]
      exact hround.duty
    have hawaits : n.Awaits f.sending := ha r hr f hf n (hid ▸ hn)
    exact hwritten hn
      (.turned k reply r f kind hmove hr hk hnrole hin hawaits hleased hmessage hturn hkeeps) hputs
  | born c n hmove hopens hbears =>
    by_cases hid : n.id = id
    · refine .opened c n hmove ?_ ?_ hopens
      · rw [← hid, hbears.id]
        exact h.orderly.content_nextId
      · rw [hbears.content, if_pos hid]
    · exact .kept (by rw [hbears.content, if_neg hid])
  | parked m hparks hputs =>
    obtain ⟨_, _, r, rest, hr, hahead, _⟩ := hparks
    have hin : m ∈ r.members := by simp [Round.members, hahead]
    obtain ⟨_, _, hrole, current, hcurrent, hkeeps⟩ := (h.round r hr).leased m hin
    have hmatter := hm r hr m hin current hcurrent
    rw [← hkeeps.id] at hcurrent
    exact hwritten hcurrent
      (.parked r m hr (hkeeps.role.trans hrole) hin hmatter rfl) hputs

end Session

end Parley
