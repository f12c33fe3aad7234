/-
  Parley.Proofs.Engine.Parking
  ────────────────────────────────
  **PARKED RECORDS ARE LEFT ALONE.**

  A record that the guard holds back is stored as pending, and the criteria of a
  duty find no such record.  It comes back with the next message about it that is
  accepted, or with the wish to end it (`Call.wakes`); until then a tick of
  either role does not lease it, and so neither writes it nor sends a message
  about it.

      Call.wakes_or_keeps   a call stores a record as not pending, or it leaves
                            the record alone
      IsAwake               no record that a tick works with is pending
      parked_left_alone     what a run makes of a parked record
-/
import Parley.Proofs.Engine.Attempts
import Parley.Proofs.Engine.Releases

namespace Parley

/-! ## §1. Calls that wake a record. -/

namespace Call

/-- Whether a call that is carried out wakes a record: an accepted message that is addressed to it
does, and the wish to end it that is granted. -/
def wakes (e : Engine) (w : World) (id : String) : Call → Bool
  | initiate _ | advance _ => false
  | notify inlet m =>
    (m.addressee? w.ledger).bind m.processIdFor == some id && (e.notify .direct inlet m w).1.isOk
  | terminate other reason => other == id && (e.terminate .direct other reason w).1.isOk

variable {e : Engine} {w : World} {c : Call} {id : String}

/-- A call wakes no record but the one that it names. -/
theorem names_of_wakes (h : c.wakes e w id = true) : c.names id = true := by
  cases c with
  | initiate r | advance ms => cases h
  | notify inlet m =>
    simp only [wakes, Bool.and_eq_true, beq_iff_eq] at h
    obtain ⟨role, _, hpid⟩ := Option.bind_eq_some_iff.mp h.1
    exact names_notify hpid
  | terminate other reason =>
    simp only [wakes, Bool.and_eq_true] at h
    exact h.1

/-- What a call makes of a record is not pending. -/
theorem Makes.pending {n n' : Negotiation} (h : Makes w n n') : n'.pending = false := by
  cases h with
  | accepted m haddr hok =>
    obtain ⟨_, _, _, rfl⟩ := Message.acceptedBy_eq_ok_iff.mp hok
    show (m.enrich (n.withPending false)).pending = false
    unfold Message.enrich
    cases m.payload with
    | termination reason policy => cases reason <;> rfl
    | _ => rfl
  | doomed reason hedge hn' =>
    subst hn'
    rfl

/-- A call stores a record as not pending, or it leaves the record alone. -/
inductive Wakes (e : Engine) (w : World) (c : Call) (id : String) : Bool → Prop
  | woken (n : Negotiation) (hn : (c.run e w).ledger.content id = some n)
      (hpending : n.pending = false) : Wakes e w c id true
  | kept (hcontent : (c.run e w).ledger.content id = w.ledger.content id) : Wakes e w c id false

theorem Wakes.of_makes {n n' : Negotiation} (hmakes : Makes w n n')
    (hn' : (c.run e w).ledger.content id = some (n'.withLease none)) : Wakes e w c id true :=
  .woken _ hn' hmakes.pending

/-- A message is accepted by the record that it is addressed to, or that record stays as it is. -/
theorem wakes_of_receipt {inlet : Inlet} {m : Message} {w' : World}
    (hrun : (notify inlet m).run e w = w')
    (hreceipt : Engine.Receipt e w m (e.notify .direct inlet m w).1 w')
    (hnew : id ≠ w.nextId) : Wakes e w (notify inlet m) id ((notify inlet m).wakes e w id) := by
  subst hrun
  -- A contract request is addressed to no record that is stored.
  have hrequest {offer : Offer} {callbackAddress consumerId : String}
      (hm : m.payload = .contractRequest offer callbackAddress consumerId) :
      (notify inlet m).wakes e w id = false := by
    unfold wakes
    simp only
    rw [Message.addressee?_of_request hm]
    rfl
  cases hreceipt with
  | refused err hr hm hno hsame =>
    have hasleep : (notify inlet m).wakes e w id = false := by
      unfold wakes
      simp only
      rw [hr]
      exact Bool.and_false _
    rw [hasleep]
    exact .kept (hsame.content id)
  | known offer callbackAddress consumerId n hm hn hr hsame =>
    rw [hrequest hm]
    exact .kept (by rw [hsame])
  | accepted role n found haddr hpid hn hok hr hid hputs =>
    have hrole : n.role = role := (Message.acceptedBy_eq_ok_iff.mp hok).1
    have hwakes : (notify inlet m).wakes e w id = decide (n.id = id) := by
      unfold wakes
      simp only
      rw [haddr, hr, Option.bind_some, hpid]
      show (some n.id == some id && true) = _
      rw [Bool.and_true]
      by_cases hname : n.id = id <;> simp [hname]
    rw [hwakes]
    by_cases hname : n.id = id
    · subst hname hrole
      have hself := hputs.content_self
      rw [Message.id_outcome] at hself
      rw [decide_eq_true rfl]
      exact .of_makes (.accepted m haddr hok) hself
    · rw [decide_eq_false hname]
      exact .kept (hputs.content_of_ne (by rw [Message.id_outcome]; exact hname))
  | opened offer callbackAddress consumerId hm hunknown hr hbears =>
    rw [hrequest hm]
    rcases content_of_bears hbears id with ⟨hid, _⟩ | hkept
    · exact absurd hid hnew
    · exact .kept hkept

/-- What a call makes of a stored record. -/
theorem wakes_or_keeps (hw : w.IsOrderly e.handle.holder) (c : Call) {n : Negotiation}
    (hn : w.ledger.content id = some n) : Wakes e w c id (c.wakes e w id) := by
  -- The id of a new record was free.
  have hnew : id ≠ w.nextId := by
    rintro rfl
    rw [hw.content_nextId] at hn
    cases hn
  by_cases hnames : c.names id = true
  · cases c with
    | initiate r | advance ms => cases hnames
    | notify inlet m =>
      by_cases htakes : inlet.takes m.payload = true
      · have hnotify : e.notify .direct inlet m w = e.receive .direct m w := by
          rw [e.notify_eq, if_pos htakes]
        have hrun : (notify inlet m).run e w = (e.receive .direct m w).2 :=
          congrArg Prod.snd hnotify
        refine wakes_of_receipt hrun ?_ hnew
        rw [hnotify]
        exact (e.receive_effect hw.held m).1
      -- The operation does not take such messages.
      · have hnotify : e.notify .direct inlet m w
            = (Engine.unexpected inlet.expected m : StateM World Handled) w := by
          rw [e.notify_eq, if_neg htakes]
        have hasleep : (notify inlet m).wakes e w id = false := by
          unfold wakes
          simp only
          rw [hnotify]
          exact Bool.and_false _
        rw [hasleep]
        exact .kept (by
          show (e.notify .direct inlet m w).2.ledger.content id = _
          rw [hnotify]
          rfl)
    | terminate other reason =>
      have hid : other = id := beq_iff_eq.mp hnames
      subst hid
      have hwakes : (terminate other reason).wakes e w other
          = (e.terminate .direct other reason w).1.isOk := by
        unfold wakes
        simp only
        rw [beq_self_eq_true, Bool.true_and]
      rw [hwakes]
      obtain ⟨stored, hstored, rfl⟩ := Ledger.find?_of_content hn
      cases hedge : stored.checkEdge .terminating with
      | ok _ =>
        obtain ⟨hok, hdoomed⟩ := terminate_of_edge hw.held hn hedge reason
        rw [hok]
        exact .of_makes (.doomed reason hedge rfl) hdoomed
      | error err =>
        have hrefused : e.terminate .direct other reason w
            = (.error (.transition err), (w.lend e.handle other).free other) := by
          rw [Engine.terminate_direct (hw.held.not_shields other w.now), hstored]
          simp only [hedge]
        rw [hrefused]
        refine .kept ?_
        show (e.terminate .direct other reason w).2.ledger.content other = _
        rw [hrefused]
        rw [World.lend_free]
        exact Ledger.content_setLease w.ledger other other none
  -- A call that does not name the record does not wake it either.
  · have hasleep : c.wakes e w id = false :=
      Bool.eq_false_iff.mpr fun hwakes => hnames (names_of_wakes hwakes)
    rw [hasleep]
    exact .kept ((content_of_not_names hw (Bool.eq_false_iff.mpr hnames) hn).trans hn.symm)

end Call

/-! ## §2. What a tick works with is not pending. -/

namespace Session

variable {s : Session} {e : Engine} {w : World} {id : String}

/-- No record that a tick works with is stored as pending. -/
def IsAwake (s : Session) : Prop :=
  ∀ r, s.round = some r → ∀ m ∈ r.members, ∀ n, s.world.ledger.content m.id = some n →
    n.pending = false

/-- The records that are leased for a duty are not pending. -/
theorem lookAfter_isAwake (hw : w.IsOrderly e.handle.holder) (role : Role) (duties : List Duty) :
    (lookAfter e w role duties).IsAwake := by
  cases duties with
  | nil =>
    intro r hr
    cases hr
  | cons duty later =>
    rw [lookAfter_cons, Engine.lease_direct hw.isKnown]
    intro r hr m hm n hn
    cases hr
    have hbatch : m ∈ w.ledger.dutyBatch e.handle w.now e.batchSize role duty.state := by
      simpa [Round.members] using hm
    obtain ⟨hstored, _, _, hpending⟩ := Ledger.mem_dutyBatch hbatch
    rw [World.ledger_withLedger, Ledger.content_leaseEach, hstored] at hn
    cases hn
    exact hpending

theorem step_isAwake (h : s.IsCoherent e) (ha : s.IsAwake) (move : Move) :
    (s.step e move).IsAwake := by
  have hstep := step_cases e s move
  generalize s.step e move = s' at hstep ⊢
  cases hstep with
  | idle => exact ha
  | started role hmove hr => exact lookAfter_isAwake h.orderly role role.duties
  | called c hmove hopen =>
    intro r hr m hm n hn
    obtain ⟨_, _, _, before, hbefore, _⟩ := (h.round r hr).leased m hm
    have hwakes := Call.wakes_or_keeps h.orderly c hbefore
    generalize c.wakes e s.world m.id = woken at hwakes
    cases hwakes with
    | woken n' hn' hpending =>
      cases hn'.symm.trans hn
      exact hpending
    | kept hcontent => exact ha r hr m hm n (hcontent.symm.trans hn)
  | worked r s' hr hround =>
    cases hround with
    | idle => exact fun r' hr' => ha r' (hr.trans hr')
    | next hmove hdone => exact lookAfter_isAwake h.orderly r.role r.later
    | begun m rest hmove hahead hroom =>
      intro r' hr' k hk n hn
      obtain ⟨hin, hcontent⟩ := (beginOne_members h hr hahead hr').2 k hk
      exact ha r hr k hin n (hcontent.symm.trans hn)
    | landed k reply hmove =>
      intro r' hr' m hm n hn
      obtain ⟨hin, hcontent⟩ := (landOne_members h hr k reply hr').2 m hm
      exact ha r hr m hin n (hcontent.symm.trans hn)

/-- A pending record is none that the tick works with. -/
theorem IsAwake.rests (ha : s.IsAwake) {n : Negotiation}
    (hn : s.world.ledger.content id = some n) (hpending : n.pending = true) : s.Rests id := by
  rintro r hr m hm rfl
  rw [ha r hr m hm n hn] at hpending
  cases hpending

/-- A session stays awake where the records that it works with stay. -/
theorem IsAwake.congr (ha : s.IsAwake) (hcontent : ∀ r, s.round = some r → ∀ n ∈ r.members,
    w.ledger.content n.id = s.world.ledger.content n.id) : ({ s with world := w } : Session).IsAwake :=
  fun r hr m hm n hn => ha r hr m hm n ((hcontent r hr m hm).symm.trans hn)

end Session

namespace Office

variable {e : Engine} {o : Office} {id : String} {n : Negotiation}

/-- What the tick of one role works with is left alone by the tick of the other. -/
theorem IsCoherent.content_of_other (h : o.IsCoherent e) {role other : Role} (hne : other ≠ role)
    (chore : Chore) {r : Round} (hr : o.round other = some r) {m : Negotiation}
    (hm : m ∈ r.members) :
    ((o.session role).step e (chore.move role)).world.ledger.content m.id
      = o.world.ledger.content m.id := by
  obtain ⟨_, _, hrole, current, hcurrent, hkeeps⟩ :=
    ((h.steady other).coherent.round r hr).leased m hm
  refine (h.steady role).content_of_role (chore.move_ne_call role) hcurrent fun r' hr' => ?_
  rw [hkeeps.role, hrole, h.role other r hr, h.role role r' hr']
  exact hne

/-- No record that a tick of either role works with is stored as pending. -/
def IsAwake (o : Office) : Prop :=
  ∀ role, (o.session role).IsAwake

theorem isAwake_blank (now : Instant) (supply : IdSupply) : (blank now supply).IsAwake := by
  intro role r hr
  cases hr

theorem IsAwake.step (h : o.IsCoherent e) (ha : o.IsAwake) (act : Act) : (o.step e act).IsAwake := by
  intro role
  cases act with
  | call c =>
    unfold Office.step
    simp only
    split
    · rename_i hopen
      rw [session_call hopen]
      exact Session.step_isAwake (h.steady role).coherent (ha role) _
    · exact ha role
  | work worker chore =>
    show ((o.work e worker (chore.move worker)).session role).IsAwake
    by_cases hrole : role = worker
    · subst hrole
      rw [session_work_self]
      exact Session.step_isAwake (h.steady role).coherent (ha role) _
    · have hsession : (o.work e worker (chore.move worker)).session role
          = { o.session role with world := ((o.session worker).step e (chore.move worker)).world } :=
        congrArg (Session.mk _) (round_work_other hrole _)
      rw [hsession]
      exact (ha role).congr fun r hr m hm => h.content_of_other hrole chore hr hm

theorem IsAwake.run (h : o.IsCoherent e) (ha : o.IsAwake) (acts : List Act) :
    (o.run e acts).IsAwake := by
  induction acts generalizing o with
  | nil => exact ha
  | cons act acts ih => exact ih (h.step act) (ha.step h act)

/-! ## §3. While nothing wakes a parked record. -/

/-- Whether an act wakes a record. -/
def rouses (e : Engine) (o : Office) (id : String) : Act → Bool
  | .call c => o.isOpen && c.wakes e o.world id
  | .work _ _ => false

/-- An act that does not name a record does not wake it. -/
theorem rouses_of_not_names {act : Act} (h : act.names id = false) : o.rouses e id act = false := by
  cases act with
  | work role chore => rfl
  | call c =>
    unfold rouses
    simp only
    rw [Bool.eq_false_iff.mpr fun hwakes => Bool.eq_false_iff.mp h (Call.names_of_wakes hwakes)]
    exact Bool.and_false _

/-- No act of a run wakes a record. -/
def LeavesAsleep (e : Engine) (o : Office) (id : String) : List Act → Prop
  | [] => True
  | act :: acts => o.rouses e id act = false ∧ LeavesAsleep e (o.step e act) id acts

theorem leavesAsleep_of_not_names {acts : List Act} (h : ∀ act ∈ acts, act.names id = false) :
    o.LeavesAsleep e id acts := by
  induction acts generalizing o with
  | nil => exact trivial
  | cons act acts ih =>
    exact ⟨rouses_of_not_names (h act List.mem_cons_self),
      ih fun other hother => h other (List.mem_cons_of_mem act hother)⟩

/-- A record is stored as pending. -/
structure Parks (o : Office) (n : Negotiation) (id : String) : Prop where
  stored : o.world.ledger.content id = some n
  pending : n.pending = true

/-- One act leaves a parked record as it is stored, and nothing is said about it. -/
theorem Parks.step (h : o.IsCoherent e) (ha : o.IsAwake) (hp : o.Parks n id) {act : Act}
    (hact : o.rouses e id act = false) :
    (o.step e act).Parks n id ∧ (o.step e act).told id = o.told id := by
  cases act with
  | work role chore =>
    have hrests := (ha role).rests hp.stored hp.pending
    obtain ⟨hcontent, _⟩ := hrests.step (h.steady role).coherent (h.role role) hp.stored chore
    refine ⟨⟨hcontent, hp.pending⟩, ?_⟩
    rw [told_work, hrests.settledFor_eq_nil, List.append_nil]
  | call c =>
    unfold Office.step
    simp only
    split
    · rename_i hopen
      have hasleep : c.wakes e o.world id = false := by
        unfold rouses at hact
        simpa [hopen] using hact
      have hwakes : Call.Wakes e o.world c id (c.wakes e o.world id) :=
        Call.wakes_or_keeps (h.steady .consumer).coherent.orderly c hp.stored
      rw [hasleep] at hwakes
      cases hwakes with
      | kept hcontent => exact ⟨⟨hcontent.trans hp.stored, hp.pending⟩, rfl⟩
    · exact ⟨hp, rfl⟩

theorem Parks.run (h : o.IsCoherent e) (ha : o.IsAwake) (hp : o.Parks n id) {acts : List Act}
    (hacts : o.LeavesAsleep e id acts) :
    (o.run e acts).Parks n id ∧ (o.run e acts).told id = o.told id := by
  -- Over the acts: the record is still parked.
  induction acts generalizing o with
  | nil => exact ⟨hp, rfl⟩
  | cons act acts ih =>
    obtain ⟨hact, hrest⟩ := hacts
    obtain ⟨hp', htold⟩ := hp.step h ha hact
    obtain ⟨hp'', htold'⟩ := ih (h.step act) (ha.step h act) hp' hrest
    exact ⟨hp'', htold'.trans htold⟩

/-- A record that no tick works with is stored without a lease. -/
theorem IsTidy.find?_of_rests (ht : o.IsTidy) (hrests : ∀ role, (o.session role).Rests id)
    (hn : o.world.ledger.content id = some n) : o.world.ledger.find? id = some n := by
  obtain ⟨stored, hstored, rfl⟩ := Ledger.find?_of_content hn
  cases hlease : stored.lease with
  | none =>
    have hbare : stored.withLease none = stored := by
      unfold Negotiation.withLease
      rw [← hlease]
    rw [hbare, hstored]
  | some lease =>
    obtain ⟨role, r, hr, m, hm, hid⟩ := ht id ⟨stored, hstored, by rw [hlease]; rfl⟩
    exact absurd hid (hrests role r hr m hm)

/-- In every run of an engine, a record that is stored as pending is left alone while no accepted
message and no granted wish to end it is about it, whatever is done meanwhile: it is stored as it
was in every field, no message about it was answered, and none is on its way.  The call that ends
this stores it as not pending. -/
theorem parked_left_alone (e : Engine) (now : Instant) (supply : IdSupply) (before : List Act)
    (id : String) (n : Negotiation)
    (hn : ((blank now supply).run e before).world.ledger.find? id = some n)
    (hpending : n.pending = true) (later : List Act)
    (hlater : ((blank now supply).run e before).LeavesAsleep e id later) :
    (((blank now supply).run e before).run e later).world.ledger.find? id = some n
      ∧ (((blank now supply).run e before).run e later).told id
          = ((blank now supply).run e before).told id
      ∧ (∀ role r f, (((blank now supply).run e before).run e later).round role = some r →
          f ∈ r.airborne → f.leased.id ≠ id)
      ∧ ∀ act, (((blank now supply).run e before).run e later).rouses e id act = true →
          ∃ n', ((((blank now supply).run e before).run e later).step e act).world.ledger.find? id
              = some n'
            ∧ n'.pending = false := by
  have hcoherent := (isCoherent_blank e now supply).run before
  have hawake := (isAwake_blank now supply).run (isCoherent_blank e now supply) before
  have htidy := (isTidy_blank now supply).run (isCoherent_blank e now supply) before
  generalize (blank now supply).run e before = o at hn hlater hcoherent hawake htidy ⊢
  have hparked : o.Parks (n.withLease none) id := ⟨Ledger.content_of_find? hn, hpending⟩
  have hbare : o.world.ledger.find? id = some (n.withLease none) :=
    htidy.find?_of_rests (fun role => (hawake role).rests hparked.stored hpending) hparked.stored
  obtain ⟨hend, htold⟩ := hparked.run hcoherent hawake hlater
  have hrests := fun role => ((hawake.run hcoherent later) role).rests hend.stored hpending
  refine ⟨?_, htold, fun role r f hr hf => ?_, fun act hact => ?_⟩
  · rw [(htidy.run hcoherent later).find?_of_rests hrests hend.stored, ← hbare, hn]
  · exact hrests role r hr f.leased (List.mem_append_right _ (List.mem_map_of_mem hf))
  · cases act with
    | work role chore => cases hact
    | call c =>
      have hwakes := Call.wakes_or_keeps
        ((hcoherent.run later).steady .consumer).coherent.orderly c hend.stored
      obtain ⟨hopen, hc⟩ := Bool.and_eq_true_iff.mp hact
      unfold Office.step
      simp only [if_pos hopen]
      generalize hwoken : c.wakes e _ id = woken at hwakes
      cases hwakes with
      | woken n' hn' hpending' =>
        obtain ⟨stored, hstored, rfl⟩ := Ledger.find?_of_content hn'
        exact ⟨stored, hstored, hpending'⟩
      | kept hcontent => exact absurd (hc.symm.trans hwoken) Bool.noConfusion

/-- An engine that holds back every new negotiation. -/
def cautious : Engine :=
  { Session.unhindered with guard := fun n => n.state = State.initial.code }

/-- A tick of a role that begins the first record of its first batch, and no other. -/
def briefTick (role : Role) : List Act :=
  [.work role .start, .work role .begin] ++ List.replicate 7 (.work role .next)

/-- A consumer's negotiation is parked, and then another; time goes on, and both roles are ticked. -/
def meanwhile : List Act :=
  untilInitiated ++ .call (.advance 600000) :: briefTick .consumer ++ briefTick .provider

/-- The first stays parked, until it is to be ended. -/
theorem parked_until_doomed :
    ∃ n n', ((blank default).run cautious (untilInitiated ++ briefTick .consumer)).world.ledger.find?
          "gen-0001" = some n ∧ n.pending = true
      ∧ (((blank default).run cautious (untilInitiated ++ briefTick .consumer)).run cautious
          meanwhile).world.ledger.find? "gen-0001" = some n
      ∧ ((((blank default).run cautious (untilInitiated ++ briefTick .consumer)).run cautious
          meanwhile).step cautious (.call (.terminate "gen-0001" "stop"))).world.ledger.find?
            "gen-0001" = some n' ∧ n'.pending = false := by
  have hparked : (((blank default).run cautious
      (untilInitiated ++ briefTick .consumer)).world.ledger.find? "gen-0001").map (·.pending)
        = some true := by decide +kernel
  have hrouses : (((blank default).run cautious (untilInitiated ++ briefTick .consumer)).run cautious
      meanwhile).rouses cautious "gen-0001" (.call (.terminate "gen-0001" "stop")) = true := by
    decide +kernel
  obtain ⟨n, hn, hpending⟩ := Option.map_eq_some_iff.mp hparked
  obtain ⟨hsame, _, _, hwoken⟩ := parked_left_alone cautious default .counted
    (untilInitiated ++ briefTick .consumer) "gen-0001" n hn hpending meanwhile
    (leavesAsleep_of_not_names (by decide))
  obtain ⟨n', hn', hpending'⟩ := hwoken _ hrouses
  exact ⟨n, n', hn, hpending, hsame, hn', hpending'⟩

end Office

end Parley
