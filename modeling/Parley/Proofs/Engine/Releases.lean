/-
  Parley.Proofs.Engine.Releases
  ────────────────────────────────
  **NO LEASE OUTLIVES THE TICK THAT TOOK IT.**

  A record is leased for a moment by a request or a message about it, and for a
  while by a tick.  A lease ends with the record being written, or parked, or
  given back, and a message that comes in while the record's own message is on
  its way ends it as well.  So throughout a run

      every lease is on a record that a tick under way has not dealt with yet

  (`Office.IsTidy`), and between ticks no record is leased
  (`no_lease_between_ticks`).

  What breaks down leaves its lease behind.  So this is said of runs in which the
  leases that are taken have ends, and of these it is said too that nothing
  breaks down.
-/
import Parley.Proofs.Engine.Breakdowns
import Parley.Proofs.Engine.Strokes

namespace Parley

/-! ## §1. Leases after an operation. -/

/-- No record is leased. -/
def Ledger.IsUnleased (l : Ledger) : Prop :=
  ∀ n ∈ l.entries, n.lease = none

theorem Ledger.isUnleased_iff {l : Ledger} : l.IsUnleased ↔ ∀ id, ¬ l.IsLeased id := by
  constructor
  · rintro h id ⟨n, hn, hlease⟩
    rw [h n (mem_of_find? hn)] at hlease
    cases hlease
  · intro h n hn
    cases hlease : n.lease with
    | none => rfl
    | some lease => exact absurd ⟨n, find?_of_mem hn, by rw [hlease]; rfl⟩ (h n.id)

namespace Engine

variable {e : Engine} {w w' : World} {id : String}

/-- A request or a message leaves no lease that was not there before. -/
theorem Answer.leases {r : Handled} (h : Answer w r w') (hl : w'.ledger.IsLeased id) :
    w.ledger.IsLeased id := by
  cases h with
  | away err => exact hl
  | known n => exact hl
  | back err id' => exact (Ledger.isLeased_setLease_none hl).1
  | granted kind n m hn hentered => exact (Ledger.isLeased_put hl).1
  | opened kind m hid hstate => exact (Ledger.isLeased_put hl).1

/-- A record is leased when it has been begun only if its message is on its way. -/
theorem Began.leases {duty : Duty} {n : Negotiation} {b : Begun} (h : Began e w duty n b w')
    (hl : w'.ledger.IsLeased id) :
    w.ledger.IsLeased id ∧ (n.id = id → ∃ f, b = .sending f ∧ f.leased = n) := by
  cases h with
  | parked hguard =>
    obtain ⟨hbefore, hne⟩ := Ledger.isLeased_put hl
    exact ⟨hbefore, fun hid => absurd hid hne⟩
  | left hguard =>
    obtain ⟨hbefore, hne⟩ := Ledger.isLeased_setLease_none hl
    exact ⟨hbefore, fun hid => absurd hid hne⟩
  | moved kind m hguard hentered hduty =>
    obtain ⟨hbefore, hne⟩ := Ledger.isLeased_put hl
    exact ⟨hbefore, fun hid => absurd (hentered.id.trans hid) hne⟩
  | sending f hguard hleased hduty => exact ⟨hl, fun _ => ⟨f, rfl, hleased⟩⟩

/-- A record is not leased once the reply to its message is dealt with. -/
theorem Landed.leases {f : Flight} {reply : Reply} {counts : Bool}
    (h : Landed e w f reply counts w') (hl : w'.ledger.IsLeased id) :
    w.ledger.IsLeased id ∧ f.leased.id ≠ id := by
  cases h with
  | gone counts hn =>
    refine ⟨hl, fun hid => ?_⟩
    obtain ⟨n, hfound, _⟩ := hl
    rw [← hid, hn] at hfound
    cases hfound
  | left n hn => exact Ledger.isLeased_setLease_none hl
  | moved kind n m hn hturn =>
    obtain ⟨hbefore, hne⟩ := Ledger.isLeased_put hl
    refine ⟨hbefore, fun hid => hne ?_⟩
    show m.id = id
    rw [hturn.id, Ledger.id_of_find? hn, hid]

end Engine

theorem Call.leases_run {e : Engine} {w : World} (hw : w.ledger.HeldBy e.handle.holder)
    (c : Call) {id : String} (hl : (c.run e w).ledger.IsLeased id) : w.ledger.IsLeased id := by
  cases c with
  | initiate r => exact (Engine.answer_initiate hw r).leases hl
  | notify inlet m => exact (Engine.answer_notify hw inlet m).leases hl
  | terminate id' reason => exact (Engine.answer_terminate hw id' reason).leases hl
  | advance ms => exact hl

/-! ## §2. Leases and the tick under way. -/

namespace Round

variable {r : Round} {n m : Negotiation}

/-- A record that is begun leaves the batch, or its message is on its way. -/
theorem members_of_ahead {rest : List Negotiation} (hahead : r.ahead = n :: rest)
    (hm : m ∈ r.members) (hne : n.id ≠ m.id) : m ∈ { r with ahead := rest }.members := by
  rw [members, hahead] at hm
  rcases List.mem_cons.mp hm with rfl | hrest
  · exact absurd rfl hne
  · exact hrest

/-- A record whose reply is dealt with leaves the round, and no other does. -/
theorem members_of_airborne {k : Nat} {f : Flight} (hk : r.airborne[k]? = some f)
    (hm : m ∈ r.members) (hne : f.leased.id ≠ m.id) :
    m ∈ { r with airborne := r.airborne.eraseIdx k }.members := by
  rcases List.mem_cons.mp ((members_perm hk).symm.subset hm) with rfl | hrest
  · exact absurd rfl hne
  · exact hrest

end Round

namespace Session

variable {s : Session} {e : Engine} {w : World} {id : String}

/-- The tick under way works with the record of an id. -/
def Has (s : Session) (id : String) : Prop :=
  ∃ r, s.round = some r ∧ ∃ n ∈ r.members, n.id = id

/-- What is leased for a duty is the batch. -/
theorem isLeased_lookAfter (hw : w.IsOrderly e.handle.holder) (role : Role) (duties : List Duty)
    (hl : (lookAfter e w role duties).world.ledger.IsLeased id) :
    (lookAfter e w role duties).Has id ∨ w.ledger.IsLeased id := by
  cases duties with
  | nil => exact .inr hl
  | cons duty later =>
    rw [lookAfter_cons, Engine.lease_direct hw.isKnown] at hl ⊢
    rcases Ledger.isLeased_leaseEach hl with hbefore | hbatch
    · exact .inr hbefore
    · obtain ⟨n, hn, hid⟩ := List.mem_map.mp hbatch
      exact .inl ⟨_, rfl, n, List.mem_append_left _ hn, hid⟩

theorem isLeased_beginOne (h : s.IsCoherent e) {r : Round} {n : Negotiation}
    {rest : List Negotiation} (hr : s.round = some r) (hahead : r.ahead = n :: rest)
    (hl : (beginOne e s.world r n rest).world.ledger.IsLeased id) :
    (beginOne e s.world r n rest).Has id ∨ s.world.ledger.IsLeased id ∧ ¬ s.Has id := by
  have hbegan := Engine.began (h.orderly.held.not_shields n.id s.world.now) r.role r.duty
  unfold beginOne at hl ⊢
  generalize e.begin .direct r.role r.duty n s.world = result at hbegan hl ⊢
  obtain ⟨begun, w'⟩ := result
  cases begun with
  | done handled =>
    obtain ⟨hbefore, hself⟩ := hbegan.leases hl
    have hne : n.id ≠ id := fun hid => by
      obtain ⟨f, hf, _⟩ := hself hid
      cases hf
    by_cases hhas : s.Has id
    · obtain ⟨r', hr', m, hm, rfl⟩ := hhas
      cases hr.symm.trans hr'
      exact .inl ⟨_, rfl, m, Round.members_of_ahead hahead hm hne, rfl⟩
    · exact .inr ⟨hbefore, hhas⟩
  | sending f =>
    cases hbegan with
    | sending f hguard hleased hduty =>
      by_cases hhas : s.Has id
      · -- The record goes on being one of the round's.
        obtain ⟨r', hr', m, hm, rfl⟩ := hhas
        cases hr.symm.trans hr'
        refine .inl ⟨_, rfl, ?_⟩
        by_cases hne : n.id = m.id
        · refine ⟨f.leased, List.mem_append_right _ ?_, by rw [hleased, hne]⟩
          exact List.mem_map_of_mem (List.mem_append_right _ List.mem_cons_self)
        · refine ⟨m, ?_, rfl⟩
          rcases List.mem_append.mp (Round.members_of_ahead hahead hm hne) with hin | hin
          · exact List.mem_append_left _ hin
          · obtain ⟨g, hg, rfl⟩ := List.mem_map.mp hin
            exact List.mem_append_right _ (List.mem_map_of_mem (List.mem_append_left _ hg))
      · exact .inr ⟨hl, hhas⟩

theorem isLeased_landOne (h : s.IsCoherent e) {r : Round} (hr : s.round = some r) (k : Nat)
    (reply : Reply) (hl : (landOne e s.world r k reply).world.ledger.IsLeased id) :
    (landOne e s.world r k reply).Has id ∨ s.world.ledger.IsLeased id ∧ ¬ s.Has id := by
  unfold landOne at hl ⊢
  by_cases hhas : s.Has id
  · obtain ⟨r', hr', m, hm, rfl⟩ := hhas
    cases hr.symm.trans hr'
    cases hk : r.airborne[k]? with
    | none => exact .inl ⟨r, rfl, m, hm, rfl⟩
    | some f =>
      rw [hk] at hl
      obtain ⟨_, hne⟩ := (Engine.landed_of_not_shields
        (h.orderly.held.not_shields f.leased.id s.world.now) r.role reply).leases hl
      exact .inl ⟨_, rfl, m, Round.members_of_airborne hk hm hne, rfl⟩
  · refine .inr ⟨?_, hhas⟩
    cases hk : r.airborne[k]? with
    | none =>
      rw [hk] at hl
      exact hl
    | some f =>
      rw [hk] at hl
      exact ((Engine.landed_of_not_shields
        (h.orderly.held.not_shields f.leased.id s.world.now) r.role reply).leases hl).1

/-- A record that is leased after a move is one that the tick has, or it was leased before and is
none that the tick had. -/
theorem isLeased_step (h : s.IsCoherent e) (move : Move)
    (hl : (s.step e move).world.ledger.IsLeased id) :
    (s.step e move).Has id ∨ s.world.ledger.IsLeased id ∧ ¬ s.Has id := by
  have hstep := step_cases e s move
  generalize s.step e move = s' at hstep hl ⊢
  cases hstep with
  | idle => exact (Classical.em (s.Has id)).imp_right fun hnot => ⟨hl, hnot⟩
  | called c hmove hopen =>
    have hbefore := c.leases_run h.orderly.held hl
    exact (Classical.em (s.Has id)).imp (fun hhas => hhas) fun hnot => ⟨hbefore, hnot⟩
  | started role hmove hr =>
    refine (isLeased_lookAfter h.orderly role role.duties hl).imp_right fun hbefore => ⟨hbefore, ?_⟩
    rintro ⟨r, hr', _⟩
    rw [hr] at hr'
    cases hr'
  | worked r s' hr hround =>
    cases hround with
    | idle =>
      refine (Classical.em (s.Has id)).imp (fun hhas => ?_) fun hnot => ⟨hl, hnot⟩
      obtain ⟨r', hr', hin⟩ := hhas
      cases hr.symm.trans hr'
      exact ⟨r, rfl, hin⟩
    | begun n rest hmove hahead hroom => exact isLeased_beginOne h hr hahead hl
    | landed k reply hmove => exact isLeased_landOne h hr k reply hl
    | next hmove hdone =>
      refine (isLeased_lookAfter h.orderly r.role r.later hl).imp_right fun hbefore =>
        ⟨hbefore, ?_⟩
      rintro ⟨r', hr', m, hm, _⟩
      cases hr.symm.trans hr'
      rw [hdone] at hm
      cases hm

end Session

/-! ## §3. Throughout a run. -/

namespace Office

variable {e : Engine} {o : Office}

/-- Every lease is on a record that a tick under way works with. -/
def IsTidy (o : Office) : Prop :=
  ∀ id, o.world.ledger.IsLeased id → ∃ role, (o.session role).Has id

theorem isTidy_blank (now : Instant) (supply : IdSupply) : (blank now supply).IsTidy :=
  fun id hl => absurd hl (Ledger.not_isLeased_empty id)

theorem IsTidy.step (h : o.IsCoherent e) (ht : o.IsTidy) (act : Act) : (o.step e act).IsTidy := by
  intro id hl
  cases act with
  | call c =>
    unfold Office.step at hl ⊢
    simp only at hl ⊢
    split at hl
    · rename_i hopen
      rw [if_pos hopen]
      exact ht id (c.leases_run (h.steady .consumer).coherent.orderly.held hl)
    · rename_i hclosed
      rw [if_neg hclosed]
      exact ht id hl
  | work role chore =>
    rcases Session.isLeased_step (h.steady role).coherent (chore.move role) hl with
      hhas | ⟨hbefore, hnot⟩
    · refine ⟨role, ?_⟩
      show ((o.work e role (chore.move role)).session role).Has id
      rw [session_work_self]
      exact hhas
    -- The lease is the other tick's.
    · obtain ⟨other, r, hr, hin⟩ := ht id hbefore
      have hne : other ≠ role := by
        rintro rfl
        exact hnot ⟨r, hr, hin⟩
      exact ⟨other, r, (round_work_other hne _).trans hr, hin⟩

theorem IsTidy.run (h : o.IsCoherent e) (ht : o.IsTidy) (acts : List Act) :
    (o.run e acts).IsTidy := by
  induction acts generalizing o with
  | nil => exact ht
  | cons act acts ih => exact ih (h.step act) (ht.step h act)

theorem IsTidy.isUnleased (ht : o.IsTidy) (hidle : ∀ role, o.round role = none) :
    o.world.ledger.IsUnleased := by
  refine Ledger.isUnleased_iff.mpr fun id hl => ?_
  obtain ⟨role, r, hr, _⟩ := ht id hl
  cases (hidle role).symm.trans hr

/-- In every run of an engine that has its store to itself, whatever the guard, the replies and the
clock, if only the leases that are taken have ends: no act breaks down, and every lease is on a record
that a tick under way works with.  So no record is leased while no tick is under way; nor after a
request or a message that comes then, accepted or refused; nor after a tick of a role, whatever comes
while its messages are on their way, and however they end; and none of these breaks down. -/
theorem no_lease_between_ticks (e : Engine) (now : Instant) (supply : IdSupply) (acts : List Act)
    (htimely : (blank now supply).isTimelyAlong e acts = true) :
    let o := (blank now supply).run e acts
    (blank now supply).tryRun e acts = some o ∧ o.IsTidy
      ∧ ((∀ role, o.round role = none) →
          o.world.ledger.IsUnleased
          ∧ (∀ c : Call, c.tried e o.world = some (c.run e o.world)
              ∧ (c.run e o.world).ledger.IsUnleased)
          ∧ ∀ (send : Dispatch) (send' : Flight → OptionT (StateM World) Reply) (role : Role),
              send.IsCalls e → (∀ f, Echoes (World.IsTimely · e.handle) (send f) (send' f)) →
              0 < e.maxConcurrent →
              ∃ count w', (e.runRole (.strictly send') role).run o.world = (some count, w')
                ∧ w'.ledger.IsUnleased) := by
  intro o
  have hcoherent : o.IsCoherent e := (isCoherent_blank e now supply).run acts
  have htidy : o.IsTidy := (isTidy_blank now supply).run (isCoherent_blank e now supply) acts
  obtain ⟨hmade, hworld⟩ := tryRun_of_isTimelyAlong Ledger.leasesEnd_empty htimely
  refine ⟨hmade, htidy, fun hidle => ⟨htidy.isUnleased hidle, fun c => ?_, ?_⟩⟩
  · refine ⟨(c.tried_of_isTimely hworld).1, Ledger.isUnleased_iff.mpr fun id hl => ?_⟩
    have hbefore := c.leases_run (hcoherent.steady .consumer).coherent.orderly.held hl
    exact Ledger.isUnleased_iff.mp (htidy.isUnleased hidle) id hbefore
  · intro send send' role hsend hechoes hroom
    refine ⟨_, _, (Access.echoes_runRole hechoes role).run o.world hworld, ?_⟩
    obtain ⟨more, hsame, hdone⟩ := run_of_runRole hsend hroom hidle role
    rw [← hsame]
    exact (htidy.run hcoherent more).isUnleased hdone

section Breakdown

variable {M : Type → Type} [Monad M]

/-- Ten minutes pass, unless that would be beyond the calendar. -/
def longWait (a : Access M) : M Unit := do
  let now ← a.now
  if (Session.unhindered.handle.leaseAt (now.addMillis 600000)).hasEnd then a.advance 600000
  else return ()

/-- A way to send messages that panics, long after any lease has run out, and on the way the
negotiation of the record is ended. -/
def breakdown (a : Access M) (f : Flight) : M Reply := do
  longWait a
  let _ ← (Call.terminate f.leased.id "stop").perform Session.unhindered a
  return .panicked

end Breakdown

theorem longWait_direct (w : World) : longWait .direct w
    = ((), if (Session.unhindered.handle.leaseAt (w.now.addMillis 600000)).hasEnd then
        w.advance 600000 else w) := by
  show (if (Session.unhindered.handle.leaseAt (w.now.addMillis 600000)).hasEnd = true then
    Access.direct.advance 600000 else pure () : StateM World Unit) w = _
  split
  · rfl
  · rfl

theorem echoes_longWait :
    Echoes (World.IsTimely · Session.unhindered.handle) (longWait .direct) (longWait .strict) where
  run w hw := by
    rw [longWait_direct]
    unfold longWait
    rw [run_bind_strict]
    show (if _ then _ else _ : OptionT (StateM World) Unit).run w = _
    split <;> rfl
  keeps w hw := by
    rw [longWait_direct]
    simp only
    split
    · rename_i hend
      exact ⟨hw.stored, hend⟩
    · exact hw

theorem echoes_breakdown (f : Flight) :
    Echoes (World.IsTimely · Session.unhindered.handle) (breakdown .direct f)
      (breakdown .strict f) :=
  have hcall := (Access.strictly Session.unhindered.handle).passage.performCall
    (e := Session.unhindered) (.terminate f.leased.id "stop") nofun
  echoes_longWait.bind fun _ => hcall.bind fun _ => .pure _

theorem breakdown_isCalls : Dispatch.IsCalls (breakdown .direct) Session.unhindered := by
  intro f w
  let ended : Call := .terminate f.leased.id "stop"
  have hworld : (breakdown .direct f w).2
      = (ended.perform Session.unhindered .direct (longWait .direct w).2).2 := rfl
  rw [hworld, longWait_direct]
  simp only
  split
  · exact ⟨[.advance 600000, ended], (ended.run_eq_perform Session.unhindered _).symm⟩
  · exact ⟨[ended], (ended.run_eq_perform Session.unhindered _).symm⟩

/-- A consumer's negotiation is started. -/
def untilInitiated : List Act :=
  [.call (.initiate ⟨"provider", "http://provider", "dsp", ⟨"offer", "asset", "provider", {}⟩⟩)]

theorem round_untilInitiated (role : Role) :
    ((blank default).run Session.unhindered untilInitiated).round role = none := by
  cases role <;> decide +kernel

/-- A tick with such a message leaves a record. -/
theorem size_after_breakdown :
    (Session.unhindered.runRole (.oneByOne (breakdown .direct)) .consumer
      ((blank default).run Session.unhindered untilInitiated).world).2.ledger.size = 1 := by
  decide +kernel

/-- It leaves no lease. -/
theorem no_lease_after_breakdown :
    (blank default).isTimelyAlong Session.unhindered untilInitiated = true
      ∧ (∀ role, ((blank default).run Session.unhindered untilInitiated).round role = none)
      ∧ Dispatch.IsCalls (breakdown .direct) Session.unhindered
      ∧ (∀ f, Echoes (World.IsTimely · Session.unhindered.handle) (breakdown .direct f)
        (breakdown .strict f))
      ∧ 0 < Session.unhindered.maxConcurrent
      ∧ ∃ count w', (Session.unhindered.runRole (.strictly (breakdown .strict)) .consumer).run
          ((blank default).run Session.unhindered untilInitiated).world = (some count, w')
        ∧ w'.ledger.size = 1 ∧ w'.ledger.IsUnleased := by
  have htimely : (blank default).isTimelyAlong Session.unhindered untilInitiated = true := by
    decide +kernel
  have hroom : 0 < Session.unhindered.maxConcurrent := by decide
  obtain ⟨_, _, hidle⟩ :=
    no_lease_between_ticks Session.unhindered default .counted untilInitiated htimely
  obtain ⟨_, _, hticks⟩ := hidle round_untilInitiated
  obtain ⟨count, w', hrun, hclean⟩ := hticks (breakdown .direct) (breakdown .strict) .consumer
    breakdown_isCalls echoes_breakdown hroom
  have hsize : w'.ledger.size = 1 := by
    obtain ⟨_, hworld⟩ := tryRun_of_isTimelyAlong Ledger.leasesEnd_empty htimely
    have hdirect := (Access.echoes_runRole echoes_breakdown .consumer).run _ hworld
    rw [hrun] at hdirect
    rw [(Prod.mk.inj hdirect).2]
    exact size_after_breakdown
  exact ⟨htimely, round_untilInitiated, breakdown_isCalls, echoes_breakdown, hroom, count, w', hrun,
    hsize, hclean⟩

end Office

end Parley
