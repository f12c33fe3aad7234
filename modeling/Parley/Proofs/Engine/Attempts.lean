/-
  Parley.Proofs.Engine.Attempts
  ────────────────────────────────
  **HOW OFTEN A MESSAGE IS SENT.**

  A message that is due is sent once in every tick that attends to its record.
  After a retryable failure it is due again, and the failures are counted; any
  other answer, and the failure that uses up the attempts, settles it.  So the
  answers alone decide how often it is sent (`Reply.tries`) and how the record
  ends (`sends_follow_answers`).  Afterwards the record never waits for that
  message again, whatever happens.
-/
import Parley.Proofs.Engine.Errand
import Parley.Proofs.Retry.Delay
import Parley.Proofs.World.Work
import Mathlib.Data.List.Infix

namespace Parley

/-! ## §1. Answers in order. -/

namespace Reply

variable {answers : Nat → Reply} {k limit : Nat}

/-- How often a message is sent whose answers come in an order: until one is no retryable failure,
and no more often than a limit says. -/
def tries (answers : Nat → Reply) : Nat → Nat
  | 0 => 0
  | limit + 1 =>
    if (answers 0).isRetryable then tries (fun i => answers (i + 1)) limit + 1 else 1

/-- The first answer that is no retryable failure is the last, if the limit is not reached before. -/
theorem tries_eq_min (hbefore : ∀ i < k, (answers i).isRetryable = true)
    (hlast : (answers k).isRetryable = false) (limit : Nat) :
    tries answers limit = min (k + 1) limit := by
  induction limit generalizing answers k with
  | zero => rw [tries, Nat.min_zero]
  | succ limit ih =>
    unfold tries
    cases k with
    | zero =>
      rw [if_neg (Bool.eq_false_iff.mp hlast)]
      omega
    | succ k =>
      rw [if_pos (hbefore 0 (Nat.succ_pos k)),
        ih (fun i hi => hbefore (i + 1) (Nat.succ_lt_succ hi)) hlast]
      omega

/-- While all failures are retryable the limit decides. -/
theorem tries_of_retryable (h : ∀ i < limit, (answers i).isRetryable = true) :
    tries answers limit = limit := by
  induction limit generalizing answers with
  | zero => rfl
  | succ limit ih =>
    unfold tries
    rw [if_pos (h 0 (Nat.succ_pos limit)),
      ih fun i hi => h (i + 1) (Nat.succ_lt_succ hi)]

theorem lt_tries (hbefore : ∀ i < k, (answers i).isRetryable = true) (hk : k < limit) :
    k < tries answers limit := by
  induction limit generalizing answers k with
  | zero => exact absurd hk (Nat.not_lt_zero k)
  | succ limit ih =>
    unfold tries
    cases k with
    | zero => split <;> exact Nat.succ_pos _
    | succ k =>
      rw [if_pos (hbefore 0 (Nat.succ_pos k))]
      exact Nat.succ_lt_succ
        (ih (fun i hi => hbefore (i + 1) (Nat.succ_lt_succ hi)) (Nat.lt_of_succ_lt_succ hk))

/-- The answer after which the message is settled. -/
theorem tries_eq (hbefore : ∀ i < k, (answers i).isRetryable = true) (hk : k < limit)
    (hlast : (answers k).isRetryable = false ∨ limit ≤ k + 1) : tries answers limit = k + 1 := by
  cases hretryable : (answers k).isRetryable with
  | false =>
    rw [tries_eq_min hbefore hretryable]
    omega
  | true =>
    have hlimit : limit = k + 1 := by
      rcases hlast with hlast | hlast
      · rw [hretryable] at hlast
        cases hlast
      · omega
    rw [hlimit]
    refine tries_of_retryable fun i hi => ?_
    by_cases hik : i = k
    · rw [hik]
      exact hretryable
    · exact hbefore i (by omega)

end Reply

/-! ## §2. What an act leaves alone. -/

/-- Whether an act is a call that names a record. -/
def Office.Act.names (id : String) : Act → Bool
  | call c => c.names id
  | work _ _ => false

namespace Office

variable {e : Engine} {o : Office} {role : Role} {id : String} {n : Negotiation}

/-- The messages about a record that were replied to, with the replies. -/
def told (o : Office) (id : String) : List (Flight × Reply) :=
  o.log.filter fun p => p.1.leased.id = id

/-- What holds throughout a run, and of the order of duties as well. -/
structure IsRegular (o : Office) (e : Engine) : Prop where
  coherent : o.IsCoherent e
  ordered : ∀ role, (o.session role).IsOrdered
  wellFormed : o.Holds fun _ n => n.IsWellFormed

theorem isRegular_blank (e : Engine) (now : Instant) (supply : IdSupply) :
    (blank now supply).IsRegular e where
  coherent := isCoherent_blank e now supply
  ordered role r hr := by cases hr
  wellFormed := run_preserves (preserves_isWellFormed e) now supply []

theorem IsRegular.step (h : o.IsRegular e) (act : Act) : (o.step e act).IsRegular e where
  coherent := h.coherent.step act
  wellFormed := h.wellFormed.step (preserves_isWellFormed e) h.coherent act
  ordered := by
    intro role r hr
    cases act with
    | call c =>
      have hround : o.round role = some r := by
        unfold Office.step at hr
        simp only at hr
        split at hr <;> exact hr
      exact h.ordered role r hround
    | work worker chore =>
      by_cases hrole : role = worker
      · subst hrole
        refine Session.step_isOrdered (e := e) (h.ordered role) (chore.move role) r ?_
        rw [← session_work_self]
        exact hr
      · exact h.ordered role r
          ((round_work_other (e := e) (o := o) hrole (chore.move worker)).symm.trans hr)

theorem IsRegular.run (h : o.IsRegular e) (acts : List Act) : (o.run e acts).IsRegular e := by
  induction acts generalizing o with
  | nil => exact h
  | cons act acts ih => exact ih (h.step act)

theorem told_work (e : Engine) (o : Office) (role : Role) (id : String) (chore : Chore) :
    (o.step e (.work role chore)).told id
      = o.told id ++ (o.session role).settledFor id (chore.move role) :=
  List.filter_append _ _

theorem told_step (e : Engine) (o : Office) (act : Act) (id : String) :
    o.told id <+: (o.step e act).told id := by
  obtain ⟨more, hmore⟩ := log_step e o act
  refine ⟨more.filter fun p => p.1.leased.id = id, ?_⟩
  unfold told
  rw [hmore, List.filter_append]

theorem told_run (e : Engine) (o : Office) (acts : List Act) (id : String) :
    o.told id <+: (o.run e acts).told id := by
  induction acts generalizing o with
  | nil => exact List.prefix_refl _
  | cons act acts ih => exact (told_step e o act id).trans (ih _)

/-- While no tick of a role is under way, none has a record. -/
theorem rests_of_idle (hidle : o.round role = none) : (o.session role).Rests id := by
  intro r hr
  rw [session, hidle] at hr
  cases hr

/-- A record is only worked with by the tick of its role. -/
theorem IsRegular.rests_of_ne (h : o.IsRegular e) (hn : o.world.ledger.content id = some n)
    {other : Role} (hne : n.role ≠ other) : (o.session other).Rests id := by
  intro r hr m hm hid
  obtain ⟨_, _, hrole, current, hcurrent, hkeeps⟩ :=
    ((h.coherent.steady other).coherent.round r hr).leased m hm
  rw [hid] at hcurrent
  cases hcurrent.symm.trans hn
  exact hne (by rw [hkeeps.role, hrole, h.coherent.role other r hr])

/-- Nothing else that goes on makes a difference to a record and the tick of its role. -/
theorem IsRegular.aside (h : o.IsRegular e) (hn : o.world.ledger.content id = some n) {act : Act}
    (hact : ∀ chore, act ≠ .work n.role chore) (hnames : act.names id = false) :
    (o.step e act).world.ledger.content id = some n
      ∧ (o.step e act).round n.role = o.round n.role ∧ (o.step e act).told id = o.told id := by
  cases act with
  | call c =>
    have hcontent := Call.content_of_not_names (h.coherent.steady .consumer).coherent.orderly
      hnames hn
    unfold Office.step
    simp only
    split
    · exact ⟨hcontent, rfl, rfl⟩
    · exact ⟨hn, rfl, rfl⟩
  | work other chore =>
    have hne : n.role ≠ other := fun hrole => hact chore (hrole ▸ rfl)
    have hrests := h.rests_of_ne hn hne
    obtain ⟨hcontent, _⟩ := hrests.step
      (h.coherent.steady other).coherent (h.coherent.role other) hn chore
    refine ⟨hcontent, round_work_other hne _, ?_⟩
    rw [told_work, hrests.settledFor_eq_nil, List.append_nil]

/-- Whatever is done next, a record that no tick has and no call names stays as it is; its role's tick
may come to lease it. -/
theorem IsRegular.rests_step (h : o.IsRegular e) (hn : o.world.ledger.content id = some n)
    (hrests : (o.session n.role).Rests id) {act : Act} (hnames : act.names id = false) :
    (o.step e act).told id = o.told id ∧ (o.step e act).world.ledger.content id = some n
      ∧ (((o.step e act).session n.role).Rests id
        ∨ (o.session n.role).Leases ((o.step e act).session n.role) n.role n id) := by
  by_cases hwork : ∃ chore, act = .work n.role chore
  · obtain ⟨chore, rfl⟩ := hwork
    have hsession : (o.step e (.work n.role chore)).session n.role
        = (o.session n.role).step e (chore.move n.role) := session_work_self n.role _
    obtain ⟨hcontent, hnext⟩ := hrests.step (h.coherent.steady n.role).coherent
      (h.coherent.role n.role) hn chore
    rw [hsession]
    refine ⟨?_, hcontent, hnext⟩
    rw [told_work, hrests.settledFor_eq_nil, List.append_nil]
  · obtain ⟨hcontent, hround, htold⟩ := h.aside hn (fun chore heq => hwork ⟨chore, heq⟩) hnames
    exact ⟨htold, hcontent, .inl fun r hr => hrests r (hround.symm.trans hr)⟩

/-! ## §3. One tick. -/

/-- The records that the tick of a role has leased and not begun. -/
def ahead (o : Office) (role : Role) : List Negotiation :=
  match o.round role with
  | none => []
  | some r => r.ahead

theorem mem_ahead {m : Negotiation} :
    m ∈ o.ahead role ↔ ∃ r, o.round role = some r ∧ m ∈ r.ahead := by
  unfold ahead
  cases o.round role with
  | none => simp
  | some r => simp

/-- A tick of a role begins, and some acts follow. -/
def tick (e : Engine) (role : Role) (o : Office) (acts : List Act) : Office :=
  (o.step e (.work role .start)).run e acts

/-- Whether with an act the tick of a role turns to the records that a message is due for, since it
begins or is done with the duty before, and it is the turn of one of them. -/
def Reaches (e : Engine) (o : Office) (role : Role) (message : Sending) (id : String) (act : Act) :
    Prop :=
  (act = .work role .start ∧ o.round role = none
      ∨ act = .work role .next ∧ ∃ r ∈ o.round role, r.members = [])
    ∧ ((o.session role).toCome role).head? = some (.send message)
    ∧ o.world.ledger.HasTurn o.world.now e.batchSize role message.source id

instance (role : Role) (message : Sending) (act : Act) :
    Decidable (o.Reaches e role message id act) :=
  inferInstanceAs (Decidable (_ ∧ _ ∧ _))

/-- Whether in the course of some acts it is a record's turn. -/
def Serves (e : Engine) (role : Role) (message : Sending) (id : String) :
    Office → List Act → Prop
  | _, [] => False
  | o, act :: acts =>
    o.Reaches e role message id act ∨ Serves e role message id (o.step e act) acts

instance decidableServes (e : Engine) (role : Role) (message : Sending) (id : String) :
    (o : Office) → (acts : List Act) → Decidable (Serves e role message id o acts)
  | _, [] => isFalse False.elim
  | o, act :: acts =>
    have := decidableServes e role message id (o.step e act) acts
    inferInstanceAs (Decidable (_ ∨ _))

/-- A tick that attends to a record: it comes to be the record's turn, and from then on until the
record is begun the guard does not hold it back, and if it has failed before the delay since has
passed. -/
structure Attends (e : Engine) (o : Office) (role : Role) (message : Sending) (id : String)
    (acts : List Act) : Prop where
  served : Serves e role message id o (.work role .start :: acts)
  ready : ∀ pre ∈ acts.inits, ∀ m ∈ (o.tick e role pre).ahead role, m.id = id →
    e.guard m = false
      ∧ (m.stateCount ≠ 0 →
        e.retry.IsPast m.stateCount m.stateTimestamp (o.tick e role pre).world.now)

instance (message : Sending) (acts : List Act) : Decidable (o.Attends e role message id acts) :=
  decidable_of_iff
    (Serves e role message id o (.work role .start :: acts)
      ∧ ∀ pre ∈ acts.inits, ∀ m ∈ (o.tick e role pre).ahead role, m.id = id →
        e.guard m = false
          ∧ (m.stateCount ≠ 0 →
            e.retry.IsPast m.stateCount m.stateTimestamp (o.tick e role pre).world.now))
    ⟨fun h => ⟨h.1, h.2⟩, fun h => ⟨h.served, h.ready⟩⟩

variable {message : Sending} {failures : Nat} {replies : List (Flight × Reply)}

/-- When it is a record's turn, the tick leases it. -/
theorem IsRegular.ahead_of_reaches (h : o.IsRegular e) {act : Act}
    (hreaches : o.Reaches e role message id act) :
    ∃ m ∈ (o.step e act).ahead role, m.id = id := by
  obtain ⟨hact, hnext, hturn⟩ := hreaches
  obtain ⟨later, hcome⟩ := List.head?_eq_some_iff.mp hnext
  have hsession : (o.step e act).session role
      = Session.lookAfter e o.world role ((o.session role).toCome role) := by
    rcases hact with ⟨rfl, hr⟩ | ⟨rfl, r, hr, hdone⟩
    · have hr : (o.session role).round = none := hr
      refine (session_work_self role _).trans ?_
      simp only [Chore.move, Session.step, Session.toCome, hr]
      rfl
    · have hr : (o.session role).round = some r := hr
      refine (session_work_self role _).trans ?_
      simp only [Chore.move, Session.step, Session.stepRound, Session.toCome, hr, if_pos hdone,
        h.coherent.role role r hr]
      rfl
  have hknown : o.world.ledger.IsKnown := (h.coherent.steady role).coherent.orderly.isKnown
  rw [hcome, Session.lookAfter_cons, Engine.lease_direct hknown] at hsession
  obtain ⟨m, hm, hid⟩ := hturn.mem_dutyBatch e.handle
  have hround : (o.step e act).round role = _ := congrArg (·.round) hsession
  exact ⟨m, mem_ahead.mpr ⟨_, hround, hm⟩, hid⟩

/-- One act of a tick that has leased the record. -/
theorem IsRegular.stage_step (h : o.IsRegular e) (hmessage : Duty.send message ∈ role.duties)
    (hstage : (o.session role).Stage e role message id failures replies) {act : Act}
    (hact : act ≠ .work role .start) (hnames : act.names id = false)
    (hready : ∀ m ∈ o.ahead role, m.id = id →
      e.guard m = false ∧ e.retry.shouldDelay m o.world.now = false)
    (hreply : ∀ more, (o.step e act).told id = o.told id ++ more → ∀ p ∈ more, p.2 ≠ .panicked) :
    ∃ more, (o.step e act).told id = o.told id ++ more
      ∧ ((o.step e act).session role).Stage e role message id failures (replies ++ more) := by
  by_cases hwork : ∃ chore, act = .work role chore
  · obtain ⟨chore, rfl⟩ := hwork
    have htold := told_work e o role id chore
    refine ⟨_, htold, ?_⟩
    have hsession : (o.step e (.work role chore)).session role
        = (o.session role).step e (chore.move role) := session_work_self role _
    rw [hsession]
    exact hstage.step (h.coherent.steady role).coherent (h.ordered role)
      (h.wellFormed.stored id) hmessage (h.coherent.role role)
      (fun hchore => hact (by rw [hchore])) (fun r m hr hm => hready m (mem_ahead.mpr ⟨r, hr, hm⟩))
      (hreply _ htold)
  · obtain ⟨n, hn, hrole⟩ := hstage.stored
    subst hrole
    obtain ⟨hcontent, hround, htold⟩ := h.aside hn (fun chore heq => hwork ⟨chore, heq⟩) hnames
    refine ⟨[], htold.trans (List.append_nil _).symm, ?_⟩
    rw [List.append_nil]
    exact hstage.congr (hcontent.trans hn.symm) hround

theorem IsRegular.stage_run (h : o.IsRegular e) (hmessage : Duty.send message ∈ role.duties)
    (hstage : (o.session role).Stage e role message id failures replies) {acts : List Act}
    (hstart : .work role .start ∉ acts) (hnames : ∀ act ∈ acts, act.names id = false)
    (hready : ∀ pre, pre <+: acts → ∀ m ∈ (o.run e pre).ahead role, m.id = id →
      e.guard m = false ∧ e.retry.shouldDelay m (o.run e pre).world.now = false)
    (hreply : ∀ more, (o.run e acts).told id = o.told id ++ more → ∀ p ∈ more, p.2 ≠ .panicked) :
    ∃ more, (o.run e acts).told id = o.told id ++ more
      ∧ ((o.run e acts).session role).Stage e role message id failures (replies ++ more) := by
  -- Over the acts, with the replies that have come in so far.
  induction acts generalizing o replies with
  | nil => exact ⟨[], (List.append_nil _).symm, by rw [List.append_nil]; exact hstage⟩
  | cons act acts ih =>
    obtain ⟨rest, hrest⟩ := told_run e (o.step e act) acts id
    -- What is said in the first act is said in all of them.
    have hfirst : ∀ more, (o.step e act).told id = o.told id ++ more →
        ∀ p ∈ more, p.2 ≠ .panicked := fun more hmore p hp =>
      hreply (more ++ rest) (by rw [run_cons, ← hrest, hmore, List.append_assoc]) p
        (List.mem_append_left rest hp)
    obtain ⟨more, htold, hnext⟩ := h.stage_step hmessage hstage
      (fun hact => hstart (hact ▸ List.mem_cons_self)) (hnames act List.mem_cons_self)
      (hready [] List.nil_prefix) hfirst
    obtain ⟨more', htold', hend⟩ := ih (h.step act) hnext
      (fun hin => hstart (List.mem_cons_of_mem _ hin))
      (fun a ha => hnames a (List.mem_cons_of_mem _ ha))
      (fun pre hpre => hready (act :: pre) (List.cons_prefix_cons.mpr ⟨rfl, hpre⟩))
      (fun more' hmore' p hp => hreply (more ++ more')
        (by rw [run_cons, hmore', htold, List.append_assoc]) p (List.mem_append_right more hp))
    refine ⟨more ++ more', ?_, ?_⟩
    · rw [run_cons, htold', htold, List.append_assoc]
    · rw [← List.append_assoc]
      exact hend

/-- One act while the tick does not have the record. -/
theorem IsRegular.idle_step (h : o.IsRegular e) (hmessage : Duty.send message ∈ role.duties)
    (hn : o.world.ledger.content id = some n) (hdue : n.IsDue role message failures)
    (hrests : (o.session role).Rests id) {act : Act} (hnames : act.names id = false) :
    (o.step e act).told id = o.told id ∧ (o.step e act).world.ledger.content id = some n
      ∧ (((o.step e act).session role).Rests id
        ∨ ((o.step e act).session role).Stage e role message id failures []) := by
  have hrole := hdue.role
  subst hrole
  obtain ⟨htold, hcontent, hnext⟩ := h.rests_step hn hrests hnames
  have hduties := Session.toCome_subset (h.coherent.steady n.role).coherent
    (h.coherent.role n.role)
  exact ⟨htold, hcontent, hnext.imp_right fun hleases =>
    .of_leases hmessage hduties hcontent hdue hleases⟩

/-- Once it has been its turn, the record is on its way through the tick. -/
theorem IsRegular.stage_of_serves (h : o.IsRegular e) (hmessage : Duty.send message ∈ role.duties)
    (hn : o.world.ledger.content id = some n) (hdue : n.IsDue role message failures)
    (hrests : (o.session role).Rests id) {acts : List Act}
    (hstart : .work role .start ∉ acts.tail) (hnames : ∀ act ∈ acts, act.names id = false)
    (hready : ∀ pre, pre <+: acts → ∀ m ∈ (o.run e pre).ahead role, m.id = id →
      e.guard m = false ∧ e.retry.shouldDelay m (o.run e pre).world.now = false)
    (hreply : ∀ more, (o.run e acts).told id = o.told id ++ more → ∀ p ∈ more, p.2 ≠ .panicked)
    (hserves : Serves e role message id o acts) :
    ∃ more, (o.run e acts).told id = o.told id ++ more
      ∧ ((o.run e acts).session role).Stage e role message id failures more := by
  induction acts generalizing o with
  | nil => exact hserves.elim
  | cons act acts ih =>
    obtain ⟨htold, hcontent, hnext⟩ :=
      h.idle_step hmessage hn hdue hrests (hnames act List.mem_cons_self)
    have hnames' : ∀ a ∈ acts, a.names id = false :=
      fun a ha => hnames a (List.mem_cons_of_mem _ ha)
    have hready' (pre : List Act) (hpre : pre <+: acts) :=
      hready (act :: pre) (List.cons_prefix_cons.mpr ⟨rfl, hpre⟩)
    rw [run_cons, ← htold] at hreply ⊢
    rcases hnext with hrests' | hstage
    · -- It is not leased yet, so its turn is still to come.
      have hserves' := hserves.resolve_left fun hreaches => by
        obtain ⟨m, hm, hid⟩ := h.ahead_of_reaches hreaches
        obtain ⟨r, hr, hin⟩ := mem_ahead.mp hm
        exact hrests' r hr m (List.mem_append_left _ hin) hid
      exact ih (h.step act) hcontent hrests' (fun hin => hstart (List.mem_of_mem_tail hin))
        hnames' hready' hreply hserves'
    · exact (h.step act).stage_run hmessage hstage hstart hnames' hready' hreply

/-- Before a tick begins nothing is leased; so a tick that attends to a record finds it ready whenever
the record is leased and not begun. -/
theorem Attends.ready_run {acts : List Act} (h : o.Attends e role message id acts)
    (hidle : o.round role = none) {pre : List Act} (hpre : pre <+: .work role .start :: acts) :
    ∀ m ∈ (o.run e pre).ahead role, m.id = id →
      e.guard m = false ∧ e.retry.shouldDelay m (o.run e pre).world.now = false := by
  intro m hm hid
  obtain rfl | ⟨begun, rfl, hbegun⟩ := List.prefix_cons_iff.mp hpre
  · obtain ⟨r, hr, _⟩ := mem_ahead.mp hm
    rw [run_nil, hidle] at hr
    cases hr
  · obtain ⟨hguard, hpast⟩ := h.ready begun ((List.mem_inits _ _).mpr hbegun) m hm hid
    exact ⟨hguard, Retry.RetryPolicy.shouldDelay_eq_false_iff.mpr hpast⟩

/-- A tick that attends to a record whose message is due sends the message once. -/
theorem IsRegular.attended (h : o.IsRegular e) (hmessage : Duty.send message ∈ role.duties)
    (hn : o.world.ledger.content id = some n) (hdue : n.IsDue role message failures)
    (hidle : o.round role = none) {acts : List Act} (hstart : .work role .start ∉ acts)
    (hnames : ∀ act ∈ acts, act.names id = false)
    (hover : (o.tick e role acts).round role = none) (hattends : o.Attends e role message id acts)
    (hreply : ∀ more, (o.tick e role acts).told id = o.told id ++ more →
      ∀ p ∈ more, p.2 ≠ .panicked) :
    ∃ f reply n', (o.tick e role acts).told id = o.told id ++ [(f, reply)]
      ∧ f.sending = message ∧ (o.tick e role acts).world.ledger.content id = some n'
      ∧ message.Resolves role e.retry.limit failures reply n' := by
  have hnames' : ∀ act ∈ .work role .start :: acts, act.names id = false := by
    intro act hact
    rcases List.mem_cons.mp hact with rfl | hact
    · rfl
    · exact hnames act hact
  have hstart' : .work role .start ∉ (Act.work role .start :: acts).tail := hstart
  obtain ⟨replies, htold, hend⟩ := h.stage_of_serves hmessage hn hdue (rests_of_idle hidle)
    hstart' hnames' (fun pre hpre => hattends.ready_run hidle hpre) hreply hattends.served
  have htold : (o.tick e role acts).told id = o.told id ++ replies := htold
  rw [htold]
  cases hend with
  | ahead n' r k hn' hdue' hr hduty hm hkid => cases hr.symm.trans hover
  | aloft n' r f hn' hdue' hr hduty hf hfid => cases hr.symm.trans hover
  | back n' f reply hn' hsending hresolves hrests hlater =>
    exact ⟨f, reply, n', rfl, hsending, hn', hresolves⟩

/-! ## §4. Tick after tick. -/

/-- A record of which nothing is to be done stays as it is until it is named. -/
theorem IsRegular.done_run (h : o.IsRegular e) (hn : o.world.ledger.content id = some n)
    (hdone : ∀ duty ∈ n.role.duties, n.state ≠ duty.state.code)
    (hrests : (o.session n.role).Rests id) {acts : List Act}
    (hnames : ∀ act ∈ acts, act.names id = false) :
    (o.run e acts).told id = o.told id ∧ (o.run e acts).world.ledger.content id = some n
      ∧ ((o.run e acts).session n.role).Rests id := by
  induction acts generalizing o with
  | nil => exact ⟨rfl, hn, hrests⟩
  | cons act acts ih =>
    obtain ⟨htold, hcontent, hnext⟩ := h.rests_step hn hrests (hnames act List.mem_cons_self)
    have hduties := Session.toCome_subset (h.coherent.steady n.role).coherent
      (h.coherent.role n.role)
    -- No duty is left for which it could be leased.
    have hrests' := hnext.resolve_right fun ⟨r', m, hr', hm, hid, hin, hstate⟩ =>
      hdone _ (hduties _ hin) hstate
    rw [run_cons, ← htold]
    exact ih (h.step act) hcontent hrests' fun a ha => hnames a (List.mem_cons_of_mem _ ha)

/-- A tick by which a record is driven, with all that goes on until the next: it is over by then, no
call names the record, and if the message is due the tick attends to the record. -/
structure Drives (e : Engine) (o : Office) (role : Role) (message : Sending) (id : String)
    (acts : List Act) : Prop where
  single : .work role .start ∉ acts
  ended : (o.tick e role acts).round role = none
  unnamed : ∀ act ∈ acts, act.names id = false
  attends : (o.world.ledger.content id).map (·.state) = some message.source.code →
    o.Attends e role message id acts

instance (acts : List Act) : Decidable (o.Drives e role message id acts) :=
  decidable_of_iff
    (.work role .start ∉ acts ∧ (o.tick e role acts).round role = none
      ∧ (∀ act ∈ acts, act.names id = false)
      ∧ ((o.world.ledger.content id).map (·.state) = some message.source.code →
        o.Attends e role message id acts))
    ⟨fun h => ⟨h.1, h.2.1, h.2.2.1, h.2.2.2⟩,
      fun h => ⟨h.single, h.ended, h.unnamed, h.attends⟩⟩

/-- A record is driven by one tick after another. -/
def Driven (e : Engine) (role : Role) (message : Sending) (id : String) :
    Office → List (List Act) → Prop
  | _, [] => True
  | o, acts :: ticks => o.Drives e role message id acts
      ∧ Driven e role message id (o.tick e role acts) ticks

instance decidableDriven (e : Engine) (role : Role) (message : Sending) (id : String) :
    (o : Office) → (ticks : List (List Act)) → Decidable (Driven e role message id o ticks)
  | _, [] => isTrue trivial
  | o, acts :: ticks =>
    have := decidableDriven e role message id (o.tick e role acts) ticks
    inferInstanceAs (Decidable (_ ∧ _))

/-- One tick after another. -/
def ticks (e : Engine) (role : Role) (o : Office) (ticks : List (List Act)) : Office :=
  ticks.foldl (tick e role) o

theorem told_ticks (e : Engine) (o : Office) (role : Role) (ticks : List (List Act)) (id : String) :
    o.told id <+: (o.ticks e role ticks).told id := by
  induction ticks generalizing o with
  | nil => exact List.prefix_refl _
  | cons acts ticks ih =>
    exact (told_run e o (.work role .start :: acts) id).trans (ih (o.tick e role acts))

theorem IsRegular.ticks (h : o.IsRegular e) (role : Role) (ticks : List (List Act)) :
    (o.ticks e role ticks).IsRegular e := by
  induction ticks generalizing o with
  | nil => exact h
  | cons acts ticks ih => exact ih ((h.step (.work role .start)).run acts)

/-- How a record stands after a message about it was sent a number of times: the message is due
again, or the last answer has settled it. -/
inductive Stands (o : Office) (role : Role) (message : Sending) (id : String)
    (answers : Nat → Reply) (limit sent : Nat) : Prop
  | due (n : Negotiation) (hmore : sent < Reply.tries answers limit)
      (hn : o.world.ledger.content id = some n) (hdue : n.IsDue role message sent)
  | settled (n : Negotiation) (hlast : sent = Reply.tries answers limit)
      (hn : o.world.ledger.content id = some n) (hrole : n.role = role)
      (hsettles : message.Settles n (answers (sent - 1)))

/-- The ticks after the one that settled the message say nothing and change nothing. -/
theorem IsRegular.settled_ticks (h : o.IsRegular e) (hmessage : Duty.send message ∈ n.role.duties)
    (hn : o.world.ledger.content id = some n) {reply : Reply} (hsettles : message.Settles n reply)
    (hidle : o.round n.role = none) {ticks : List (List Act)}
    (hdriven : Driven e n.role message id o ticks) :
    (o.ticks e n.role ticks).told id = o.told id
      ∧ (o.ticks e n.role ticks).world.ledger.content id = some n
      ∧ (o.ticks e n.role ticks).round n.role = none := by
  -- Over the ticks: the record is settled, and no tick of its role is under way.
  induction ticks generalizing o with
  | nil => exact ⟨rfl, hn, hidle⟩
  | cons acts ticks ih =>
    obtain ⟨hdrives, hdriven⟩ := hdriven
    have hnames : ∀ act ∈ .work n.role .start :: acts, act.names id = false := by
      intro act hact
      rcases List.mem_cons.mp hact with rfl | hact
      · rfl
      · exact hdrives.unnamed act hact
    obtain ⟨htold, hcontent, _⟩ := h.done_run hn
      (fun duty hduty => hsettles.state_ne hmessage hduty)
      (rests_of_idle hidle) hnames
    obtain ⟨htold', hrest⟩ :=
      ih ((h.step _).run acts) hcontent hdrives.ended hdriven
    exact ⟨htold'.trans htold, hrest⟩

/-- The answers decide how often the message is sent, and how the record stands then. -/
theorem IsRegular.driven (h : o.IsRegular e) (hmessage : Duty.send message ∈ role.duties)
    (hn : o.world.ledger.content id = some n) {sent : Nat} (hdue : n.IsDue role message sent)
    (hidle : o.round role = none) {answers : Nat → Reply}
    (hanswers : ∀ i, answers i ≠ .panicked)
    (hbefore : ∀ i < sent, (answers i).isRetryable = true) (hmore : sent < e.retry.limit)
    {ticks : List (List Act)} (hdriven : Driven e role message id o ticks)
    (hreplies : ∀ more, (o.ticks e role ticks).told id = o.told id ++ more →
      ∀ i p, more[i]? = some p → p.2 = answers (sent + i)) :
    ∃ more, (o.ticks e role ticks).told id = o.told id ++ more
      ∧ sent + more.length = min (sent + ticks.length) (Reply.tries answers e.retry.limit)
      ∧ (∀ p ∈ more, p.1.sending = message)
      ∧ (o.ticks e role ticks).Stands role message id answers e.retry.limit (sent + more.length)
      ∧ (o.ticks e role ticks).round role = none := by
  -- Over the ticks: so far every answer was a failure that can be tried again, the record has
  -- counted them, and the limit is not reached.
  induction ticks generalizing o n sent with
  | nil =>
    have hlt := Reply.lt_tries hbefore hmore
    refine ⟨[], (List.append_nil _).symm, ?_, fun p hp => absurd hp List.not_mem_nil,
      .due n hlt hn hdue, hidle⟩
    simp only [List.length_nil, Nat.add_zero]
    omega
  | cons acts ticks ih =>
    obtain ⟨hdrives, hdriven⟩ := hdriven
    -- The replies of the first tick are the first ones.
    have hreply {more rest : List (Flight × Reply)}
        (hmore : (o.tick e role acts).told id = o.told id ++ more)
        (hrest : (o.tick e role acts).told id ++ rest = (o.ticks e role (acts :: ticks)).told id)
        (i : Nat) (p : Flight × Reply) (hi : (more ++ rest)[i]? = some p) :
        p.2 = answers (sent + i) :=
      hreplies (more ++ rest) (by rw [← hrest, hmore, List.append_assoc]) i p hi
    obtain ⟨rest, hrest⟩ := told_ticks e (o.tick e role acts) role ticks id
    obtain ⟨f, reply, n', htold, hsending, hn', hresolves⟩ :=
      h.attended hmessage hn hdue hidle hdrives.single hdrives.unnamed hdrives.ended
        (hdrives.attends (by rw [hn, ← hdue.state]; rfl)) fun more hmore p hp => by
          obtain ⟨i, hi⟩ := List.mem_iff_getElem?.mp (List.mem_append_left rest hp)
          rw [hreply hmore hrest i p hi]
          exact hanswers _
    have hfirst : reply = answers sent := hreply htold hrest 0 (f, reply) rfl
    have hregular := (h.step (.work role .start)).run acts
    cases hresolves with
    | again hretryable hlimit hdue' =>
      have hbefore' : ∀ i < sent + 1, (answers i).isRetryable = true := by
        intro i hi
        by_cases his : i = sent
        · rw [his, ← hfirst]
          exact hretryable
        · exact hbefore i (by omega)
      obtain ⟨more, htold', hlength, hsendings, hstands, hover⟩ :=
        ih hregular hn' hdue' hdrives.ended hbefore' hlimit hdriven fun more hmore i p hi => by
          have hnext : ((f, reply) :: more)[i + 1]? = some p := hi
          rw [hreply htold hmore.symm (i + 1) p hnext]
          congr 1
          omega
      have hsent : sent + ((f, reply) :: more).length = sent + 1 + more.length := by
        rw [List.length_cons]
        omega
      rw [← hsent] at hlength hstands
      refine ⟨(f, reply) :: more, ?_, ?_, ?_, hstands, hover⟩
      · rw [List.append_cons, ← htold]
        exact htold'
      · rw [hlength, List.length_cons]
        omega
      · intro p hp
        rcases List.mem_cons.mp hp with rfl | hp
        · exact hsending
        · exact hsendings p hp
    | settled hlast hrole hsettles =>
      subst hrole
      have htries := Reply.tries_eq hbefore hmore (hfirst ▸ hlast)
      obtain ⟨htold', hcontent, hover⟩ :=
        hregular.settled_ticks hmessage hn' hsettles hdrives.ended hdriven
      refine ⟨[(f, reply)], htold'.trans htold, ?_, fun p hp => ?_,
        .settled n' htries.symm hcontent rfl (hfirst ▸ hsettles), hover⟩
      · rw [htries, List.length_cons, List.length_cons, List.length_nil]
        omega
      · rw [List.mem_singleton.mp hp]
        exact hsending

end Office

/-! ## §5. Later on. -/

namespace Role

variable {role : Role} {s t : State}

/-- What others do to a record does not lead it back. -/
theorem le_of_awaits (hedge : s.canMoveTo t = true) (hawaits : role.awaits t = true) :
    s.code ≤ t.code := by
  -- The edge from OFFERED to OFFERING leads back, but it is not others who take it.
  have h : ∀ s ∈ State.all, ∀ t ∈ State.all, s.canMoveTo t = true → role.awaits t = true →
      s.code ≤ t.code := by
    cases role <;> decide +kernel
  exact h s (State.mem_all s) t (State.mem_all t) hedge hawaits

/-- Neither does a decision. -/
theorem le_of_decide (hduty : Duty.decide s t ∈ role.duties) : s.code ≤ t.code := by
  cases role <;> simp only [duties, List.mem_cons, Duty.decide.injEq, reduceCtorEq,
    List.not_mem_nil, or_false, false_or] at hduty <;>
    rcases hduty with ⟨rfl, rfl⟩ | ⟨rfl, rfl⟩ | ⟨rfl, rfl⟩ <;> decide

end Role

/-- A record is only led back when it is parked, and then to where it was leased. -/
theorem Session.Rewrites.le_state {e : Engine} {s : Session} {move : Move} {n n' : Negotiation}
    (h : Rewrites e s move n n') : n.state ≤ n'.state
      ∨ ∃ r m, s.round = some r ∧ m ∈ r.members ∧ m.id = n.id ∧ n'.state = m.state := by
  cases h with
  | called c hmove hmakes =>
    obtain ⟨target, hedge, hstate, hawaits⟩ := hmakes.edge
    obtain ⟨source, hsource, hcan⟩ := Negotiation.checkEdge_eq_ok_iff.mp hedge
    rw [hsource, hstate]
    exact .inl (Role.le_of_awaits hcan hawaits)
  | decided r source target hr hrole hduty hstate hn' =>
    subst hn'
    rw [hstate]
    exact .inl (Role.le_of_decide hduty)
  | turned k reply r f kind hmove hr hk hrole hduty hawaits hleased hmessage hturn hkeeps =>
    left
    cases hturn with
    | onward response hedge hset =>
      rw [hawaits.of_target hedge]
      show f.sending.source.code ≤ f.sending.target.code
      cases f.sending <;> decide
    | ended failure detail hedge hlast =>
      obtain ⟨source, hsource, _⟩ := Negotiation.checkEdge_eq_ok_iff.mp hedge
      rw [hsource]
      show source.code ≤ State.terminated.code
      cases source <;> decide
    | again failure hedge hkind hmore =>
      rw [hawaits.of_source hedge]
      exact Int.le_refl _
  | parked r m hr hrole hm hmatter hn' =>
    subst hn'
    exact .inr ⟨r, m, hr, hm, (Negotiation.keeps_of_matter hmatter).id, rfl⟩

namespace Office

variable {e : Engine} {o : Office} {role : Role} {message : Sending} {id : String}

/-- A record has left a state behind, and so has every tick that works with it. -/
structure IsPast (o : Office) (id : String) (code : Int) : Prop where
  stored : ∃ n, o.world.ledger.content id = some n ∧ code < n.state
  leased : ∀ role r, o.round role = some r → ∀ m ∈ r.members, m.id = id → code < m.state

theorem IsPast.step (h : o.IsCoherent e) {code : Int} (hpast : o.IsPast id code) (act : Act) :
    (o.step e act).IsPast id code := by
  obtain ⟨n, hn, hcode⟩ := hpast.stored
  have hstored : ∃ n, (o.step e act).world.ledger.content id = some n ∧ code < n.state := by
    cases h.becomes act id with
    | kept hcontent => exact ⟨n, hcontent.trans hn, hcode⟩
    | opened m hnone hm hopens =>
      rw [hnone] at hn
      cases hn
    | rewritten role move m m' hlog hm hm' hrewrites =>
      cases hm.symm.trans hn
      refine ⟨_, hm', ?_⟩
      show code < m'.state
      rcases hrewrites.le_state with hle | ⟨r, k, hr, hk, hid, hstate⟩
      · omega
      -- It is parked as it was leased, and by then the state had been left.
      · rw [hstate]
        exact hpast.leased role r hr k hk (hid.trans (Ledger.id_of_content hm))
  refine ⟨hstored, fun role r' hr' m hm hid => ?_⟩
  rcases h.members act hr' hm with hleased | ⟨r, hr, hin⟩
  · obtain ⟨n', hn', hcode'⟩ := hstored
    rw [hid, hn'] at hleased
    cases hleased
    exact hcode'
  · exact hpast.leased role r hr m hin hid

theorem IsPast.run (h : o.IsCoherent e) {code : Int} (hpast : o.IsPast id code)
    (acts : List Act) : (o.run e acts).IsPast id code := by
  induction acts generalizing o with
  | nil => exact hpast
  | cons act acts ih => exact ih (h.step act) (hpast.step h act)

/-- No message is on its way that is due in a state left behind. -/
theorem IsPast.sending_ne (h : o.IsCoherent e) (hpast : o.IsPast id message.source.code)
    {r : Round} (hr : o.round role = some r) {f : Flight} (hf : f ∈ r.airborne)
    (hid : f.leased.id = id) : f.sending ≠ message := by
  have hround := (h.steady role).coherent.round r hr
  have hin : f.leased ∈ r.members := List.mem_append_right _ (List.mem_map_of_mem hf)
  have hstate := (hround.leased f.leased hin).state
  have hlt := hpast.leased role r hr f.leased hin hid
  rw [hstate, (hround.flights f hf).1] at hlt
  rintro rfl
  exact Int.lt_irrefl _ hlt

/-- A settled message's record has left the message's state behind. -/
theorem IsRegular.isPast (h : o.IsRegular e) {n : Negotiation}
    (hn : o.world.ledger.content id = some n) {reply : Reply}
    (hsettles : message.Settles n reply) (hidle : o.round n.role = none) :
    o.IsPast id message.source.code where
  stored := by
    refine ⟨n, hn, ?_⟩
    rcases hsettles.state with hstate | hstate <;> rw [hstate] <;> cases message <;> decide
  leased role r hr m hm hid := by
    by_cases hrole : n.role = role
    · rw [← hrole, hidle] at hr
      cases hr
    · exact absurd hid (h.rests_of_ne hn hrole r hr m hm)

/-- For every limit of at least one and every sequence of answers: a record whose message is due for
the first time, and that is driven by ticks that attend to it while it is due, has the message sent
once a tick, as often as the answers ask for and no more often than the limit allows.  After each
earlier send it is still due, and the failures are counted.  The last answer moves it on, or ends it
for the reason that the failure gives.  From then on, whatever happens, no such message is on its
way for it again. -/
theorem sends_follow_answers (e : Engine) (hlimit : 0 < e.retry.limit) (now : Instant)
    (supply : IdSupply) (before : List Act) (role : Role) (message : Sending)
    (hmessage : Duty.send message ∈ role.duties) (id : String) (n : Negotiation)
    (hn : ((blank now supply).run e before).world.ledger.find? id = some n)
    (hdue : n.IsDue role message 0) (hidle : ((blank now supply).run e before).round role = none)
    (answers : Nat → Reply) (hanswers : ∀ i, answers i ≠ .panicked) (ticks : List (List Act))
    (hdriven : Driven e role message id ((blank now supply).run e before) ticks)
    (hreplies : ∀ more,
      (((blank now supply).run e before).ticks e role ticks).told id
        = ((blank now supply).run e before).told id ++ more →
      ∀ i p, more[i]? = some p → p.2 = answers i) :
    ∃ sent, (((blank now supply).run e before).ticks e role ticks).told id
          = ((blank now supply).run e before).told id ++ sent
      ∧ (∀ p ∈ sent, p.1.sending = message)
      ∧ sent.length = min ticks.length (Reply.tries answers e.retry.limit)
      ∧ (((blank now supply).run e before).ticks e role ticks).Stands role message id answers
          e.retry.limit sent.length
      ∧ (sent.length = Reply.tries answers e.retry.limit → ∀ later worker r f,
          ((((blank now supply).run e before).ticks e role ticks).run e later).round worker
            = some r →
          f ∈ r.airborne → f.leased.id = id → f.sending ≠ message) := by
  have hregular := (isRegular_blank e now supply).run before
  have hdue' : (n.withLease none).IsDue role message 0 := ⟨hdue.role, hdue.state, hdue.count⟩
  obtain ⟨sent, htold, hlength, hsendings, hstands, hover⟩ :=
    hregular.driven hmessage (Ledger.content_of_find? hn) hdue' hidle hanswers
      (fun i hi => absurd hi (Nat.not_lt_zero i)) hlimit hdriven
      fun more hmore i p hi => by
        rw [Nat.zero_add]
        exact hreplies more hmore i p hi
  simp only [Nat.zero_add] at hlength hstands
  refine ⟨sent, htold, hsendings, hlength, hstands, fun hall later worker r f hr hf hid => ?_⟩
  have hend := hregular.ticks role ticks
  cases hstands with
  | due n' hmore hn' hdue' => omega
  | settled n' hlast hn' hrole hsettles =>
    subst hrole
    exact ((hend.isPast hn' hsettles hover).run hend.coherent later).sending_ne
      (hend.coherent.run later) hr hf hid

/-- An engine that gives up after the second failure. -/
def impatient : Engine :=
  { Session.unhindered with retry := ⟨2, .immediate⟩ }

/-- A consumer that changes its mind. -/
def untilDoomed : List Act :=
  [.call (.initiate ⟨"provider", "http://provider", "dsp", ⟨"offer", "asset", "provider", {}⟩⟩),
   .call (.terminate "gen-0001" "stop")]

/-- An engine that waits a second before it tries again. -/
def deliberate : Engine :=
  { Session.unhindered with retry := ⟨2, .fixed 1000⟩ }

/-- The rest of a tick in which a termination is sent and fails, and the second after it. -/
def failedTermination : List Act :=
  List.replicate 6 (.work .consumer .next)
    ++ [.work .consumer .begin, .work .consumer (.land 0 (.failed ⟨.retryable, "down"⟩)),
      .work .consumer .next, .call (.advance 1000)]

/-- The termination is sent twice, with a second in between, and given up. -/
theorem termination_given_up :
    0 < deliberate.retry.limit
      ∧ Driven deliberate .consumer .termination "gen-0001"
          ((blank default).run deliberate untilDoomed) [failedTermination, failedTermination]
      ∧ ∃ sent n, (((blank default).run deliberate untilDoomed).ticks deliberate .consumer
            [failedTermination, failedTermination]).told "gen-0001" = sent
        ∧ sent.length = 2
        ∧ (((blank default).run deliberate untilDoomed).ticks deliberate .consumer
            [failedTermination, failedTermination]).world.ledger.content "gen-0001" = some n
        ∧ n.state = State.terminated.code
        ∧ n.errorDetail
          = some "Failed to send ContractNegotiationTerminationMessage to counter party: down" := by
  have hstored : (((blank default).run deliberate untilDoomed).world.ledger.find? "gen-0001").map
      (fun n => (n.role, n.state, n.stateCount)) = some (.consumer, State.terminating.code, 0) := by
    decide +kernel
  have hidle : ((blank default).run deliberate untilDoomed).round .consumer = none := by
    decide +kernel
  have hdriven : Driven deliberate .consumer .termination "gen-0001"
      ((blank default).run deliberate untilDoomed) [failedTermination, failedTermination] := by
    decide +kernel
  have hquiet : ((blank default).run deliberate untilDoomed).told "gen-0001" = [] := by
    decide +kernel
  have hreplies : ((((blank default).run deliberate untilDoomed).ticks deliberate .consumer
      [failedTermination, failedTermination]).told "gen-0001").map (·.2)
        = [.failed ⟨.retryable, "down"⟩, .failed ⟨.retryable, "down"⟩] := by
    decide +kernel
  obtain ⟨n, hn, hsays⟩ := Option.map_eq_some_iff.mp hstored
  obtain ⟨hrole, hrest⟩ := Prod.mk.inj hsays
  obtain ⟨hstate, hcount⟩ := Prod.mk.inj hrest
  have hlimit : 0 < deliberate.retry.limit := by decide
  obtain ⟨sent, htold, _, hlength, hstands, _⟩ := sends_follow_answers deliberate hlimit default
    .counted untilDoomed .consumer .termination (by decide) "gen-0001" n hn ⟨hrole, hstate, hcount⟩ hidle
    (fun _ => .failed ⟨.retryable, "down"⟩) (fun _ => Reply.noConfusion)
    [failedTermination, failedTermination] hdriven fun more hmore i p hi => by
      rw [hquiet, List.nil_append] at hmore
      rw [hmore] at hreplies
      have hin : p.2 ∈ more.map (·.2) := List.mem_map_of_mem (List.mem_of_getElem? hi)
      rw [hreplies] at hin
      simpa using hin
  rw [hquiet, List.nil_append] at htold
  have htries : Reply.tries (fun _ => .failed ⟨.retryable, "down"⟩) deliberate.retry.limit = 2 := by
    decide
  rw [htries] at hlength
  have htwo : sent.length = 2 := hlength
  rw [htwo] at hstands
  cases hstands with
  | due n' hmore hn' hdue => exact absurd (htries ▸ hmore) (Nat.lt_irrefl 2)
  | settled n' hlast hn' hrole' hsettles =>
    exact ⟨hlimit, hdriven, sent, n', htold, htwo, hn', hsettles.1, hsettles.2⟩

end Office

end Parley
