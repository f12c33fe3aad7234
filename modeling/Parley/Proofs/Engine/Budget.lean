/-
  Parley.Proofs.Engine.Budget
  ────────────────────────────────
  **WHAT USES UP THE ATTEMPTS AT A TERMINATION.**

  The count of a state is the number of its re-entries, and the attempts at a
  send are judged by it.  TERMINATING is re-entered by a failed send, and also by
  the wish to end a negotiation that is to be ended already.  So the termination
  is given up when failed sends and granted wishes together are one more than the
  limit (`given_up_of_spent`): the first wish enters the state, and every further
  one takes an attempt away.
-/
import Parley.Proofs.Engine.Attempts

namespace Parley

namespace Office

variable {e : Engine} {o : Office} {role : Role} {id : String} {n n' : Negotiation}

/-! ## §1. Failed sends and granted wishes. -/

/-- Whether a reply is that of a termination that failed and may be sent again. -/
def isFailedTermination (p : Flight × Reply) : Bool :=
  decide (p.1.sending = .termination) && p.2.isRetryable

/-- How often the termination of a record failed and could be sent again. -/
def failures (o : Office) (id : String) : Nat :=
  (o.told id).countP isFailedTermination

/-- Whether an act is the wish to end a record, and is granted. -/
def isGranted (e : Engine) (o : Office) (id : String) : Act → Bool
  | .call (.terminate other reason) =>
    decide (other = id) && o.isOpen && (e.terminate .direct other reason o.world).1.isOk
  | _ => false

/-- How often the wish to end a record is granted. -/
def grants (e : Engine) (id : String) : Office → List Act → Nat
  | _, [] => 0
  | o, act :: acts => (isGranted e o id act).toNat + grants e id (o.step e act) acts

theorem failures_le_step (e : Engine) (o : Office) (act : Act) (id : String) :
    o.failures id ≤ (o.step e act).failures id :=
  (told_step e o act id).sublist.countP_le

/-- The reply to a failed termination counts. -/
theorem failures_land {k : Nat} {reply : Reply} {r : Round} {f : Flight}
    (hr : o.round role = some r) (hk : r.airborne[k]? = some f) (hid : f.leased.id = id)
    (hsending : f.sending = .termination) (hreply : reply.isRetryable = true) :
    (o.step e (.work role (.land k reply))).failures id = o.failures id + 1 := by
  have hsettled : (o.session role).settledFor id ((Chore.land k reply).move role)
      = [(f, reply)] := by
    have hround : (o.session role).round = some r := hr
    unfold Session.settledFor Session.settled
    rw [hround]
    simp [Chore.move, hk, hid]
  have hcounts : isFailedTermination (f, reply) = true := by
    unfold isFailedTermination
    rw [hreply, Bool.and_true]
    exact decide_eq_true hsending
  unfold failures
  rw [told_work, hsettled, List.countP_append, List.countP_singleton, if_pos hcounts]

theorem isGranted_of_edge (h : o.IsCoherent e) (hopen : o.isOpen = true)
    (hn : o.world.ledger.content id = some n) (hedge : n.checkEdge .terminating = .ok ())
    (reason : String) : isGranted e o id (.call (.terminate id reason)) = true := by
  have hheld : o.world.ledger.HeldBy e.handle.holder :=
    (h.steady .consumer).coherent.orderly.held
  obtain ⟨hok, _⟩ := Call.terminate_of_edge hheld hn hedge reason
  show (decide (id = id) && o.isOpen && (e.terminate .direct id reason o.world).1.isOk) = true
  rw [hopen, hok, decide_eq_true rfl]
  rfl

/-! ## §2. Every re-entry is accounted for. -/

/-- The count of a record in TERMINATING is covered by some spendings: one for entering it and one
for every re-entry. -/
def Covers (spent : Nat) (n : Negotiation) : Prop :=
  n.state = State.terminating.code → n.stateCount + 1 ≤ spent

theorem Covers.mono {spent spent' : Nat} (h : Covers spent n) (hle : spent ≤ spent') :
    Covers spent' n :=
  fun hstate => (h hstate).trans hle

theorem covers_of_ne {spent : Nat} {s : State} (hstate : n.state = s.code)
    (hne : s ≠ .terminating) : Covers spent n :=
  fun hcode => absurd (State.code_injective (hstate.symm.trans hcode)) hne

/-- The record of an id is covered, as it is stored and as ticks have leased it. -/
structure IsCovered (o : Office) (id : String) (spent : Nat) : Prop where
  stored : ∀ n, o.world.ledger.content id = some n → Covers spent n
  leased : ∀ role r, o.round role = some r → ∀ n ∈ r.members, n.id = id → Covers spent n

theorem isCovered_blank (now : Instant) (supply : IdSupply) (id : String) (spent : Nat) :
    (blank now supply).IsCovered id spent where
  stored n hn := by cases hn
  leased role r hr := by cases hr

/-- A call spends only if it is a granted wish. -/
theorem IsCovered.stored_call (h : o.IsCoherent e) {granted : Nat}
    (hcovered : o.IsCovered id (o.failures id + granted)) (c : Call) {n' : Negotiation}
    (hn' : (o.step e (.call c)).world.ledger.content id = some n') :
    Covers ((o.step e (.call c)).failures id
      + (granted + (isGranted e o id (.call c)).toNat)) n' := by
  have hmono := failures_le_step e o (.call c) id
  have hstays {k : Negotiation} (hk : Covers (o.failures id + granted) k) :
      Covers ((o.step e (.call c)).failures id
        + (granted + (isGranted e o id (.call c)).toNat)) k := hk.mono (by omega)
  by_cases hopen : o.isOpen = true
  · have hstep : o.step e (.call c) = { o with world := c.run e o.world } := if_pos hopen
    have hcontent : (c.run e o.world).ledger.content id = some n' := by
      rw [← hn', hstep]
    cases Call.touches (h.steady .consumer).coherent.orderly.held c id with
    | kept hkept => exact hstays (hcovered.stored n' (hkept.symm.trans hcontent))
    | accepted inlet m n hcall haddr hpid hn hok hmade =>
      cases hmade.symm.trans hcontent
      exact covers_of_ne rfl m.payload.target_ne_terminating
    | initiated r hcall hid hmade =>
      cases hmade.symm.trans hcontent
      exact covers_of_ne (s := .initial) rfl State.noConfusion
    | requested inlet m offer callbackAddress consumerId hcall hid hunknown hmade =>
      cases hmade.symm.trans hcontent
      exact covers_of_ne (s := .requested) rfl State.noConfusion
    -- The wish has the record enter the state, or enter it once more, and it counts once.
    | doomed reason n hcall hn hedge hmade =>
      cases hmade.symm.trans hcontent
      subst hcall
      rw [isGranted_of_edge h hopen hn hedge reason, Bool.toNat_true]
      intro _
      show (if n.state = State.terminating.code then n.stateCount + 1 else 0) + 1 ≤ _
      have hcount := hcovered.stored n hn
      split
      · rename_i hstate
        have := hcount hstate
        omega
      · omega
  · have hstep : o.step e (.call c) = o := if_neg hopen
    rw [hstep] at hn'
    exact hstays (hcovered.stored n' hn')

/-- A tick spends only by a failed send. -/
theorem IsCovered.stored_work (h : o.IsCoherent e) {granted : Nat}
    (hcovered : o.IsCovered id (o.failures id + granted)) (chore : Chore)
    (hn' : (o.step e (.work role chore)).world.ledger.content id = some n') :
    Covers ((o.step e (.work role chore)).failures id + granted) n' := by
  have hmono := failures_le_step e o (.work role chore) id
  have hstays {k : Negotiation} (hk : Covers (o.failures id + granted) k) :
      Covers ((o.step e (.work role chore)).failures id + granted) k := hk.mono (by omega)
  cases (h.steady role).becomes (chore.move role) id with
  | kept hkept => exact hstays (hcovered.stored n' (hkept.symm.trans hn'))
  | opened c k hmove hnone hk hopens => exact (chore.move_ne_call role c hmove).elim
  | rewritten n k hn hk hrewrites =>
    cases hk.symm.trans hn'
    cases hrewrites with
    | called c hmove hmakes => exact (chore.move_ne_call role c hmove).elim
    | decided r source target hr hrole hduty hstate hmade =>
      subst hmade
      exact covers_of_ne rfl (Role.passes_of_decide hduty).2
    -- What is stored is covered as it was when it was leased.
    | parked r m hr hrole hm hmatter hmade =>
      subst hmade
      have hid : m.id = id :=
        (Negotiation.keeps_of_matter hmatter).id.trans (Ledger.id_of_content hn)
      exact hstays (hcovered.leased role r hr m hm hid)
    | turned j reply r f kind hmove hr hj hrole hduty hawaits hleased hmessage hturn hkeeps =>
      cases hturn with
      | onward response hedge hset =>
        refine covers_of_ne rfl ?_
        cases f.sending <;> exact State.noConfusion
      | ended failure detail hedge hlast => exact covers_of_ne (s := .terminated) rfl State.noConfusion
      -- A failed send is what has the record enter the state again.
      | again failure hedge hkind hmore =>
        intro hstate
        have hsending : f.sending = .termination := by
          have hcode : f.sending.source = .terminating := State.code_injective hstate
          revert hcode
          cases f.sending <;> simp [Sending.source]
        have hid : f.leased.id = id := hleased.id.symm.trans (Ledger.id_of_content hn)
        have hchore : chore = .land j (.failed failure) := by
          cases chore <;> cases hmove
          rfl
        subst hchore
        rw [failures_land hr hj hid hsending (by rw [Reply.isRetryable, hkind]; rfl)]
        have hbefore := hawaits.of_source hedge
        have hcount := hcovered.stored n hn (hbefore.trans (by rw [hsending]; rfl))
        show (if n.state = f.sending.source.code then n.stateCount + 1 else 0) + 1 ≤ _
        rw [if_pos hbefore]
        omega

theorem IsCovered.step (h : o.IsCoherent e) {granted : Nat}
    (hcovered : o.IsCovered id (o.failures id + granted)) (act : Act) :
    (o.step e act).IsCovered id
      ((o.step e act).failures id + (granted + (isGranted e o id act).toNat)) := by
  have hstored : ∀ n, (o.step e act).world.ledger.content id = some n →
      Covers ((o.step e act).failures id + (granted + (isGranted e o id act).toNat)) n := by
    intro n hn
    cases act with
    | call c => exact hcovered.stored_call h c hn
    | work role chore => exact (hcovered.stored_work h chore hn).mono (by omega)
  refine ⟨hstored, fun role r' hr' m hm hid => ?_⟩
  rcases h.members act hr' hm with hleased | ⟨r, hr, hin⟩
  · rw [hid] at hleased
    have hbare : Covers _ (m.withLease none) := hstored _ hleased
    exact hbare
  · have hmono := failures_le_step e o act id
    exact (hcovered.leased role r hr m hin hid).mono (by omega)

theorem IsCovered.run (h : o.IsCoherent e) {granted : Nat}
    (hcovered : o.IsCovered id (o.failures id + granted)) (acts : List Act) :
    (o.run e acts).IsCovered id ((o.run e acts).failures id + (granted + grants e id o acts)) := by
  -- Over the acts, with the wishes that were granted so far.
  induction acts generalizing o granted with
  | nil => exact hcovered
  | cons act acts ih =>
    have hrest := ih (h.step act) (hcovered.step h act)
    rw [Nat.add_assoc granted] at hrest
    exact hrest

/-- A send fails only for a record in TERMINATING, for which something was spent. -/
theorem IsCovered.spent_of_failed (h : o.IsCoherent e) {spent : Nat}
    (hcovered : o.IsCovered id spent) (act : Act)
    (hfails : o.failures id < (o.step e act).failures id) : 0 < spent := by
  cases act with
  | call c =>
    have hsame : (o.step e (.call c)).failures id = o.failures id := by
      unfold Office.step
      simp only
      split <;> rfl
    omega
  | work role chore =>
    unfold failures at hfails
    rw [told_work, List.countP_append] at hfails
    obtain ⟨p, hp, hfailed⟩ := List.countP_pos_iff.mp (Nat.pos_of_lt_add_right hfails)
    obtain ⟨r, hr, hf, hid⟩ := Session.mem_settledFor hp
    have hsending : p.1.sending = .termination := by
      unfold isFailedTermination at hfailed
      exact of_decide_eq_true (Bool.and_eq_true_iff.mp hfailed).1
    have hround := (h.steady role).coherent.round r hr
    have hin : p.1.leased ∈ r.members := List.mem_append_right _ (List.mem_map_of_mem hf)
    have hstate : p.1.leased.state = State.terminating.code := by
      rw [(hround.leased p.1.leased hin).state, (hround.flights p.1 hf).1, hsending]
      rfl
    have hcount := hcovered.leased role r hr p.1.leased hin hid hstate
    omega

/-- Before a wish is granted no send fails. -/
theorem IsCovered.failures_run (h : o.IsCoherent e) (hcovered : o.IsCovered id 0)
    (hnone : o.failures id = 0) {acts : List Act} (hgrants : grants e id o acts = 0) :
    (o.run e acts).failures id = 0 := by
  induction acts generalizing o with
  | nil => exact hnone
  | cons act acts ih =>
    obtain ⟨hgranted, hgrants⟩ := Nat.add_eq_zero_iff.mp hgrants
    have hfirst : (o.step e act).failures id = 0 := by
      by_contra hfails
      exact absurd (hcovered.spent_of_failed h act (by omega)) (Nat.lt_irrefl 0)
    have hcovered : o.IsCovered id (o.failures id + 0) := by
      rw [hnone]
      exact hcovered
    have hnext := hcovered.step h act
    rw [hfirst, hgranted] at hnext
    exact ih (h.step act) hnext hfirst hgrants

/-! ## §3. Given up. -/

/-- A failed send after which the termination of a record is not tried again. -/
structure GivesUp (e : Engine) (o : Office) (id : String) (role : Role) (k : Nat)
    (failure : DispatchFailure) : Prop where
  aloft : ∃ r f, o.round role = some r ∧ r.airborne[k]? = some f ∧ f.sending = .termination
    ∧ f.leased.id = id
  retryable : failure.isFatal = false
  before : (o.world.ledger.content id).map (·.state) = some State.terminating.code
  after : ((o.step e (.work role (.land k (.failed failure)))).world.ledger.content id).map
    (·.state) = some State.terminated.code

/-- The last failed send finds the attempts used up, and each of them is accounted for. -/
theorem GivesUp.spent {k : Nat} {failure : DispatchFailure} {granted : Nat}
    (hgives : o.GivesUp e id role k failure) (h : o.IsRegular e)
    (hcovered : o.IsCovered id (o.failures id + granted)) :
    e.retry.limit + 1
      ≤ (o.step e (.work role (.land k (.failed failure)))).failures id + granted := by
  obtain ⟨r, f, hr, hk, hsending, rfl⟩ := hgives.aloft
  obtain ⟨n, hn, hstate⟩ := Option.map_eq_some_iff.mp hgives.before
  have hretryable : (Reply.failed failure).isRetryable = true := by
    rw [Reply.isRetryable, hgives.retryable]
    rfl
  have hdue : n.IsDue n.role f.sending n.stateCount :=
    ⟨rfl, hstate.trans (by rw [hsending]; rfl), rfl⟩
  have hpanic : Reply.failed failure ≠ .panicked := Reply.noConfusion
  obtain ⟨n', hn', hresolves⟩ := Session.landOne_resolves (h.coherent.steady role).coherent hr hk
    hn (h.wellFormed.stored _ n hn) hdue hpanic
  have hworld : (o.step e (.work role (.land k (.failed failure)))).world
      = (Session.landOne e (o.session role).world r k (.failed failure)).world :=
    congrArg Session.world (Session.step_land (e := e) (s := o.session role) hr k _)
  have hafter := hgives.after
  rw [hworld, hn'] at hafter
  have hended : n'.state = State.terminated.code := Option.some.inj hafter
  have hcount := hcovered.stored n hn hstate
  rw [failures_land hr hk rfl hsending hretryable]
  cases hresolves with
  | again hkind hmore hagain =>
    have hcode := hagain.state.symm.trans hended
    rw [hsending] at hcode
    cases State.code_injective hcode
  | settled hlast hrole hsettles =>
    have hlimit : e.retry.limit ≤ n.stateCount + 1 := by
      rcases hlast with hkind | hlimit
      · rw [hretryable] at hkind
        cases hkind
      · exact hlimit
    omega

/-- The wish to end a record that is to be ended already has it enter its state once more. -/
theorem IsCoherent.terminating_again (h : o.IsCoherent e) (hopen : o.isOpen = true)
    (hn : o.world.ledger.content id = some n) (hstate : n.state = State.terminating.code)
    (reason : String) :
    ∃ n', (o.step e (.call (.terminate id reason))).world.ledger.content id = some n'
      ∧ n'.state = State.terminating.code ∧ n'.stateCount = n.stateCount + 1 := by
  have hedge : n.checkEdge .terminating = .ok () :=
    Negotiation.checkEdge_eq_ok_iff.mpr ⟨.terminating, hstate, rfl⟩
  obtain ⟨_, hn'⟩ :=
    Call.terminate_of_edge (h.steady .consumer).coherent.orderly.held hn hedge reason
  have hstep : o.step e (.call (.terminate id reason))
      = { o with world := (Call.terminate id reason).run e o.world } := if_pos hopen
  rw [hstep]
  refine ⟨_, hn', rfl, ?_⟩
  show (if n.state = State.terminating.code then n.stateCount + 1 else 0) = n.stateCount + 1
  rw [if_pos hstate]

/-- In every run, when the termination of a record is given up, the sends of it that failed and the
wishes to end the record that were granted are together more than the limit.  A wish that is granted
for a record that is to be ended already takes one attempt away, as a failed send does.  Before the
first wish is granted no send has failed. -/
theorem given_up_of_spent (e : Engine) (now : Instant) (supply : IdSupply) (acts : List Act)
    (id : String) :
    (∀ role k failure, ((blank now supply).run e acts).GivesUp e id role k failure →
        e.retry.limit + 1 ≤
          (((blank now supply).run e acts).step e
              (.work role (.land k (.failed failure)))).failures id
            + grants e id (blank now supply) acts)
      ∧ (∀ n reason, ((blank now supply).run e acts).isOpen = true →
        ((blank now supply).run e acts).world.ledger.content id = some n →
        n.state = State.terminating.code →
        ∃ n', (((blank now supply).run e acts).step e
              (.call (.terminate id reason))).world.ledger.content id = some n'
          ∧ n'.state = State.terminating.code ∧ n'.stateCount = n.stateCount + 1)
      ∧ (grants e id (blank now supply) acts = 0 →
          ((blank now supply).run e acts).failures id = 0) := by
  have hregular := (isRegular_blank e now supply).run acts
  have hcovered : ((blank now supply).run e acts).IsCovered id
      (((blank now supply).run e acts).failures id + (0 + grants e id (blank now supply) acts)) :=
    (isCovered_blank now supply id _).run (isCoherent_blank e now supply) acts
  rw [Nat.zero_add] at hcovered
  exact ⟨fun role k failure hgives => hgives.spent hregular hcovered,
    fun n reason hopen hn hstate => hregular.coherent.terminating_again hopen hn hstate reason,
    (isCovered_blank now supply id 0).failures_run (isCoherent_blank e now supply) rfl⟩

/-- A consumer that says twice that it changed its mind, until the termination is on its way. -/
def untilDoomedTwice : List Act :=
  untilDoomed ++ [.call (.terminate "gen-0001" "stop"), .work .consumer .start]
    ++ List.replicate 6 (.work .consumer .next) ++ [.work .consumer .begin]

/-- Two attempts are allowed, and the termination is given up after one failed send. -/
theorem given_up_after_one_failure :
    ((blank default).run impatient untilDoomedTwice).GivesUp impatient "gen-0001" .consumer 0
        ⟨.retryable, "down"⟩
      ∧ (((blank default).run impatient untilDoomedTwice).step impatient
          (.work .consumer (.land 0 (.failed ⟨.retryable, "down"⟩)))).failures "gen-0001" = 1
      ∧ 2 ≤ grants impatient "gen-0001" (blank default) untilDoomedTwice := by
  have haloft : ((((blank default).run impatient untilDoomedTwice).round .consumer).bind
      (·.airborne[0]?)).map (fun f => (f.sending, f.leased.id))
        = some (.termination, "gen-0001") := by decide +kernel
  have hfailures : (((blank default).run impatient untilDoomedTwice).step impatient
      (.work .consumer (.land 0 (.failed ⟨.retryable, "down"⟩)))).failures "gen-0001" = 1 := by
    decide +kernel
  have hgives : ((blank default).run impatient untilDoomedTwice).GivesUp impatient "gen-0001"
      .consumer 0 ⟨.retryable, "down"⟩ := by
    refine ⟨?_, by decide, by decide +kernel, by decide +kernel⟩
    obtain ⟨f, hf, hsays⟩ := Option.map_eq_some_iff.mp haloft
    obtain ⟨r, hr, hk⟩ := Option.bind_eq_some_iff.mp hf
    obtain ⟨hsending, hid⟩ := Prod.mk.inj hsays
    exact ⟨r, f, hr, hk, hsending, hid⟩
  have hspent := (given_up_of_spent impatient default .counted untilDoomedTwice "gen-0001").1
    .consumer 0 ⟨.retryable, "down"⟩ hgives
  rw [hfailures] at hspent
  have hlimit : impatient.retry.limit = 2 := rfl
  refine ⟨hgives, hfailures, ?_⟩
  omega

end Office

end Parley
