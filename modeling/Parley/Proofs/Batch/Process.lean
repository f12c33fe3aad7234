/-
  Parley.Proofs.Batch.Process
  ────────────────────────────────
  **A RUN OF A JOB, FROM THE LEASES TO THE LAST RECORD.**

  The records of a batch are handled side by side, their steps in any order, and
  meanwhile other workers use the store and the clock moves.  For every record it
  is settled beforehand what its action does (`Course`); what was done about it
  is kept in its diary.

  Whatever happens, each record is dealt with by itself:

      guarded     no action; stored as pending
      otherwise   one action, which reports once; unless it reports the record
                  as handled, the lease ends

  and the job counts the records that were reported as handled
  (`process_settles`).  With no one in between, and the records handled in order,
  this is what the job does to a world at hand (`outcome_alone`).
-/
import Parley.Proofs.Batch.Strand
import Parley.Proofs.World.Sharing

namespace Parley

open Parley.Query
open Parley.Batch

/-! ## §1. What others do to a record. -/

namespace Ledger

/-- What is saved is not leased. -/
theorem lease?_put (l : Ledger) (n : Negotiation) : (l.put (n.withLease none)).lease? n.id = none := by
  have hfind : (l.put (n.withLease none)).find? n.id = some (n.withLease none) := by
    rw [find?_put]
    exact if_pos rfl
  unfold lease?
  rw [hfind]
  rfl

/-- Where a lease was ended there is none. -/
theorem lease?_setLease_none (l : Ledger) (id : String) : (l.setLease id none).lease? id = none := by
  unfold lease?
  rw [find?_setLease, if_pos rfl]
  cases l.find? id <;> rfl

end Ledger

namespace Entry

variable {entry : Entry} {id holder : String}

/-- Whether the worker got at the record of an id: it was handed it, saved it, or ended its lease. -/
def takes (entry : Entry) (id : String) : Bool :=
  entry.obtains id || entry.givesUp id

/-- A record that a worker did not get at is as it was. -/
theorem find?_of_not_takes (h : entry.takes id = false) :
    entry.after.ledger.find? id = entry.world.ledger.find? id := by
  have hout := entry.outcome
  obtain ⟨hobtains, hgives⟩ := Bool.or_eq_false_iff.mp h
  unfold obtains at hobtains
  unfold givesUp at hgives
  generalize entry.answer = answer, entry.after = w', entry.deed = deed at hout hobtains hgives ⊢
  cases hout with
  | refused err => rfl
  | taken max criteria batch l hl =>
    obtain ⟨rfl, _, _⟩ := Ledger.nextNotLeased_eq_ok hl
    rw [World.ledger_withLedger, Ledger.find?_leaseEach, if_neg]
    intro hin
    obtain ⟨m, hm, rfl⟩ := List.mem_map.mp hin
    have hout := List.any_eq_false.mp hobtains m hm
    exact hout (decide_eq_true rfl)
  | leased other n l hl =>
    obtain ⟨_, ⟨stored, hstored, rfl⟩, rfl⟩ := Ledger.findAndLease_eq_ok hl
    rw [World.ledger_withLedger, Ledger.find?_setLease, if_neg]
    rintro rfl
    have hstored' : stored.id = id := Ledger.id_of_find? hstored
    have hout := List.any_eq_false.mp hobtains _ (List.mem_singleton_self _)
    exact hout (decide_eq_true hstored')
  | saved n l hl =>
    obtain ⟨_, rfl⟩ := Ledger.save_eq_ok hl
    rw [World.ledger_withLedger, Ledger.find?_put]
    exact if_neg (of_decide_eq_false hgives)
  | freed other l hl =>
    obtain ⟨_, rfl⟩ := Ledger.breakLease_eq_ok hl
    rw [World.ledger_withLedger, Ledger.find?_setLease, if_neg]
    exact (of_decide_eq_false hgives).imp Eq.symm

/-- A deed leaves the clock alone. -/
theorem now_after (entry : Entry) : entry.after.now = entry.world.now := by
  have hout := entry.outcome
  generalize entry.answer = answer, entry.after = w', entry.deed = deed at hout ⊢
  cases hout <;> rfl

/-- Where a lease was given up there is none. -/
theorem lease?_of_givesUp (h : entry.givesUp id = true) : entry.after.ledger.lease? id = none := by
  have hout := entry.outcome
  unfold givesUp at h
  generalize entry.answer = answer, entry.after = w', entry.deed = deed at hout h ⊢
  cases hout with
  | refused err => cases deed <;> cases h
  | taken max criteria batch l hl => cases h
  | leased other n l hl => cases h
  | saved n l hl =>
    obtain ⟨_, rfl⟩ := Ledger.save_eq_ok hl
    obtain rfl : n.id = id := of_decide_eq_true h
    exact Ledger.lease?_put _ n
  | freed other l hl =>
    obtain ⟨_, rfl⟩ := Ledger.breakLease_eq_ok hl
    obtain rfl : other = id := of_decide_eq_true h
    exact Ledger.lease?_setLease_none _ other

/-- No worker leases a record in another's name. -/
theorem isLeasedBy_of_after (hworker : entry.worker.holder ≠ holder)
    (h : entry.after.ledger.IsLeasedBy id holder) : entry.world.ledger.IsLeasedBy id holder := by
  obtain ⟨lease, hlease, hholder⟩ := h
  have hobtains : entry.obtains id = false := by
    rw [Bool.eq_false_iff]
    intro hyes
    obtain ⟨own, hown, hworker'⟩ := isLeasedBy_of_obtains hyes
    cases hlease.symm.trans hown
    exact hworker (hworker'.symm.trans hholder)
  have hgives : entry.givesUp id = false := by
    rw [Bool.eq_false_iff]
    intro hyes
    cases hlease.symm.trans (lease?_of_givesUp hyes)
  have hsame := find?_of_not_takes (Bool.or_eq_false_iff.mpr ⟨hobtains, hgives⟩)
  exact ⟨lease, (Ledger.lease?_congr hsame).symm.trans hlease, hholder⟩

/-- After a deed the lease on a record has an end, if it had one before and the worker's leases have
ends. -/
theorem leaseEnds_after (hend : (entry.worker.leaseAt entry.world.now).hasEnd = true)
    (h : entry.world.ledger.leaseEnds id = true) : entry.after.ledger.leaseEnds id = true := by
  rw [Ledger.leaseEnds_iff] at h ⊢
  intro lease hlease
  cases hobtains : entry.obtains id with
  | true =>
    rw [lease?_of_obtains hobtains] at hlease
    cases hlease
    exact hend
  | false =>
    cases hgives : entry.givesUp id with
    | true =>
      rw [lease?_of_givesUp hgives] at hlease
      cases hlease
    | false =>
      have hsame := find?_of_not_takes (Bool.or_eq_false_iff.mpr ⟨hobtains, hgives⟩)
      rw [Ledger.lease?_congr hsame] at hlease
      exact h lease hlease

end Entry

/-- Whether something is not done in a holder's name. -/
def Happening.isForeign (holder : String) : Happening → Bool
  | .clock _ => true
  | .ask worker _ => worker.holder ≠ holder

/-- Whether something that happens leaves every lease with an end, at whichever of some times the clock
shows.  The clock goes on showing one of them. -/
def Happening.EndsAt (times : List Instant) : Happening → Prop
  | .clock now => now ∈ times
  | .ask worker _ => ∀ now ∈ times, (worker.leaseAt now).hasEnd = true

instance (times : List Instant) : (event : Happening) → Decidable (event.EndsAt times)
  | .clock now => inferInstanceAs (Decidable (now ∈ times))
  | .ask worker _ => inferInstanceAs (Decidable (∀ now ∈ times, (worker.leaseAt now).hasEnd = true))

/-! ## §2. Scenes. -/

namespace Batch

/-- What was done about a record: how often its action was called and on what, what the action
reported, and whether another worker got at the record. -/
structure Diary where
  calls : List Negotiation := []
  reports : List Verdict := []
  taken : Bool := false

/-- The world in which a batch is handled, and the diaries of the records. -/
structure Scene where
  world : World
  diary : String → Diary := fun _ => {}

namespace Scene

/-- Keep something in the diary of a record. -/
def note (s : Scene) (id : String) (f : Diary → Diary) : Scene :=
  { s with diary := fun k => if k = id then f (s.diary k) else s.diary k }

/-- The scene with another ledger. -/
def withLedger (s : Scene) (l : Ledger) : Scene :=
  { s with world := s.world.withLedger l }

/-- Something happens that is not the job's doing. -/
def meet (s : Scene) : Happening → Scene
  | .clock now => { s with world := { s.world with now := now } }
  | .ask worker deed =>
    let entry : Entry := ⟨s.world, worker, deed⟩
    { world := entry.after
      diary := fun id => { s.diary id with taken := (s.diary id).taken || entry.takes id } }

/-- Several things happen. -/
def meets (events : List Happening) (s : Scene) : Scene :=
  events.foldl meet s

/-- What leaves a record and its diary alone, as far as a holder is concerned: unless it says that
the record was taken, the record is as it was; and the holder leases nothing.  The clock goes on showing
one of some times, and the lease on the record has an end as before. -/
structure Leaves (times : List Instant) (holder id : String) (s s' : Scene) : Prop where
  calls : (s'.diary id).calls = (s.diary id).calls
  reports : (s'.diary id).reports = (s.diary id).reports
  taken : (s.diary id).taken = true → (s'.diary id).taken = true
  find? : (s'.diary id).taken = false → s'.world.ledger.find? id = s.world.ledger.find? id
  lease : s'.world.ledger.IsLeasedBy id holder → s.world.ledger.IsLeasedBy id holder
  clock : s.world.now ∈ times → s'.world.now ∈ times
  ends : s.world.now ∈ times → s.world.ledger.leaseEnds id = true →
    s'.world.ledger.leaseEnds id = true

variable {s s' s'' : Scene} {times : List Instant} {holder id : String}

theorem Leaves.refl (holder id : String) (s : Scene) : s.Leaves times holder id s :=
  ⟨rfl, rfl, fun h => h, fun _ => rfl, fun h => h, fun h => h, fun _ h => h⟩

/-- What was not taken in the end was not taken before. -/
theorem Leaves.free (h : Leaves times holder id s s') (hfree : (s'.diary id).taken = false) :
    (s.diary id).taken = false := by
  rw [Bool.eq_false_iff]
  intro ht
  rw [h.taken ht] at hfree
  cases hfree

theorem Leaves.trans (h : Leaves times holder id s s') (h' : Leaves times holder id s' s'') :
    Leaves times holder id s s'' where
  calls := h'.calls.trans h.calls
  reports := h'.reports.trans h.reports
  taken ht := h'.taken (h.taken ht)
  find? hfree := (h'.find? hfree).trans (h.find? (h'.free hfree))
  lease hl := h.lease (h'.lease hl)
  clock hnow := h'.clock (h.clock hnow)
  ends hnow hl := h'.ends (h.clock hnow) (h.ends hnow hl)

/-- What happens in another name leaves every record alone. -/
theorem leaves_meet (s : Scene) {event : Happening} (hevent : event.isForeign holder = true)
    (hends : event.EndsAt times) (id : String) : s.Leaves times holder id (s.meet event) := by
  cases event with
  | clock now => exact ⟨rfl, rfl, fun h => h, fun _ => rfl, fun h => h, fun _ => hends, fun _ h => h⟩
  | ask worker deed =>
    refine ⟨rfl, rfl, fun ht => Bool.or_eq_true_iff.mpr (.inl ht), fun hfree => ?_, fun hlease => ?_,
      fun hnow => ?_, fun hnow hl => ?_⟩
    · have htakes := (Bool.or_eq_false_iff.mp hfree).2
      exact Entry.find?_of_not_takes htakes
    · have hworker : worker.holder ≠ holder := of_decide_eq_true hevent
      exact Entry.isLeasedBy_of_after hworker hlease
    · show (Entry.mk s.world worker deed).after.now ∈ times
      rw [Entry.now_after]
      exact hnow
    · exact Entry.leaseEnds_after (hends s.world.now hnow) hl

/-- So do several such things. -/
theorem leaves_meets (s : Scene) {events : List Happening}
    (hevents : ∀ event ∈ events, event.isForeign holder = true ∧ event.EndsAt times) (id : String) :
    s.Leaves times holder id (s.meets events) := by
  induction events generalizing s with
  | nil => exact Leaves.refl holder id s
  | cons event rest ih =>
    obtain ⟨hforeign, hends⟩ := hevents event List.mem_cons_self
    have hfirst := leaves_meet s hforeign hends id
    exact hfirst.trans (ih _ fun e he => hevents e (List.mem_cons_of_mem _ he))

end Scene

/-! ## §3. Courses. -/

/-- How an operation of a job gets at the world: the time is read in one step, and the store used in
the next.  Where a lease without an end is judged the operation breaks down. -/
def stepwise : Access (Strand Scene) where
  now := .step id fun s => .ended s.world.now
  advance ms := .once fun s => { s with world := s.world.advance ms }
  drawId := .step (fun s => { s with world := s.world.drawId.2 }) fun s => .ended s.world.drawId.1
  read f := .step id fun s => .ended (f s.world.ledger)
  use judged f := .step id fun asked =>
    .step (fun s =>
        if judged s.world.ledger then s.withLedger (f asked.world.now s.world.ledger).2 else s)
      fun s => if judged s.world.ledger then .ended (f asked.world.now s.world.ledger).1 else .broken
  announce news := .once fun s => { s with world := s.world.announce news }

/-- What an action does: it reports without touching the store, or it first saves its record in some
form or deletes it; or it breaks down as soon as it is called. -/
inductive Course where
  | reports (verdict : Verdict)
  | saves (form : Negotiation) (verdict : Verdict)
  | deletes (verdict : Verdict)
  | collapses
deriving DecidableEq

namespace Course

/-- What the action means to report. -/
def verdict : Course → Verdict
  | reports verdict | saves _ verdict | deletes verdict => verdict
  | collapses => .panicked

/-- Whether the record stays leased when the action is over. -/
def IsIdle : Course → Prop
  | reports _ | collapses => True
  | saves .. | deletes _ => False

/-- The record as the action leaves it. -/
def leaves (n : Negotiation) : Course → Option Negotiation
  | reports _ | collapses => some n
  | saves form _ => some ({ form with id := n.id }.withLease none)
  | deletes _ => none

/-- The record as it is in the end. -/
def fate (n : Negotiation) (course : Course) : Option Negotiation :=
  if course = .reports .handled then some n else (course.leaves n).map (·.withLease none)

/-- Take the course on a record, given what a breakdown is.  An action that cannot save fails. -/
def take {M : Type → Type} [Monad M] (a : Access M) (collapse : M Verdict) (h : Handle)
    (n : Negotiation) : Course → M Verdict
  | reports verdict => return verdict
  | saves form verdict => do
    match ← a.save h { form with id := n.id } with
    | .ok () => return verdict
    | .error _ => return .failed
  | deletes verdict => do
    let _ ← a.erase n.id
    return verdict
  | collapses => collapse

end Course

/-- An action, with its calls and reports kept in the diaries. -/
def noted (action : Action (Strand Scene)) : Action (Strand Scene) := fun n => do
  Strand.once fun s => s.note n.id fun d => { d with calls := d.calls ++ [n] }
  let verdict ← action n
  Strand.once fun s => s.note n.id fun d => { d with reports := d.reports ++ [verdict] }
  return verdict

/-- Actions that take their courses. -/
def acting (j : Job) (courses : Negotiation → Course) : Action (Strand Scene) :=
  noted fun n => (courses n).take stepwise .broken j.handle n

/-! ## §4. What is known of a record. -/

/-- What may be known of a record: its diary, what is stored, whether the holder may have it leased,
and something that is sure unless the record was taken. -/
structure Facts where
  calls : List Negotiation := []
  reports : List Verdict := []
  stored : Option Negotiation
  mayLease : Prop
  sure : Prop := True

namespace Scene

/-- The facts about a record that hold in a scene. -/
structure Has (times : List Instant) (holder id : String) (facts : Facts) (s : Scene) : Prop where
  calls : (s.diary id).calls = facts.calls
  reports : (s.diary id).reports = facts.reports
  stored : (s.diary id).taken = false → s.world.ledger.find? id = facts.stored
  lease : s.world.ledger.IsLeasedBy id holder → facts.mayLease
  sure : (s.diary id).taken = false → facts.sure
  clock : s.world.now ∈ times
  ends : s.world.ledger.leaseEnds id = true

variable {s s' : Scene} {times : List Instant} {holder id : String} {facts : Facts} {now : Instant}

theorem Has.moved (h : s.Has times holder id facts) (hs : s.Leaves times holder id s') :
    s'.Has times holder id facts where
  calls := hs.calls.trans h.calls
  reports := hs.reports.trans h.reports
  stored hfree := (hs.find? hfree).trans (h.stored (hs.free hfree))
  lease hl := h.lease (hs.lease hl)
  sure hfree := h.sure (hs.free hfree)
  clock := hs.clock h.clock
  ends := hs.ends h.clock h.ends

theorem Has.weaken {mayLease sure : Prop} (h : s.Has times holder id facts)
    (hlease : facts.mayLease → mayLease) (hsure : facts.sure → sure) :
    s.Has times holder id { facts with mayLease := mayLease, sure := sure } :=
  ⟨h.calls, h.reports, h.stored, fun hl => hlease (h.lease hl), fun hfree => hsure (h.sure hfree),
    h.clock, h.ends⟩

/-- If the store keeps the holder from its own record, then the record was taken, and the holder has
no lease on it. -/
theorem Has.of_shields (h : s.Has times holder id facts)
    (hown : ∀ n ∈ facts.stored, ∀ lease ∈ n.lease, lease.holder = holder)
    (hs : s.world.ledger.Shields id holder now) :
    (s.diary id).taken = true ∧ ¬ s.world.ledger.IsLeasedBy id holder := by
  obtain ⟨lease, hlease, hlive⟩ := hs
  have hother : lease.holder ≠ holder := ((Lease.shieldsFrom_iff lease holder now).mp hlive).2
  constructor
  · by_contra hfree
    obtain ⟨n, hn, hnlease⟩ := Ledger.find?_of_lease? hlease
    rw [h.stored (Bool.eq_false_iff.mpr hfree)] at hn
    exact hother (hown n hn lease hnlease)
  · rintro ⟨own, hown, hholder⟩
    cases hlease.symm.trans hown
    exact hother hholder

/-- If the lease is ended in the store, so it is. -/
theorem Has.unleased {l : Ledger} {stored : Option Negotiation} (h : s.Has times holder id facts)
    (hstored : (s.diary id).taken = false → l.find? id = stored) (hlease : l.lease? id = none) :
    (s.withLedger l).Has times holder id { facts with stored := stored, mayLease := False } :=
  ⟨h.calls, h.reports, hstored, fun ⟨_, hl, _⟩ => (nomatch hlease.symm.trans hl), h.sure, h.clock,
    Ledger.leaseEnds_iff.mpr fun _ hl => (nomatch hlease.symm.trans hl)⟩

/-- Of a record that was taken and that the holder has no lease on, nothing else is known. -/
theorem Has.lost {stored : Option Negotiation} {sure : Prop} (h : s.Has times holder id facts)
    (htaken : (s.diary id).taken = true) (hlease : ¬ s.world.ledger.IsLeasedBy id holder) :
    s.Has times holder id { facts with stored := stored, mayLease := False, sure := sure } := by
  have hnot : (s.diary id).taken = false → False := fun hfree => by
    rw [htaken] at hfree
    cases hfree
  exact ⟨h.calls, h.reports, fun hfree => (hnot hfree).elim, hlease, fun hfree => (hnot hfree).elim,
    h.clock, h.ends⟩

end Scene

open Scene

/-- A strand about one record of a holder. -/
abbrev Careful (times : List Instant) (holder id : String) (post : α → Scene → Prop)
    (p : Strand Scene α) (s : Scene) : Prop :=
  p.Meets (Leaves times holder id) (fun s s' => ∀ k, k ≠ id → Leaves times holder k s s') post s

variable {s : Scene} {times : List Instant} {holder id : String} {facts : Facts} {h : Handle}
  {n : Negotiation}

theorem leaves_withLedger {l : Ledger} (hl : l.find? id = s.world.ledger.find? id) :
    s.Leaves times holder id (s.withLedger l) :=
  ⟨rfl, rfl, fun ht => ht, fun _ => hl, fun hlease => hlease.congr hl.symm, fun hnow => hnow,
    fun _ hend => (Ledger.leaseEnds_congr hl).trans hend⟩

theorem leaves_note {k : String} (hk : k ≠ id) (f : Diary → Diary) :
    s.Leaves times holder k (s.note id f) := by
  have hdiary : (s.note id f).diary k = s.diary k := if_neg hk
  refine ⟨?_, ?_, fun ht => ?_, fun _ => rfl, fun hlease => hlease, fun hnow => hnow, fun _ hend => hend⟩
    <;> rw [hdiary]
  exact ht

/-- A use of the store that is about one record. -/
theorem careful_use {judged : Ledger → Bool} {f : Instant → Ledger → α × Ledger}
    {post : α → Scene → Prop} (hs : s.Has times holder id facts)
    (hpost : ∀ a s s', Leaves times holder id s s' → post a s → post a s')
    (hjudged : ∀ l : Ledger, l.leaseEnds id = true → judged l = true)
    (hf : ∀ now s, Has times holder id facts s →
      (∀ k, k ≠ id → (f now s.world.ledger).2.find? k = s.world.ledger.find? k)
        ∧ post (f now s.world.ledger).1 (s.withLedger (f now s.world.ledger).2)) :
    Careful times holder id post (stepwise.use judged f) s := by
  intro s₁ hs₁
  refine ⟨fun k _ => Leaves.refl holder k s₁, fun s₂ hs₂ => ?_⟩
  have hnow := (hs.moved hs₁).moved hs₂
  obtain ⟨hothers, hafter⟩ := hf s₁.world.now s₂ hnow
  simp only [hjudged _ hnow.ends, if_true]
  exact ⟨fun k hk => leaves_withLedger (hothers k hk), fun s₃ hs₃ => hpost _ _ _ hs₃ hafter⟩

/-- A use that the store may refuse. -/
theorem careful_attempt {judged : Ledger → Bool}
    {f : Instant → Ledger → Except StoreError (α × Ledger)}
    {post : Except StoreError α → Scene → Prop} (hs : s.Has times holder id facts)
    (hpost : ∀ a s s', Leaves times holder id s s' → post a s → post a s')
    (hjudged : ∀ l : Ledger, l.leaseEnds id = true → judged l = true)
    (hok : ∀ now s a l, Has times holder id facts s → f now s.world.ledger = .ok (a, l) →
      (∀ k, k ≠ id → l.find? k = s.world.ledger.find? k) ∧ post (.ok a) (s.withLedger l))
    (herr : ∀ now s e, Has times holder id facts s → f now s.world.ledger = .error e →
      post (.error e) s) :
    Careful times holder id post (stepwise.attempt judged f) s := by
  refine careful_use hs hpost hjudged fun now s hs => ?_
  cases hf : f now s.world.ledger with
  | error e => exact ⟨fun k _ => rfl, herr now s e hs hf⟩
  | ok result => exact hok now s result.1 result.2 hs hf

/-- A record is saved, unless it was taken. -/
theorem careful_save (hs : s.Has times h.holder n.id facts)
    (hown : ∀ m ∈ facts.stored, ∀ lease ∈ m.lease, lease.holder = h.holder) :
    Careful times h.holder n.id (fun saved s => match saved with
      | .ok () => s.Has times h.holder n.id
        { facts with stored := some (n.withLease none), mayLease := False }
      | .error _ => ∀ stored, s.Has times h.holder n.id
        { facts with stored := stored, mayLease := False, sure := False }) (stepwise.save h n) s := by
  refine careful_attempt hs ?_ (fun _ hend => hend) ?_ ?_
  · intro saved s s' hleaves hpost
    cases saved with
    | ok _ => exact hpost.moved hleaves
    | error _ => exact fun stored => (hpost stored).moved hleaves
  · intro now s _ l hs hok
    cases hsave : s.world.ledger.save h now n with
    | error e => simp [hsave, Except.map] at hok
    | ok l' =>
      simp only [hsave, Except.map, Except.ok.injEq, Prod.mk.injEq] at hok
      obtain ⟨_, rfl⟩ := hok
      obtain ⟨_, rfl⟩ := Ledger.save_eq_ok hsave
      refine ⟨fun k hk => ?_, hs.unleased (fun _ => ?_) (Ledger.lease?_put _ n)⟩
      · rw [Ledger.find?_put]
        exact if_neg hk.symm
      · rw [Ledger.find?_put]
        exact if_pos rfl
  · intro now s e hs herr stored
    have hshield : s.world.ledger.Shields n.id h.holder now := by
      by_contra hfree
      rw [Ledger.save_of_not_shields hfree] at herr
      cases herr
    obtain ⟨htaken, hlease⟩ := hs.of_shields hown hshield
    exact hs.lost htaken hlease

/-- The lease on a record is ended, unless it was taken. -/
theorem careful_release (hs : s.Has times h.holder id facts)
    (hown : ∀ m ∈ facts.stored, ∀ lease ∈ m.lease, lease.holder = h.holder) :
    Careful times h.holder id (fun _ s => s.Has times h.holder id
        { facts with stored := facts.stored.map (·.withLease none), mayLease := False })
      (stepwise.release h id) s := by
  let after : Facts := { facts with stored := facts.stored.map (·.withLease none), mayLease := False }
  suffices hbreak : Careful times h.holder id (fun _ s => s.Has times h.holder id after)
      (stepwise.breakLease h id) s from
    hbreak.andThen (Leaves.refl h.holder id) fun _ s hs s' hleaves => hs.moved hleaves
  refine careful_attempt hs (fun _ _ _ hleaves hpost => hpost.moved hleaves) (fun _ hend => hend) ?_ ?_
  · intro now s _ l hs hok
    cases hfree : s.world.ledger.breakLease h now id with
    | error e => simp [hfree, Except.map] at hok
    | ok l' =>
      simp only [hfree, Except.map, Except.ok.injEq, Prod.mk.injEq] at hok
      obtain ⟨_, rfl⟩ := hok
      obtain ⟨_, rfl⟩ := Ledger.breakLease_eq_ok hfree
      refine ⟨fun k hk => ?_, hs.unleased (fun hfree => ?_) (Ledger.lease?_setLease_none _ id)⟩
      · rw [Ledger.find?_setLease, if_neg hk]
      · rw [Ledger.find?_setLease, if_pos rfl, hs.stored hfree]
  · intro now s e hs herr
    by_cases hshield : s.world.ledger.Shields id h.holder now
    · obtain ⟨htaken, hlease⟩ := hs.of_shields hown hshield
      exact hs.lost htaken hlease
    · -- There is no record to release.
      cases hfind : s.world.ledger.find? id with
      | some n =>
        simp [Ledger.breakLease_of_not_shields hshield, hfind, Except.map] at herr
      | none =>
        refine ⟨hs.calls, hs.reports, fun hfree => ?_, fun hl => ?_, hs.sure, hs.clock, hs.ends⟩
        · show s.world.ledger.find? id = facts.stored.map (·.withLease none)
          rw [← hs.stored hfree, hfind]
          rfl
        · obtain ⟨n, hn⟩ := hl.stored
          cases hfind.symm.trans hn

/-- A record is deleted. -/
theorem careful_erase (hs : s.Has times holder id facts) :
    Careful times holder id
      (fun _ s => s.Has times holder id { facts with stored := none, mayLease := False })
      (stepwise.erase id) s := by
  refine careful_use hs (fun _ _ _ hleaves hpost => hpost.moved hleaves) (fun _ _ => rfl)
    fun now s hs => ⟨?_, ?_⟩
  · intro k hk
    show (s.world.ledger.erase id).find? k = _
    rw [Ledger.find?_erase, if_neg hk]
  · have hgone : (s.world.ledger.erase id).find? id = none := by
      rw [Ledger.find?_erase, if_pos rfl]
    refine hs.unleased (fun _ => hgone) ?_
    show ((s.world.ledger.erase id).find? id).bind _ = none
    rw [hgone]
    rfl

/-- Something is kept in the diary of a record. -/
theorem careful_note {f : Diary → Diary} {facts' : Facts} (hs : s.Has times holder id facts)
    (hf : ∀ s : Scene, s.Has times holder id facts → (s.note id f).Has times holder id facts') :
    Careful times holder id (fun _ s => s.Has times holder id facts') (.once fun s => s.note id f) s :=
  Strand.meets_once (fun _ _ hleaves hpre => hpre.moved hleaves)
    (fun _ _ hleaves hpost => hpost.moved hleaves)
    (fun s hpre => ⟨fun _ hk => leaves_note hk f, hf s hpre⟩) hs

/-! ## §5. One record. -/

/-- What is known of a leased record whose action was called. -/
def called (n : Negotiation) : Facts where
  calls := [n]
  stored := some n
  mayLease := True

/-- An action takes its course, or fails because its record was taken. -/
theorem careful_take {course : Course} (hcourse : course ≠ .collapses)
    (hs : s.Has times h.holder n.id (called n))
    (hown : ∀ lease ∈ n.lease, lease.holder = h.holder) :
    Careful times h.holder n.id (fun v s =>
        (v = course.verdict ∨ v = .failed ∧ ¬ course.IsIdle)
          ∧ s.Has times h.holder n.id ⟨[n], [], course.leaves n, course.IsIdle, v = course.verdict⟩)
      (course.take stepwise .broken h n) s := by
  cases course with
  | collapses => exact absurd rfl hcourse
  | reports v =>
    intro s' hleaves
    exact ⟨.inl rfl, (hs.moved hleaves).weaken (fun _ => trivial) fun _ => rfl⟩
  | saves form v =>
    have hstored : ∀ m ∈ (called n).stored, ∀ lease ∈ m.lease, lease.holder = h.holder := by
      rintro m ⟨⟩
      exact hown
    refine Strand.Meets.andThen (Leaves.refl h.holder n.id)
      (careful_save (n := { form with id := n.id }) hs hstored) fun saved s hs => ?_
    cases saved with
    | ok _ =>
      intro s' hleaves
      exact ⟨.inl rfl, (Has.moved hs hleaves).weaken (fun hl => hl) fun _ => rfl⟩
    | error e =>
      intro s' hleaves
      have hlost := hs ((Course.saves form v).leaves n)
      exact ⟨.inr ⟨rfl, fun hidle => hidle⟩,
        (hlost.moved hleaves).weaken (fun hl => hl) fun hno => hno.elim⟩
  | deletes v =>
    refine Strand.Meets.andThen (Leaves.refl h.holder n.id) (careful_erase hs) fun _ s hs => ?_
    intro s' hleaves
    exact ⟨.inl rfl, (hs.moved hleaves).weaken (fun hl => hl) fun _ => rfl⟩

/-- The course comes out as intended: what an action that reports a record as handled leaves is how
the record stays, and of any other the lease ends. -/
theorem Course.fate_of_verdict {course : Course} (h : course.verdict = .handled) :
    course.fate n = course.leaves n := by
  unfold fate
  cases course with
  | reports v =>
    cases h
    rfl
  | collapses => cases h
  | saves form v => rfl
  | deletes v => rfl

theorem Course.fate_of_release {course : Course} (h : course ≠ .reports .handled) :
    course.fate n = (course.leaves n).map (·.withLease none) :=
  if_neg h

variable {j : Job}

/-- How a record of a batch is left: as pending by a guard, and otherwise as its action means to
leave it. -/
structure Closes (times : List Instant) (j : Job) (course : Course) (n : Negotiation) (done : Bool)
    (s : Scene) : Prop where
  parked : j.guard n = true → done = false
    ∧ s.Has times j.handle.holder n.id ⟨[], [], some ((n.withPending true).withLease none), False, True⟩
  acted : j.guard n = false → ∃ v, done = decide (v = .handled)
    ∧ s.Has times j.handle.holder n.id
        ⟨[n], [v], course.fate n, course = .reports .handled, v = course.verdict⟩

/-- The action of a record is called unless the guard holds the record back. -/
theorem Closes.calls {course : Course} {done : Bool} (h : Closes times j course n done s) :
    (s.diary n.id).calls = if j.guard n then [] else [n] := by
  cases hguard : j.guard n with
  | true => exact (h.parked hguard).2.calls
  | false =>
    obtain ⟨v, _, hhas⟩ := h.acted hguard
    exact hhas.calls

/-- A record counts if its action reported it as handled. -/
theorem Closes.done_eq {course : Course} {done : Bool} (h : Closes times j course n done s) :
    done = decide ((s.diary n.id).reports = [.handled]) := by
  cases hguard : j.guard n with
  | true =>
    obtain ⟨hdone, hhas⟩ := h.parked hguard
    rw [hdone, hhas.reports]
    rfl
  | false =>
    obtain ⟨v, hdone, hhas⟩ := h.acted hguard
    rw [hdone, hhas.reports]
    simp

/-- A record that is still leased was reported as handled, and not saved. -/
theorem Closes.idle {course : Course} {done : Bool} (h : Closes times j course n done s)
    (hlease : s.world.ledger.IsLeasedBy n.id j.handle.holder) :
    j.guard n = false ∧ course = .reports .handled := by
  cases hguard : j.guard n with
  | true => exact ((h.parked hguard).2.lease hlease).elim
  | false =>
    obtain ⟨v, _, hhas⟩ := h.acted hguard
    exact ⟨rfl, hhas.lease hlease⟩

/-- A guarded record is parked. -/
theorem careful_park (hguard : j.guard n = true) (course : Course)
    (hs : s.Has times j.handle.holder n.id ⟨[], [], some n, True, True⟩)
    (hown : ∀ lease ∈ n.lease, lease.holder = j.handle.holder) :
    Careful times j.handle.holder n.id (fun done s => Closes times j course n done s)
      (do j.park stepwise n; return false) s := by
  have hstored : ∀ m ∈ some n, ∀ lease ∈ m.lease, lease.holder = j.handle.holder := by
    rintro m ⟨⟩
    exact hown
  have hpark : Careful times j.handle.holder n.id (fun _ s => s.Has times j.handle.holder n.id
      ⟨[], [], some ((n.withPending true).withLease none), False, True⟩)
      (j.park stepwise n) s := by
    refine Strand.Meets.andThen (Leaves.refl j.handle.holder n.id)
      (careful_save (n := n.withPending true) hs hstored) fun saved s hs => ?_
    intro s' hleaves
    cases saved with
    | ok _ => exact Has.moved hs hleaves
    | error e =>
      have hlost := hs (some ((n.withPending true).withLease none))
      exact (hlost.moved hleaves).weaken (fun hl => hl) fun _ => trivial
  refine Strand.Meets.andThen (Leaves.refl j.handle.holder n.id) hpark fun _ s hs => ?_
  intro s' hleaves
  exact ⟨fun _ => ⟨rfl, hs.moved hleaves⟩, fun hno => nomatch hno.symm.trans hguard⟩

/-- An action is called once, and reports once. -/
theorem careful_noted {course : Course} (hcourse : course ≠ .collapses)
    (hs : s.Has times h.holder n.id ⟨[], [], some n, True, True⟩)
    (hown : ∀ lease ∈ n.lease, lease.holder = h.holder) :
    Careful times h.holder n.id (fun v s =>
        (v = course.verdict ∨ v = .failed ∧ ¬ course.IsIdle)
          ∧ s.Has times h.holder n.id ⟨[n], [v], course.leaves n, course.IsIdle, v = course.verdict⟩)
      (noted (fun n => course.take stepwise .broken h n) n) s := by
  have hdiary (s : Scene) (f : Diary → Diary) : (s.note n.id f).diary n.id = f (s.diary n.id) :=
    if_pos rfl
  have hcall : Careful times h.holder n.id (fun _ s => s.Has times h.holder n.id (called n))
      (.once fun s => s.note n.id fun d => { d with calls := d.calls ++ [n] }) s := by
    refine careful_note hs fun s hs => ?_
    refine ⟨?_, ?_, ?_, fun _ => trivial, fun _ => trivial, hs.clock, hs.ends⟩ <;> rw [hdiary]
    · show (s.diary n.id).calls ++ [n] = [n]
      rw [hs.calls]
      rfl
    · exact hs.reports
    · exact hs.stored
  refine Strand.Meets.andThen (Leaves.refl h.holder n.id) hcall fun _ s hs => ?_
  refine Strand.Meets.andThen (Leaves.refl h.holder n.id) (careful_take hcourse hs hown)
    fun v s ⟨hv, hs⟩ => ?_
  have hreport : Careful times h.holder n.id
      (fun _ s => s.Has times h.holder n.id ⟨[n], [v], course.leaves n, course.IsIdle, v = course.verdict⟩)
      (.once fun s => s.note n.id fun d => { d with reports := d.reports ++ [v] }) s := by
    refine careful_note hs fun s hs => ?_
    refine ⟨?_, ?_, ?_, hs.lease, ?_, hs.clock, hs.ends⟩ <;> rw [hdiary]
    · exact hs.calls
    · show (s.diary n.id).reports ++ [v] = [v]
      rw [hs.reports]
      rfl
    · exact hs.stored
    · exact hs.sure
  refine Strand.Meets.andThen (Leaves.refl h.holder n.id) hreport fun _ s hs => ?_
  exact fun s' hleaves => ⟨hv, hs.moved hleaves⟩

/-- What follows an action. -/
theorem careful_conclude (hguard : j.guard n = false) (course : Course) (v : Verdict)
    (hv : v = course.verdict ∨ v = .failed ∧ ¬ course.IsIdle)
    (hown : ∀ lease ∈ n.lease, lease.holder = j.handle.holder)
    (hs : s.Has times j.handle.holder n.id
      ⟨[n], [v], course.leaves n, course.IsIdle, v = course.verdict⟩) :
    Careful times j.handle.holder n.id (fun done s => Closes times j course n done s)
      (j.conclude stepwise n v) s := by
  have hnot : j.guard n ≠ true := fun hyes => nomatch hguard.symm.trans hyes
  by_cases hhandled : v = .handled
  · subst hhandled
    have hverdict : course.verdict = .handled := by
      rcases hv with hv | ⟨hv, _⟩
      · exact hv.symm
      · cases hv
    intro s' hleaves
    have hs' := hs.moved hleaves
    refine ⟨fun hyes => absurd hyes hnot, fun _ => ⟨.handled, rfl, hs'.calls, hs'.reports, ?_, ?_,
      hs'.sure, hs'.clock, hs'.ends⟩⟩
    · intro hfree
      rw [hs'.stored hfree, course.fate_of_verdict hverdict]
    · intro hlease
      have hidle := hs'.lease hlease
      cases course with
      | reports verdict => rw [← hverdict]; rfl
      | collapses => cases hverdict
      | saves form verdict => exact hidle.elim
      | deletes verdict => exact hidle.elim
  · have hcourse : course ≠ .reports .handled := by
      rintro rfl
      rcases hv with hv | ⟨_, hidle⟩
      · exact hhandled hv
      · exact hidle trivial
    have hstored : ∀ m ∈ course.leaves n, ∀ lease ∈ m.lease, lease.holder = j.handle.holder := by
      intro m hm lease hlease
      cases course with
      | reports verdict | collapses =>
        cases hm
        exact hown lease hlease
      | saves form verdict =>
        cases hm
        cases hlease
      | deletes verdict => cases hm
    have hrelease : Careful times j.handle.holder n.id (fun done s => Closes times j course n done s)
        (do stepwise.release j.handle n.id; return false) s := by
      refine Strand.Meets.andThen (Leaves.refl j.handle.holder n.id)
        (careful_release hs hstored) fun _ s hs => ?_
      intro s' hleaves
      have hs' := hs.moved hleaves
      refine ⟨fun hyes => absurd hyes hnot, fun _ => ⟨v, (decide_eq_false hhandled).symm, hs'.calls,
        hs'.reports, ?_, fun hl => (hs'.lease hl).elim, hs'.sure, hs'.clock, hs'.ends⟩⟩
      intro hfree
      rw [hs'.stored hfree, course.fate_of_release hcourse]
    cases v with
    | handled => exact absurd rfl hhandled
    | _ => exact hrelease

/-- A record of a batch is handled, whatever is met with on the way. -/
theorem careful_handleOne (j : Job) (courses : Negotiation → Course)
    (hcourse : j.guard n = false → courses n ≠ .collapses)
    (hs : s.Has times j.handle.holder n.id ⟨[], [], some n, True, True⟩)
    (hown : ∀ lease ∈ n.lease, lease.holder = j.handle.holder) :
    Careful times j.handle.holder n.id (fun done s => Closes times j (courses n) n done s)
      (j.handleOne stepwise (acting j courses) n) s := by
  unfold Job.handleOne
  by_cases hguard : j.guard n = true
  · rw [if_pos hguard]
    exact careful_park hguard (courses n) hs hown
  · rw [if_neg hguard]
    have hpasses := Bool.eq_false_iff.mpr hguard
    refine Strand.Meets.andThen (Leaves.refl j.handle.holder n.id)
      (careful_noted (hcourse hpasses) hs hown) fun v s ⟨hv, hs⟩ => ?_
    exact careful_conclude hpasses (courses n) v hv hown hs

/-- Where an action collapses, so does the handling of its record. -/
theorem breaks_handleOne {courses : Negotiation → Course} (hguard : j.guard n = false)
    (hcourse : courses n = .collapses) : (j.handleOne stepwise (acting j courses) n).Breaks := by
  unfold Job.handleOne acting noted
  rw [if_neg (Bool.eq_false_iff.mp hguard)]
  simp only [hcourse]
  exact fun _ => trivial

/-! ## §6. The batch. -/

/-- The records that a job leases in a world. -/
def batch (j : Job) (w : World) : List Negotiation :=
  match w.ledger.nextNotLeased j.handle w.now j.batchSize j.criteria with
  | .ok (batch, _) => batch
  | .error _ => []

/-- The scene in which nothing has been done. -/
def opening (w : World) : Scene := { world := w }

/-- A run of a job that leases its batch at once: before each later step things happen, as listed.  It
gives a number unless the job breaks down. -/
def outcome (j : Job) (gather : Gather (Strand Scene)) (action : Action (Strand Scene))
    (events : List (List Happening)) (w : World) : Option Nat × Scene :=
  (j.process stepwise gather action).run (([] :: [] :: events).map Scene.meets) (opening w)

variable {w : World}

/-- The store is used at once, and then things happen. -/
theorem run_attempt {judged : Ledger → Bool}
    (f : Instant → Ledger → Except StoreError (α × Ledger))
    (next : Except StoreError α → Strand Scene β) (events : List (List Happening)) (w : World)
    (hjudged : judged w.ledger = true) :
    ((stepwise.attempt judged f).andThen next).run (([] :: [] :: events).map Scene.meets) (opening w)
      = match f w.now w.ledger with
        | .error e => (next (.error e)).run (events.map Scene.meets) (opening w)
        | .ok (a, l) => (next (.ok a)).run (events.map Scene.meets) (opening (w.withLedger l)) := by
  let result : Except StoreError α × Ledger := match f w.now w.ledger with
    | .error e => (.error e, w.ledger)
    | .ok (a, l) => (.ok a, l)
  show Strand.run (Strand.andThen
        (if judged w.ledger = true then .ended result.1 else .broken) next)
      (events.map Scene.meets)
      (if judged w.ledger = true then opening (w.withLedger result.2) else opening w) = _
  rw [if_pos hjudged, if_pos hjudged]
  unfold result
  cases f w.now w.ledger <;> rfl

/-- A job whose criteria are in order asks the store for its batch. -/
theorem process_of_valid (hvalid : validate j.criteria = .ok ()) (gather : Gather (Strand Scene))
    (action : Action (Strand Scene)) :
    j.process stepwise gather action
      = (stepwise.attempt (·.leasesEnd)
            fun now l => l.nextNotLeased j.handle now j.batchSize j.criteria).andThen
          fun found => match found with
            | .error _ => gather []
            | .ok found => gather (found.map (j.handleOne stepwise action)) := by
  unfold Job.process Job.lease Access.nextNotLeased
  rw [hvalid]
  refine (Strand.andThen_assoc _ _ _).trans (congrArg _ (funext fun found => ?_))
  cases found <;> rfl

/-- If the store refuses, there is no work. -/
theorem outcome_of_refused {e : StoreError} (hends : w.ledger.leasesEnd = true)
    (hvalid : validate j.criteria = .ok ())
    (hnext : w.ledger.nextNotLeased j.handle w.now j.batchSize j.criteria = .error e)
    (gather : Gather (Strand Scene)) (action : Action (Strand Scene))
    (events : List (List Happening)) :
    outcome j gather action events w = (gather []).run (events.map Scene.meets) (opening w) := by
  unfold outcome
  rw [process_of_valid hvalid, run_attempt _ _ _ _ hends, hnext]

/-- What the store gives is handled. -/
theorem outcome_of_leased {found : List Negotiation} {l : Ledger}
    (hends : w.ledger.leasesEnd = true) (hvalid : validate j.criteria = .ok ())
    (hnext : w.ledger.nextNotLeased j.handle w.now j.batchSize j.criteria = .ok (found, l))
    (gather : Gather (Strand Scene)) (action : Action (Strand Scene))
    (events : List (List Happening)) :
    outcome j gather action events w
      = (gather (found.map (j.handleOne stepwise action))).run (events.map Scene.meets)
          (opening (w.withLedger l)) := by
  unfold outcome
  rw [process_of_valid hvalid, run_attempt _ _ _ _ hends, hnext]

/-- Faulty criteria find no work. -/
theorem outcome_of_invalid {e : QueryError} (hvalid : validate j.criteria = .error e)
    (gather : Gather (Strand Scene)) (action : Action (Strand Scene))
    (events : List (List Happening)) (w : World) :
    outcome j gather action events w
      = (gather []).run (([] :: [] :: events).map Scene.meets) (opening w) := by
  have hlease : j.lease stepwise = .ended [] := by
    unfold Job.lease Access.nextNotLeased
    rw [hvalid]
    rfl
  have hprocess : j.process stepwise gather action = gather [] := by
    unfold Job.process
    rw [hlease]
    rfl
  unfold outcome
  rw [hprocess]

/-- First the batch is leased, then it is handled. -/
theorem outcome_eq (j : Job) (events : List (List Happening)) (hw : w.IsTimely j.handle) :
    ∃ (later : List (List Happening)) (l : Ledger),
      (∀ happenings ∈ later, happenings = [] ∨ happenings ∈ events)
      ∧ (∀ gather action, outcome j gather action events w
        = (gather ((batch j w).map (j.handleOne stepwise action))).run (later.map Scene.meets)
            (opening (w.withLedger l)))
      ∧ l.leasesEnd = true
      ∧ ((batch j w).map (·.id)).Nodup
      ∧ (∀ n ∈ batch j w, l.find? n.id = some n ∧ ∀ lease ∈ n.lease, lease.holder = j.handle.holder)
      ∧ ∀ id, id ∉ (batch j w).map (·.id) → l.find? id = w.ledger.find? id := by
  cases hvalid : validate j.criteria with
  | error e =>
    have hbatch : batch j w = [] := by
      unfold batch Ledger.nextNotLeased
      rw [hvalid]
    rw [hbatch]
    exact ⟨[] :: [] :: events, w.ledger, by simp,
      fun gather action => outcome_of_invalid hvalid gather action events w, hw.stored,
      List.nodup_nil, fun _ hn => absurd hn List.not_mem_nil, fun _ _ => rfl⟩
  | ok _ =>
    unfold batch
    cases hnext : w.ledger.nextNotLeased j.handle w.now j.batchSize j.criteria with
    | error e =>
      exact ⟨events, w.ledger, fun _ h => .inr h,
        fun gather action => outcome_of_refused hw.stored hvalid hnext gather action events,
        hw.stored, List.nodup_nil, fun _ hn => absurd hn List.not_mem_nil, fun _ _ => rfl⟩
    | ok result =>
      obtain ⟨found, l⟩ := result
      have hleased := fun gather action =>
        outcome_of_leased hw.stored hvalid hnext gather action events
      obtain ⟨rfl, hnodup, hfound⟩ := Ledger.nextNotLeased_eq_ok hnext
      refine ⟨events, _, fun _ h => .inr h, hleased, Ledger.leasesEnd_leaseEach hw.stored _ hw.taken,
        hnodup, fun n hn => ?_, fun id hid => ?_⟩
      · have hid : n.id ∈ found.map (·.id) := List.mem_map_of_mem hn
        obtain ⟨stored, hstored, _, _, heq⟩ := hfound n hn
        refine ⟨?_, fun lease hlease => ?_⟩
        · rw [Ledger.find?_leaseEach, if_pos hid, hstored, Option.map_some, ← heq]
        · rw [heq] at hlease
          cases hlease
          rfl
      · rw [Ledger.find?_leaseEach, if_neg hid]

/-- Nothing of what happens is done in a holder's name. -/
def AreForeign (holder : String) (events : List (List Happening)) : Prop :=
  ∀ happenings ∈ events, ∀ event ∈ happenings, event.isForeign holder = true

instance (holder : String) (events : List (List Happening)) : Decidable (AreForeign holder events) :=
  inferInstanceAs (Decidable (∀ happenings ∈ events, ∀ event ∈ happenings, _ = true))

/-- All that happens leaves every lease with an end, at whichever of some times. -/
def AllEndAt (times : List Instant) (events : List (List Happening)) : Prop :=
  ∀ happenings ∈ events, ∀ event ∈ happenings, event.EndsAt times

instance (times : List Instant) (events : List (List Happening)) :
    Decidable (AllEndAt times events) :=
  inferInstanceAs (Decidable (∀ happenings ∈ events, ∀ event ∈ happenings, event.EndsAt times))

/-- How every record of a batch is to be left. -/
def closing (times : List Instant) (j : Job) (courses : Negotiation → Course) (ns : List Negotiation)
    (id : String) (done : Bool) (s : Scene) : Prop :=
  ∀ n ∈ ns, n.id = id → Closes times j (courses n) n done s

/-- No action on a batch collapses. -/
def Stands (j : Job) (courses : Negotiation → Course) (ns : List Negotiation) : Prop :=
  ∀ n ∈ ns, j.guard n = false → courses n ≠ .collapses

instance (j : Job) (courses : Negotiation → Course) (ns : List Negotiation) :
    Decidable (Stands j courses ns) :=
  inferInstanceAs (Decidable (∀ n ∈ ns, j.guard n = false → courses n ≠ .collapses))

/-- The strands of a batch mind their own records. -/
theorem allMind_batch (j : Job) (courses : Negotiation → Course) {ns : List Negotiation} {l : Ledger}
    (hstands : Stands j courses ns) (hnodup : (ns.map (·.id)).Nodup) (hnow : w.now ∈ times)
    (hends : l.leasesEnd = true)
    (hfound : ∀ n ∈ ns, l.find? n.id = some n ∧ ∀ lease ∈ n.lease, lease.holder = j.handle.holder) :
    AllMind (Leaves times j.handle.holder) (closing times j courses ns)
      (ns.map fun n => (n.id, j.handleOne stepwise (acting j courses) n))
      (opening (w.withLedger l)) := by
  intro m hm
  obtain ⟨n, hn, rfl⟩ := List.mem_map.mp hm
  obtain ⟨hstored, hown⟩ := hfound n hn
  have hs : (opening (w.withLedger l)).Has times j.handle.holder n.id ⟨[], [], some n, True, True⟩ :=
    ⟨rfl, rfl, fun _ => hstored, fun _ => trivial, fun _ => trivial, hnow,
      Ledger.leaseEnds_of_leasesEnd hends n.id⟩
  refine (careful_handleOne j courses (hstands n hn) hs hown).mono (fun _ _ h => h)
    (fun _ _ h => h) ?_
  intro done s hcloses other hother hid
  rw [List.inj_on_of_nodup_map hnodup hother hn hid]
  exact hcloses

/-- Records that are not of the batch are left alone. -/
def Spares (times : List Instant) (j : Job) (w : World) (s : Scene) : Prop :=
  ∀ id, id ∉ (batch j w).map (·.id) → (opening w).Leaves times j.handle.holder id s

/-- In the end every record of the batch is closed, and no other record was touched. -/
theorem closes_outcome (j : Job) (courses : Negotiation → Course) (picks : List Nat)
    {events : List (List Happening)} (hevents : AreForeign j.handle.holder events)
    (hends : AllEndAt times events) (hw : w.IsTimely j.handle) (hnow : w.now ∈ times)
    (hstands : Stands j courses (batch j w)) :
    let r := outcome j (interleaved picks) (acting j courses) events w
    ∃ count, r.1 = some count
      ∧ AllEnd (Leaves times j.handle.holder) (closing times j courses (batch j w))
          ((batch j w).map (·.id)) count r.2
      ∧ Spares times j w r.2 := by
  intro r
  obtain ⟨later, l, hlater, hr, hstored, hnodup, hfound, hothers⟩ :=
    outcome_eq j events hw
  have hmind := allMind_batch j courses hstands hnodup hnow hstored hfound
  have hids : ((batch j w).map fun n => (n.id, j.handleOne stepwise (acting j courses) n)).map (·.1)
      = (batch j w).map (·.id) := List.map_map
  have hstrands : ((batch j w).map fun n =>
      (n.id, j.handleOne stepwise (acting j courses) n)).map (·.2)
      = (batch j w).map (j.handleOne stepwise (acting j courses)) := List.map_map
  have hmeets := meets_interleaved (fun id s => Leaves.refl j.handle.holder id s)
    (fun _ _ _ _ h h' => h.trans h') picks (hids ▸ hnodup) hmind
  rw [hids, hstrands] at hmeets
  have hspared : Spares times j w (opening (w.withLedger l)) := fun id hid =>
    leaves_withLedger (hothers id hid)
  have hothers : ∀ s s' : Scene, (∀ id, s.Leaves times j.handle.holder id s') → Spares times j w s →
      Spares times j w s' := fun s s' hs h id hid => (h id hid).trans (hs id)
  have hown : ∀ s s' : Scene,
      (∀ id, id ∉ (batch j w).map (·.id) → s.Leaves times j.handle.holder id s') →
      Spares times j w s → Spares times j w s' := fun s s' hs h id hid => (h id hid).trans (hs id hid)
  have hframed := hmeets.framed hothers hown hspared
  have hforeign : ∀ other ∈ later.map Scene.meets, ∀ s : Scene, ∀ id,
      s.Leaves times j.handle.holder id (other s) := by
    intro other hother s id
    obtain ⟨happenings, hin, rfl⟩ := List.mem_map.mp hother
    refine leaves_meets s (fun event hevent => ?_) id
    rcases hlater happenings hin with rfl | hin
    · cases hevent
    · exact ⟨hevents happenings hin event hevent, hends happenings hin event hevent⟩
  have hend := hframed.run (fun s id => Leaves.refl j.handle.holder id s) hforeign
  rw [← hr] at hend
  exact hend

/-- Where an action collapses, so does the job. -/
theorem outcome_of_collapse {courses : Negotiation → Course} (picks : List Nat)
    (events : List (List Happening)) (hw : w.IsTimely j.handle) (hn : n ∈ batch j w)
    (hguard : j.guard n = false) (hcourse : courses n = .collapses) :
    (outcome j (interleaved picks) (acting j courses) events w).1 = none := by
  obtain ⟨later, l, _, hr, _⟩ := outcome_eq j events hw
  rw [hr]
  have hin : j.handleOne stepwise (acting j courses) n
      ∈ (batch j w).map (j.handleOne stepwise (acting j courses)) := List.mem_map_of_mem hn
  exact (breaks_interleaved picks hin (breaks_handleOne hguard hcourse)).run _ _

/-! ## §7. With no one in between. -/

/-- A strand that is carried out alone does to the world what a function from one world to the next
does, and breaks down where that does. -/
def Plays (p : Strand Scene α) (m : OptionT (StateM World) α) : Prop :=
  ∀ s, (p.run [] s).1 = (m.run s.world).1 ∧ (p.run [] s).2.world = (m.run s.world).2

theorem Plays.bind {p : Strand Scene α} {m : OptionT (StateM World) α} {f : α → Strand Scene β}
    {g : α → OptionT (StateM World) β} (hp : Plays p m) (hf : ∀ a, Plays (f a) (g a)) :
    Plays (p >>= f) (m >>= g) := by
  intro s
  obtain ⟨hvalue, hworld⟩ := hp s
  show ((p.andThen f).run [] s).1 = _ ∧ ((p.andThen f).run [] s).2.world = _
  rw [run_bind_strict, Strand.run_andThen]
  generalize p.run [] s = result at hvalue hworld ⊢
  generalize m.run s.world = result' at hvalue hworld ⊢
  obtain ⟨a, s'⟩ := result
  obtain ⟨a', w'⟩ := result'
  cases hvalue
  cases hworld
  cases a with
  | none => exact ⟨rfl, rfl⟩
  | some a => exact hf a s'

theorem plays_pure (a : α) : Plays (pure a) (pure a) :=
  fun _ => ⟨rfl, rfl⟩

theorem plays_broken : Plays (.broken : Strand Scene α) failure :=
  fun _ => ⟨rfl, rfl⟩

theorem plays_use (judged : Ledger → Bool) (f : Instant → Ledger → α × Ledger) :
    Plays (stepwise.use judged f) (Access.strict.use judged f) := by
  intro s
  have hstrand : (stepwise.use judged f).run [] s
      = if judged s.world.ledger then (some (f s.world.now s.world.ledger).1,
          s.withLedger (f s.world.now s.world.ledger).2) else (none, s) := by
    show Strand.run
      (if judged s.world.ledger = true then .ended (f s.world.now s.world.ledger).1 else .broken) []
      (if judged s.world.ledger = true then s.withLedger (f s.world.now s.world.ledger).2 else s) = _
    split <;> rfl
  have hstrict : (Access.strict.use judged f).run s.world
      = if judged s.world.ledger then (some (f s.world.now s.world.ledger).1,
          s.world.withLedger (f s.world.now s.world.ledger).2) else (none, s.world) := by
    show (if judged s.world.ledger = true then OptionT.lift (Access.direct.use judged f)
      else failure : OptionT (StateM World) α).run s.world = _
    split <;> rfl
  rw [hstrand, hstrict]
  split <;> exact ⟨rfl, rfl⟩

theorem plays_take (h : Handle) (n : Negotiation) (course : Course) :
    Plays (course.take stepwise .broken h n) (course.take Access.strict failure h n) := by
  cases course with
  | reports v => exact plays_pure v
  | saves form v =>
    refine (plays_use _ _).bind fun saved => ?_
    cases saved <;> exact plays_pure _
  | deletes v => exact (plays_use _ _).bind fun _ => plays_pure v
  | collapses => exact plays_broken

/-- Diaries do nothing to the world. -/
theorem plays_noted {action : Action (Strand Scene)} {m : OptionT (StateM World) Verdict}
    (h : Plays (action n) m) : Plays (noted action n) m := by
  have hnote (f : Diary → Diary) : Plays (.once fun s => s.note n.id f) (pure ()) :=
    fun _ => ⟨rfl, rfl⟩
  have hnoted : Plays (noted action n)
      ((pure () : OptionT (StateM World) Unit) >>= fun _ => m >>= fun v =>
        (pure () : OptionT (StateM World) Unit) >>= fun _ => pure v) :=
    (hnote _).bind fun _ => h.bind fun v => (hnote _).bind fun _ => plays_pure v
  simpa using hnoted

theorem plays_handleOne (j : Job) {action : Action (Strand Scene)}
    {alone : Action (OptionT (StateM World))} (h : Plays (action n) (alone n)) :
    Plays (j.handleOne stepwise action n) (j.handleOne Access.strict alone n) := by
  have hrelease : Plays (do stepwise.release j.handle n.id; return false)
      (do Access.strict.release j.handle n.id; return false) :=
    ((plays_use _ _).bind fun _ => plays_pure ()).bind fun _ => plays_pure false
  unfold Job.handleOne
  split
  · exact ((plays_use _ _).bind fun _ => plays_pure ()).bind fun _ => plays_pure false
  · refine h.bind fun v => ?_
    cases v with
    | handled => exact plays_pure true
    | _ => exact hrelease

theorem plays_inOrder {ns : List Negotiation} {f : Negotiation → Strand Scene Bool}
    {g : Negotiation → OptionT (StateM World) Bool} (h : ∀ n, Plays (f n) (g n)) :
    Plays (inOrder (ns.map f)) (inOrder (ns.map g)) := by
  induction ns with
  | nil => exact plays_pure 0
  | cons n ns ih => exact (h n).bind fun _ => ih.bind fun _ => plays_pure _

theorem plays_lease (j : Job) : Plays (j.lease stepwise) (j.lease Access.strict) := by
  unfold Job.lease Access.nextNotLeased
  cases validate j.criteria with
  | error e => exact plays_pure []
  | ok _ =>
    refine (plays_use _ _).bind fun found => ?_
    cases found <;> exact plays_pure _

/-- With no one in between and the records handled in order, a run is that of the job on the world at
hand. -/
theorem outcome_alone (j : Job) (courses : Negotiation → Course) (w : World) :
    let r := outcome j (interleaved []) (acting j courses) [] w
    (r.1, r.2.world) = (j.process Access.strict inOrder
      (fun n => (courses n).take Access.strict failure j.handle n)).run w := by
  intro r
  have hact (n : Negotiation) :
      Plays (acting j courses n) ((courses n).take Access.strict failure j.handle n) :=
    plays_noted (plays_take j.handle n (courses n))
  have hplays : Plays (j.process stepwise (interleaved []) (acting j courses))
      (j.process Access.strict inOrder fun n =>
        (courses n).take Access.strict failure j.handle n) :=
    (plays_lease j).bind fun _ => plays_inOrder fun n => plays_handleOne j (hact n)
  have hidle : ∀ other ∈ ([[], []] : List (List Happening)).map Scene.meets, ∀ s, other s = s := by
    simp [Scene.meets]
  obtain ⟨hvalue, hworld⟩ := hplays (opening w)
  have hr : r = (j.process stepwise (interleaved []) (acting j courses)).run [] (opening w) :=
    Strand.run_idle hidle _ _
  rw [hr]
  exact Prod.ext hvalue hworld

/-! ## §8. What a run comes to. -/

/-- Whatever the store holds, the guard holds back and the actions do, in whatever order the steps
are taken, and whatever happens in between in other workers' names: as long as every lease has an end,
the job comes to an end itself exactly if no action collapses.  Then

    • the action is called once on each record of the batch that the guard lets pass, and never on
      another one;
    • it reports once, and unless its record was taken it reports what it means to and leaves the
      record so;
    • a record that the guard holds back is stored as pending, without a lease and otherwise as it
      was leased, unless it was taken;
    • the number of the actions that reported their records as handled is returned;
    • of the batch only such records are still leased whose action reported them as handled without
      saving them;
    • no other record is touched. -/
theorem process_settles (j : Job) (courses : Negotiation → Course) (picks : List Nat)
    (events : List (List Happening)) (hevents : AreForeign j.handle.holder events) (w : World)
    (hw : w.IsTimely j.handle) (times : List Instant) (hnow : w.now ∈ times)
    (hends : AllEndAt times events) :
    let r := outcome j (interleaved picks) (acting j courses) events w
    (r.1 = none ↔ ∃ n ∈ batch j w, j.guard n = false ∧ courses n = .collapses)
      ∧ ∀ count, r.1 = some count →
        (∀ n ∈ batch j w, (r.2.diary n.id).calls = if j.guard n then [] else [n])
        ∧ (∀ id, id ∉ (batch j w).map (·.id) → (r.2.diary id).calls = [])
        ∧ (∀ n ∈ batch j w, j.guard n = false → ∃ v, (r.2.diary n.id).reports = [v]
            ∧ ((r.2.diary n.id).taken = false → v = (courses n).verdict
              ∧ r.2.world.ledger.find? n.id = (courses n).fate n))
        ∧ (∀ n ∈ batch j w, j.guard n = true → (r.2.diary n.id).taken = false →
            r.2.world.ledger.find? n.id = some ((n.withPending true).withLease none))
        ∧ count = (batch j w).countP (fun n => (r.2.diary n.id).reports = [.handled])
        ∧ (∀ n ∈ batch j w, r.2.world.ledger.IsLeasedBy n.id j.handle.holder →
            j.guard n = false ∧ courses n = .reports .handled)
        ∧ (∀ id, id ∉ (batch j w).map (·.id) → (r.2.diary id).taken = false →
            r.2.world.ledger.find? id = w.ledger.find? id) := by
  intro r
  by_cases hcollapse : ∃ n ∈ batch j w, j.guard n = false ∧ courses n = .collapses
  · obtain ⟨n, hn, hguard, hcourse⟩ := hcollapse
    have hnone : r.1 = none := outcome_of_collapse picks events hw hn hguard hcourse
    refine ⟨iff_of_true hnone ⟨n, hn, hguard, hcourse⟩, fun count hcount => ?_⟩
    rw [hnone] at hcount
    cases hcount
  · have hstands : Stands j courses (batch j w) := fun n hn hguard hcourse =>
      hcollapse ⟨n, hn, hguard, hcourse⟩
    obtain ⟨total, htotal, ⟨ends, hids, hcount, hends⟩, hothers⟩ :=
      closes_outcome j courses picks hevents hends hw hnow hstands
    refine ⟨iff_of_false (fun hnone => nomatch htotal.symm.trans hnone) hcollapse, ?_⟩
    intro count hcounted
    cases htotal.symm.trans hcounted
    have hclosed : ∀ e ∈ ends, ∀ n ∈ batch j w, n.id = e.1 →
        Closes times j (courses n) n e.2 r.2 := fun e he n hn hid =>
      hends e he r.2 (Leaves.refl j.handle.holder e.1 r.2) n hn hid
    have hends : ∀ n ∈ batch j w, ∃ done, Closes times j (courses n) n done r.2 := by
      intro n hn
      have hin : n.id ∈ ends.map (·.1) := hids ▸ List.mem_map_of_mem hn
      obtain ⟨e, he, hid⟩ := List.mem_map.mp hin
      exact ⟨e.2, hclosed e he n hn hid.symm⟩
    refine ⟨fun n hn => ?_, fun id hid => (hothers id hid).calls, fun n hn hguard => ?_,
      fun n hn hguard => ?_, ?_, fun n hn hlease => ?_, fun id hid => (hothers id hid).find?⟩
    · obtain ⟨done, hn⟩ := hends n hn
      exact hn.calls
    · obtain ⟨done, hn⟩ := hends n hn
      obtain ⟨v, _, hv⟩ := hn.acted hguard
      exact ⟨v, hv.reports, fun hfree => ⟨hv.sure hfree, hv.stored hfree⟩⟩
    · obtain ⟨done, hn⟩ := hends n hn
      exact (hn.parked hguard).2.stored
    · have hdone : ∀ e ∈ ends, e.2 = decide ((r.2.diary e.1).reports = [.handled]) := by
        intro e he
        have hin : e.1 ∈ (batch j w).map (·.id) := hids ▸ List.mem_map_of_mem he
        obtain ⟨n, hn, hid⟩ := List.mem_map.mp hin
        rw [← hid]
        exact (hclosed e he n hn hid).done_eq
      have hall : total = ((batch j w).map (·.id)).countP fun id =>
          (r.2.diary id).reports = [.handled] := hcount.trans (countP_ends hids hdone)
      rw [hall, List.countP_map]
      rfl
    · obtain ⟨done, hn⟩ := hends n hn
      exact hn.idle hlease

/-- Six records; the first is guarded, the second is reported as handled but not saved, the action of
the third panics, the fourth is stolen, the fifth deleted and the sixth saved. -/
def mixedRecords : World where
  ledger := ["n-1", "n-2", "n-3", "n-4", "n-5", "n-6"].foldl (fun l id =>
    l.put (.new id .consumer "provider" "http://provider" "dsp" default)) .empty
  now := default

def mixedJob : Job where
  description := "mixed"
  handle := ⟨"worker", 60000⟩
  criteria := []
  batchSize := 20
  guard n := n.id = "n-1"

def mixedCourses (n : Negotiation) : Course :=
  if n.id = "n-2" then .reports .handled
  else if n.id = "n-3" then .reports .panicked
  else if n.id = "n-5" then .deletes .unchanged
  else .saves (n.withErrorDetail "handled") .handled

/-- The leases run out, and another worker takes the fourth record. -/
def theft : List (List Happening) :=
  [[], [.clock ⟨60000000000, false⟩, .ask ⟨"thief", 60000⟩ (.lease "n-4")]]

/-- The same, but the action of the third record collapses. -/
def failingCourses (n : Negotiation) : Course :=
  if n.id = "n-3" then .collapses else mixedCourses n

/-- All six are dealt with, with their steps mixed.  Where the third action collapses the second and the
fourth record stay leased. -/
theorem mixed_batch_settled :
    let r := outcome mixedJob (interleaved [5, 3, 0, 3, 1, 0, 5, 2, 5]) (acting mixedJob mixedCourses)
      theft mixedRecords
    let failed := outcome mixedJob (interleaved []) (acting mixedJob failingCourses) [] mixedRecords
    (batch mixedJob mixedRecords).length = 6 ∧ r.1 = some 2
      ∧ (∀ n ∈ batch mixedJob mixedRecords,
          (r.2.diary n.id).calls = if n.id = "n-1" then [] else [n])
      ∧ (r.2.world.ledger.find? "n-1").map (fun n => (n.pending, n.lease)) = some (true, none)
      ∧ r.2.world.ledger.find? "n-5" = none
      ∧ r.2.world.ledger.IsLeasedBy "n-4" "thief"
      ∧ failed.1 = none
      ∧ (failed.2.diary "n-4").calls = []
      ∧ failed.2.world.ledger.IsLeasedBy "n-4" "worker" := by
  intro r failed
  obtain ⟨_, hsettles⟩ := process_settles mixedJob mixedCourses [5, 3, 0, 3, 1, 0, 5, 2, 5] theft
    (by decide) mixedRecords (by decide +kernel) [default, ⟨60000000000, false⟩] (by decide)
    (by decide +kernel)
  have hcount : r.1 = some 2 := by decide +kernel
  obtain ⟨hcalls, _⟩ := hsettles 2 hcount
  refine ⟨by decide +kernel, hcount, fun n hn => ?_, by decide +kernel,
    by decide +kernel, ?_, by decide +kernel, by decide +kernel, ?_⟩
  · rw [hcalls n hn]
    simp [mixedJob]
  · exact ⟨⟨"thief", ⟨60000000000, false⟩, 60000⟩, by decide +kernel, rfl⟩
  · exact ⟨⟨"worker", default, 60000⟩, by decide +kernel, rfl⟩

end Batch

end Parley
