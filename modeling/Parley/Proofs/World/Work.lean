/-
  Parley.Proofs.World.Work
  ────────────────────────────────
  **HANDING OUT WORK.**

  Asking for work selects, orders, cuts off and leases in separate passes over
  the records.  Together they do this (`HandsOut`):

      refused    if a criterion is not in order; the store stays as it is
      the row    all records that are free and meet the criteria, those that
                 wait longest first, of equal times the lesser id first
      the batch  as much of the row as is asked for, leased to the worker
      the store  has the batch as it is handed out, and the rest as it was

  A lease that was handed out keeps its record from all workers, its own one
  too, until it has run out or is released, whatever else happens to the store in the
  meantime (`Lease.Holds.along`).
-/
import Parley.Proofs.Query.Checks
import Parley.Proofs.Query.Order
import Parley.Proofs.World.Sharing

namespace Parley

open Parley.Query

namespace Ledger

/-! ## §1. The order of work. -/

/-- Work that comes before other work: it has waited longer, or as long and has the lesser id. -/
def ComesBefore (a b : Negotiation) : Prop :=
  a.stateTimestamp < b.stateTimestamp ∨ a.stateTimestamp = b.stateTimestamp ∧ a.id < b.id

theorem waitsLonger_iff {a b : Negotiation} : waitsLonger a b = true ↔ ComesBefore a b := by
  unfold waitsLonger ComesBefore
  simp only [Bool.or_eq_true, Bool.and_eq_true, Bool.not_eq_true', decide_eq_true_eq,
    decide_eq_false_iff_not, Instant.lt_def, Instant.eq_iff_rank]
  by_cases hid : a.id < b.id <;> simp only [hid, and_true, and_false, or_false]
  omega

theorem waitsLonger_eq_false_iff {a b : Negotiation} :
    waitsLonger a b = false ↔ b.stateTimestamp < a.stateTimestamp
      ∨ b.stateTimestamp = a.stateTimestamp ∧ b.id ≤ a.id := by
  rw [← Bool.not_eq_true, waitsLonger_iff]
  unfold ComesBefore
  simp only [Instant.lt_def, Instant.eq_iff_rank]
  rw [← String.not_lt]
  by_cases hid : a.id < b.id <;>
    simp only [hid, and_true, and_false, or_false, not_true, not_false_iff]
  · omega
  · omega

theorem isConsistent_waitsLonger : IsConsistent waitsLonger where
  asymm a b hab := by
    rw [waitsLonger_iff] at hab
    rw [waitsLonger_eq_false_iff]
    rcases hab with htime | ⟨htime, hid⟩
    · exact .inl htime
    · exact .inr ⟨htime, String.not_lt.mp (String.lt_asymm hid)⟩
  trans a b c hab hbc := by
    rw [waitsLonger_eq_false_iff] at hab hbc ⊢
    simp only [Instant.lt_def, Instant.eq_iff_rank] at hab hbc ⊢
    rcases hab with hab | ⟨hab, hid⟩
    · left
      omega
    · rcases hbc with hbc | ⟨hbc, hid'⟩
      · left
        omega
      · exact .inr ⟨hbc.trans hab, String.le_trans hid' hid⟩

/-- Of two records with different ids one comes before the other. -/
theorem comesBefore_of_ne {a b : Negotiation} (hle : waitsLonger b a = false) (hid : a.id ≠ b.id) :
    ComesBefore a b := by
  rw [waitsLonger_eq_false_iff] at hle
  rcases hle with htime | ⟨htime, hle⟩
  · exact .inl htime
  · refine .inr ⟨htime, String.not_le.mp fun hge => hid ?_⟩
    exact String.le_antisymm hle hge

end Ledger

/-! ## §2. A call. -/

/-- Every criterion is about a declared field, and its operand has the shape that its operator
needs. -/
def AreInOrder (criteria : List Criterion) : Prop :=
  ∀ c ∈ criteria, c.path ∈ Negotiation.fieldPaths ∧ Criterion.HasShape c.operator c.operand

theorem validate_eq_ok_iff_areInOrder {criteria : List Criterion} :
    validate criteria = .ok () ↔ AreInOrder criteria := by
  rw [validate_eq_ok_iff]
  refine forall₂_congr fun c _ => ?_
  unfold Criterion.check
  rw [← Criterion.checkOperand_eq_ok_iff]
  by_cases hpath : c.path ∈ Negotiation.fieldPaths
  · simp [hpath]
  · simp [hpath]

/-- What a worker is handed, and what the ledger is then. -/
structure HandsOut (h : Handle) (w : World) (max : Nat) (criteria : List Criterion)
    (batch : List Negotiation) (l : Ledger) : Prop where
  /-- The batch is the beginning of a row in which everything is that may be handed out. -/
  beginning : ∃ row : List Negotiation,
    (∀ n, n ∈ row ↔ w.ledger.find? n.id = some n
      ∧ (∀ lease, n.lease = some lease → lease.expiry ≤ w.now)
      ∧ ∀ c ∈ criteria, evaluate n c = .ok true)
    ∧ row.Pairwise Ledger.ComesBefore
    ∧ batch = (row.take max).map (·.withLease (some (h.leaseAt w.now)))
  distinct : (batch.map (·.id)).Nodup
  stored : ∀ m ∈ batch, l.find? m.id = some m
  others : ∀ id, (∀ m ∈ batch, m.id ≠ id) → l.find? id = w.ledger.find? id

namespace Ledger

variable {l : Ledger} {now : Instant} {criteria : List Criterion}

theorem isFree_iff {n : Negotiation} :
    isFree now n = true ↔ ∀ lease, n.lease = some lease → lease.expiry ≤ now := by
  unfold isFree
  cases n.lease with
  | none => simp
  | some lease => simp [Lease.isExpired_iff]

/-- What may be handed out. -/
theorem mem_freeRow_meetsAll {n : Negotiation} :
    n ∈ l.freeRow now (meetsAll criteria) ↔ l.find? n.id = some n
      ∧ (∀ lease, n.lease = some lease → lease.expiry ≤ now)
      ∧ ∀ c ∈ criteria, evaluate n c = .ok true := by
  rw [mem_freeRow, isFree_iff, meetsAll_iff]
  refine and_congr_left fun _ => ?_
  constructor
  · intro hin
    exact find?_of_mem hin
  · intro hfound
    exact mem_of_find? hfound

/-- A row of free records is in order, and no two of them are in one place. -/
theorem pairwise_freeRow (l : Ledger) (now : Instant) (keep : Negotiation → Bool) :
    (l.freeRow now keep).Pairwise ComesBefore := by
  have hsorted : InOrder waitsLonger (l.freeRow now keep) :=
    inOrder_stableSort isConsistent_waitsLonger _
  have hids : (l.freeRow now keep).Pairwise fun a b => a.id ≠ b.id :=
    List.pairwise_map.mp (nodup_freeRow l now keep)
  exact (hsorted.and hids).imp fun ⟨hle, hid⟩ => comesBefore_of_ne hle hid

/-- Whether the record of an id waits for a duty, with room for it in the batch: so many records are
taken, and fewer wait for the duty and come before it. -/
def HasTurn (l : Ledger) (now : Instant) (max : Nat) (role : Role) (d : State) (id : String) :
    Prop :=
  ∃ n ∈ l.waiting now role d, n.id = id
    ∧ ((l.waiting now role d).filter (waitsLonger · n)).length < max

instance (max : Nat) (role : Role) (d : State) (id : String) :
    Decidable (l.HasTurn now max role d id) :=
  inferInstanceAs (Decidable (∃ n ∈ l.waiting now role d, n.id = id
    ∧ ((l.waiting now role d).filter (waitsLonger · n)).length < max))

/-- Such a record is in the batch. -/
theorem HasTurn.mem_dutyBatch {max : Nat} {role : Role} {d : State} {id : String}
    (hturn : l.HasTurn now max role d id) (h : Handle) :
    ∃ m ∈ l.dutyBatch h now max role d, m.id = id := by
  obtain ⟨n, hn, hid, hroom⟩ := hturn
  obtain ⟨before, after, hrow⟩ := List.append_of_mem hn
  have hpairs : (l.waiting now role d).Pairwise ComesBefore :=
    pairwise_freeRow l now (callsFor role d)
  rw [hrow, List.pairwise_append] at hpairs
  -- Those in front of it are those that come before it.
  have hbefore : before.filter (waitsLonger · n) = before := by
    refine List.filter_eq_self.mpr fun m hm => ?_
    exact waitsLonger_iff.mpr (hpairs.2.2 m hm n List.mem_cons_self)
  rw [hrow, List.filter_append, hbefore, List.length_append] at hroom
  have htaken : n ∈ (l.waiting now role d).take max := by
    rw [hrow, List.take_append, List.mem_append]
    right
    obtain ⟨k, hk⟩ := Nat.exists_eq_add_of_lt (Nat.lt_of_le_of_lt (Nat.le_add_right _ _) hroom)
    rw [show max - before.length = k + 1 by omega, List.take_succ_cons]
    exact List.mem_cons_self
  exact ⟨_, List.mem_map_of_mem htaken, hid⟩

end Ledger

section Call

variable (w : World) (h : Handle) (max : Nat) {criteria : List Criterion}

/-- Faulty criteria are refused, and nothing changes. -/
theorem World.tried_take_of_not_areInOrder (hc : ¬ AreInOrder criteria) :
    ∃ fault, (Deed.take max criteria).tried h w = (some (.error (.invalidQuery fault)), w) := by
  cases hvalidate : validate criteria with
  | error fault =>
    refine ⟨fault, ?_⟩
    simp only [Deed.tried, Deed.perform, Access.nextNotLeased, hvalidate]
    rfl
  | ok _ => exact absurd (validate_eq_ok_iff_areInOrder.mp hvalidate) hc

/-- With criteria that are in order all leases are judged. -/
theorem World.judged_take_of_areInOrder (hc : AreInOrder criteria) (l : Ledger) :
    (Deed.take max criteria).judged l = l.leasesEnd := by
  simp only [Deed.judged, validate_eq_ok_iff_areInOrder.mpr hc]

/-- Then work is handed out. -/
theorem World.run_take_of_areInOrder (hc : AreInOrder criteria) :
    ∃ batch l, (Deed.take max criteria).run h w = (.ok batch, w.withLedger l)
      ∧ HandsOut h w max criteria batch l := by
  have hvalidate := validate_eq_ok_iff_areInOrder.mpr hc
  let chosen := (w.ledger.freeRow w.now (meetsAll criteria)).take max
  let batch := chosen.map (·.withLease (some (h.leaseAt w.now)))
  have hids : batch.map (·.id) = chosen.map (·.id) := by
    rw [List.map_map]
    rfl
  have hnext : w.ledger.nextNotLeased h w.now max criteria
      = .ok (batch, w.ledger.leaseEach (chosen.map (·.id)) (h.leaseAt w.now)) := by
    unfold Ledger.nextNotLeased
    rw [hvalidate, Ledger.candidates_of_validate hvalidate]
  refine ⟨batch, w.ledger.leaseEach (chosen.map (·.id)) (h.leaseAt w.now), ?_, ?_⟩
  · simp only [Deed.run, Deed.perform, Access.nextNotLeased, hvalidate]
    rw [Access.direct_attempt, hnext]
  · refine ⟨⟨_, fun n => Ledger.mem_freeRow_meetsAll, Ledger.pairwise_freeRow _ _ _, rfl⟩,
      ?_, ?_, ?_⟩
    · rw [hids]
      exact ((List.take_sublist _ _).map _).nodup (Ledger.nodup_freeRow _ _ _)
    · intro m hm
      obtain ⟨n, hn, rfl⟩ := List.mem_map.mp hm
      have hstored : w.ledger.find? n.id = some n :=
        (Ledger.mem_freeRow_meetsAll.mp (List.mem_of_mem_take hn)).1
      show (w.ledger.leaseEach (chosen.map (·.id)) (h.leaseAt w.now)).find? n.id = _
      rw [Ledger.find?_leaseEach, if_pos (List.mem_map_of_mem hn), hstored]
      rfl
    · intro id hid
      rw [Ledger.find?_leaseEach, if_neg]
      rw [← hids, List.mem_map]
      intro hin
      obtain ⟨m, hm, hmid⟩ := hin
      exact hid m hm hmid

/-- What was handed out came from the ledger. -/
theorem World.ledger_of_tried_take {w : World} {h : Handle} {max : Nat}
    {batch : List Negotiation}
    (hok : ((Deed.take max criteria).tried h w).1 = some (.ok batch)) :
    ∃ l, w.ledger.nextNotLeased h w.now max criteria = .ok (batch, l) := by
  have hout := Deed.run_outcome h w (.take max criteria)
  rw [Deed.tried_eq] at hok
  split at hok
  · have hanswer : ((Deed.take max criteria).run h w).1 = .ok batch := Option.some.inj hok
    rw [hanswer] at hout
    generalize ((Deed.take max criteria).run h w).2 = w' at hout
    cases hout with
    | taken _ _ _ l hl => exact ⟨l, hl⟩
  · cases hok

end Call

/-! ## §3. How long a lease holds. -/

/-- Something that happens to a store: to do with leases, or a record is taken out whatever lease is
on it. -/
inductive Incident where
  | happens (event : Happening)
  | erases (id : String)
deriving DecidableEq, Repr

namespace Incident

/-- The world after it; a deed that breaks down changes nothing. -/
def run (w : World) : Incident → World
  | happens event => w.afterTries [event]
  | erases id => (Access.direct.erase id w).2

/-- Whether a lease on the record of an id is released: its holder saves the record, ends the lease
or takes one anew that ends sooner, or the record is taken out. -/
def releases (lease : Lease) (id : String) (w : World) : Incident → Bool
  | happens (.ask worker deed) =>
    deed.judged w.ledger && (worker.holder = lease.holder
      && (Entry.givesUp ⟨w, worker, deed⟩ id
        || (deed = .lease id && (worker.leaseAt w.now).expiry < lease.expiry)))
  | happens (.clock _) => false
  | erases other => other = id

end Incident

/-- The world after some incidents. -/
def World.along (w : World) (incidents : List Incident) : World :=
  incidents.foldl Incident.run w

/-- Whether, all along some incidents, a lease on the record of an id has not run out and is not
released. -/
def Lease.lasts (lease : Lease) (id : String) (w : World) : List Incident → Bool
  | [] => w.now < lease.expiry
  | incident :: incidents =>
    w.now < lease.expiry && !incident.releases lease id w
      && lease.lasts id (incident.run w) incidents

/-- On the record of an id is a lease of the same worker that ends no sooner. -/
def Lease.Holds (lease : Lease) (id : String) (w : World) : Prop :=
  ∃ actual, w.ledger.lease? id = some actual ∧ actual.holder = lease.holder
    ∧ lease.expiry ≤ actual.expiry

namespace Lease

variable {lease : Lease} {id : String} {w w' : World}

theorem Holds.congr (hw : lease.Holds id w) (hsame : w'.ledger.find? id = w.ledger.find? id) :
    lease.Holds id w' := by
  obtain ⟨actual, hactual, hrest⟩ := hw
  exact ⟨actual, (Ledger.lease?_congr hsame).trans hactual, hrest⟩

/-- Before the lease runs out, the one on the record is live. -/
theorem Holds.live (hw : lease.Holds id w) (hnow : w.now < lease.expiry) :
    ∃ actual, w.ledger.lease? id = some actual ∧ actual.holder = lease.holder
      ∧ ¬ actual.expiry ≤ w.now := by
  obtain ⟨actual, hactual, hholder, hexpiry⟩ := hw
  refine ⟨actual, hactual, hholder, ?_⟩
  rw [Instant.lt_def] at hnow
  rw [Instant.le_def] at hexpiry ⊢
  omega

/-- A record that is leased is in no batch, whoever asks. -/
theorem Holds.not_mem_batch (hw : lease.Holds id w) (hnow : w.now < lease.expiry) {h : Handle}
    {max : Nat} {criteria : List Criterion} {batch : List Negotiation} {l : Ledger}
    (hok : w.ledger.nextNotLeased h w.now max criteria = .ok (batch, l)) :
    ∀ m ∈ batch, m.id ≠ id := by
  intro m hm hid
  subst hid
  obtain ⟨actual, hactual, _, hlive⟩ := hw.live hnow
  obtain ⟨_, _, hfree⟩ := Ledger.nextNotLeased_eq_ok hok
  obtain ⟨n, hn, hisFree, _, _⟩ := hfree m hm
  rw [Ledger.not_isFree_of_lease? hactual hlive hn] at hisFree
  cases hisFree

/-- What its own worker asks leaves the lease in place unless it is released. -/
theorem Holds.ask_own (hw : lease.Holds id w) (hnow : w.now < lease.expiry) {worker : Handle}
    {deed : Deed} (hworker : worker.holder = lease.holder) (hjudged : deed.judged w.ledger = true)
    (hkept : Incident.releases lease id w (.happens (.ask worker deed)) = false) :
    lease.Holds id (deed.run worker w).2 := by
  have hout := Entry.outcome ⟨w, worker, deed⟩
  simp only [Incident.releases, hjudged, decide_eq_true hworker, Bool.true_and,
    Bool.or_eq_false_iff] at hkept
  obtain ⟨hgives, htakes⟩ := hkept
  unfold Entry.givesUp at hgives
  show lease.Holds id (Entry.mk w worker deed).after
  generalize (Entry.mk w worker deed).answer = answer at hout hgives
  generalize (Entry.mk w worker deed).after = w' at hout ⊢
  cases hout with
  | refused err => exact hw
  | taken max criteria batch l hl =>
    -- The record is not in the batch, for it is leased.
    have hbatch := hw.not_mem_batch hnow hl
    obtain ⟨rfl, _, _⟩ := Ledger.nextNotLeased_eq_ok hl
    refine hw.congr ?_
    rw [World.ledger_withLedger, Ledger.find?_leaseEach, if_neg]
    rw [List.mem_map]
    intro hin
    obtain ⟨m, hm, hid⟩ := hin
    exact hbatch m hm hid
  | leased other n l hl =>
    obtain ⟨_, ⟨stored, hstored, _⟩, rfl⟩ := Ledger.findAndLease_eq_ok hl
    by_cases hid : id = other
    · subst hid
      -- The new lease ends no sooner.
      refine ⟨worker.leaseAt w.now, ?_, hworker, ?_⟩
      · refine Ledger.lease?_eq_some (n := stored.withLease (some (worker.leaseAt w.now))) ?_ rfl
        rw [World.ledger_withLedger, Ledger.find?_setLease, if_pos rfl, hstored]
        rfl
      · rw [decide_eq_true rfl, Bool.true_and, decide_eq_false_iff_not, Instant.lt_def] at htakes
        rw [Instant.le_def]
        omega
    · refine hw.congr ?_
      rw [World.ledger_withLedger, Ledger.find?_setLease, if_neg hid]
  | saved n l hl =>
    obtain ⟨_, rfl⟩ := Ledger.save_eq_ok hl
    refine hw.congr ?_
    rw [World.ledger_withLedger, Ledger.find?_put]
    exact if_neg (of_decide_eq_false hgives)
  | freed other l hl =>
    obtain ⟨_, rfl⟩ := Ledger.breakLease_eq_ok hl
    have hid : other ≠ id := of_decide_eq_false hgives
    refine hw.congr ?_
    rw [World.ledger_withLedger, Ledger.find?_setLease, if_neg hid.symm]

/-- An incident that does not release a lease leaves it in place. -/
theorem Holds.run (hw : lease.Holds id w) (hnow : w.now < lease.expiry) {incident : Incident}
    (hkept : incident.releases lease id w = false) : lease.Holds id (incident.run w) := by
  cases incident with
  | erases other =>
    have hid : other ≠ id := of_decide_eq_false hkept
    refine hw.congr ?_
    show (w.ledger.erase other).find? id = _
    rw [Ledger.find?_erase, if_neg hid.symm]
  | happens event =>
    cases event with
    | clock now => exact hw
    | ask worker deed =>
      show lease.Holds id (deed.tried worker w).2
      rw [Deed.tried_eq]
      split
      · rename_i hjudged
        by_cases hworker : worker.holder = lease.holder
        · exact hw.ask_own hnow hworker hjudged hkept
        · -- The others are shielded from the record.
          obtain ⟨actual, hactual, hholder, hlive⟩ := hw.live hnow
          refine hw.congr (Deed.run_of_shields deed ⟨actual, hactual, ?_⟩).1
          rw [Lease.shieldsFrom_iff]
          refine ⟨hlive, ?_⟩
          rw [hholder]
          exact fun hsame => hworker hsame.symm
      · exact hw

/-- A lease that has not run out and is not released is in place at the end. -/
theorem Holds.along {incidents : List Incident} (hw : lease.Holds id w)
    (hlasts : lease.lasts id w incidents = true) :
    lease.Holds id (w.along incidents) ∧ (w.along incidents).now < lease.expiry := by
  -- Over the incidents: each leaves the lease in place for the next one.
  induction incidents generalizing w with
  | nil => exact ⟨hw, of_decide_eq_true hlasts⟩
  | cons incident incidents ih =>
    unfold lasts at hlasts
    simp only [Bool.and_eq_true, decide_eq_true_eq, Bool.not_eq_true'] at hlasts
    obtain ⟨⟨hnow, hkept⟩, hrest⟩ := hlasts
    exact ih (hw.run hnow hkept) hrest

end Lease

/-! ## §4. Work. -/

/-- Asking for work.  If a criterion is about a field that is not declared or has an operand of the
wrong shape, the call is refused and nothing changes.  Else it breaks down if a stored lease has no
end, for all of them are judged, and nothing changes either.  Else it hands out the beginning of the
row of all records that are free and meet the criteria, and no later call hands out one of them,
whoever asks, as long as the lease has not run out and is not released. -/
theorem work_handed_out (w : World) (h : Handle) (max : Nat) (criteria : List Criterion) :
    (¬ AreInOrder criteria → ∃ fault,
        (Deed.take max criteria).tried h w = (some (.error (.invalidQuery fault)), w))
      ∧ (AreInOrder criteria → w.ledger.leasesEnd = false →
        (Deed.take max criteria).tried h w = (none, w))
      ∧ (AreInOrder criteria → w.ledger.leasesEnd = true → ∃ batch l,
        (Deed.take max criteria).tried h w = (some (.ok batch), w.withLedger l)
        ∧ HandsOut h w max criteria batch l
        ∧ ∀ n ∈ batch, ∀ incidents : List Incident,
          (h.leaseAt w.now).lasts n.id (w.withLedger l) incidents = true →
          ∀ (other : Handle) (max' : Nat) (criteria' : List Criterion) (batch' : List Negotiation),
            ((Deed.take max' criteria').tried other ((w.withLedger l).along incidents)).1
              = some (.ok batch') → ∀ m ∈ batch', m.id ≠ n.id) := by
  refine ⟨w.tried_take_of_not_areInOrder h max, fun hc hend => ?_, fun hc hends => ?_⟩
  · rw [Deed.tried_eq, World.judged_take_of_areInOrder max hc, hend]
    rfl
  · obtain ⟨batch, l, hrun, hout⟩ := w.run_take_of_areInOrder h max hc
    refine ⟨batch, l, ?_, hout, ?_⟩
    · rw [Deed.tried_eq, World.judged_take_of_areInOrder max hc, hends, hrun]
      rfl
    · intro n hn incidents hlasts other max' criteria' batch' hok
      have hholds : (h.leaseAt w.now).Holds n.id (w.withLedger l) := by
        obtain ⟨row, _, _, hbatch⟩ := hout.beginning
        have hstored := hout.stored n hn
        rw [hbatch] at hn
        obtain ⟨free, _, rfl⟩ := List.mem_map.mp hn
        refine ⟨h.leaseAt w.now, Ledger.lease?_eq_some hstored rfl, rfl, ?_⟩
        exact Int.le_refl _
      obtain ⟨hend, hnow⟩ := hholds.along hlasts
      obtain ⟨l', hl'⟩ := World.ledger_of_tried_take hok
      exact hend.not_mem_batch hnow hl'

/-- A world at second 60: worker "b" has a record leased for another second, a lease on another
record has just run out, one is pending, and one was handled in a leap second. -/
def queueWorld : World :=
  let record (id : String) (ms : Int) : Negotiation :=
    Negotiation.new id .consumer "provider" "http://provider" "dsp" (.ofMillis ms)
  let records := [record "n-5" 2000,
    { record "n-4" 1 with stateTimestamp := ⟨1900000000, true⟩ },
    (record "n-1" 0).withLease (some ⟨"b", default, 61000⟩),
    (record "n-3" 1).withLease (some ⟨"b", default, 60000⟩),
    { record "n-2" 0 with pending := true }]
  ⟨records.foldl Ledger.put Ledger.empty, .ofMillis 60000, .counted, []⟩

/-- What happens next: "b" asks for more, worker "a" leases a record of its own again, and the rest
is taken out. -/
def afterwards : List Incident :=
  [.happens (.ask ⟨"b", 60000⟩ (.take 5 [])), .happens (.clock (.ofMillis 60500)),
   .happens (.ask ⟨"a", 1000⟩ (.lease "n-3")), .happens (.ask ⟨"b", 60000⟩ (.free "n-3")),
   .erases "n-4"]

/-- Worker "a" gets the two that are first, and keeps one of them. -/
theorem work_handed_out_once :
    let a : Handle := ⟨"a", 1000⟩
    AreInOrder [.isNotPending] ∧ queueWorld.ledger.leasesEnd = true ∧ ∃ batch l,
      (Deed.take 2 [.isNotPending]).tried a queueWorld
          = (some (.ok batch), queueWorld.withLedger l)
        ∧ HandsOut a queueWorld 2 [.isNotPending] batch l
        ∧ batch.map (·.id) = ["n-3", "n-4"]
        ∧ (a.leaseAt queueWorld.now).lasts "n-3" (queueWorld.withLedger l) afterwards = true
        ∧ ∀ batch', ((Deed.take 5 []).tried ⟨"b", 60000⟩
            ((queueWorld.withLedger l).along afterwards)).1 = some (.ok batch') →
          ∀ m ∈ batch', m.id ≠ "n-3" := by
  intro a
  have hc : AreInOrder [.isNotPending] := validate_eq_ok_iff_areInOrder.mp rfl
  have hids : ((Deed.take 2 [.isNotPending]).run a queueWorld).1.toOption.map
      (fun batch => batch.map (·.id)) = some ["n-3", "n-4"] := by decide +kernel
  have hlasts : (a.leaseAt queueWorld.now).lasts "n-3"
      ((Deed.take 2 [.isNotPending]).run a queueWorld).2 afterwards = true := by
    decide +kernel
  have hends : queueWorld.ledger.leasesEnd = true := by decide +kernel
  obtain ⟨batch, l, htried, hout, hkept⟩ :=
    (work_handed_out queueWorld a 2 [.isNotPending]).2.2 hc hends
  have hrun : (Deed.take 2 [.isNotPending]).run a queueWorld
      = (.ok batch, queueWorld.withLedger l) := by
    rw [Deed.tried_eq, World.judged_take_of_areInOrder 2 hc, hends] at htried
    obtain ⟨hanswer, hworld⟩ := Prod.ext_iff.mp htried
    exact Prod.ext (Option.some.inj hanswer) hworld
  rw [hrun] at hids hlasts
  have hbatch : batch.map (·.id) = ["n-3", "n-4"] := Option.some.inj hids
  have hin : "n-3" ∈ batch.map (·.id) := by
    rw [hbatch]
    exact List.mem_cons_self
  obtain ⟨n, hn, hid⟩ := List.mem_map.mp hin
  refine ⟨hc, hends, batch, l, htried, hout, hbatch, hlasts, ?_⟩
  rw [← hid] at hlasts ⊢
  exact hkept n hn afterwards hlasts ⟨"b", 60000⟩ 5 []

end Parley
