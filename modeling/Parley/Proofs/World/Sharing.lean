/-
  Parley.Proofs.World.Sharing
  ────────────────────────────────
  **WORKERS THAT SHARE A STORE.**

  Any number of workers ask a store for work, for single records, to save and to
  end leases, in any order, while the clock moves either way.  What came of it is
  kept in a log.

  A live lease is all that protects a record, and it protects it fully
  (`live_lease_shields`): while it lasts no one but its holder sees the record
  handed out, changes it, or touches the lease.  Who tries is told whose the lease
  is, or breaks down if it has no end.

  Once the lease is gone nothing is left of it.  So a worker that comes back late
  with a record it was handed may overwrite what another one saved
  (`overwritten_after_lapse`); but only if it gave its lease up itself or let it
  run out (`saves_between_follow_lapse`).
-/
import Parley.Proofs.Engine.Timely
import Parley.Proofs.Ledger.Shield

namespace Parley

open Parley.Query

/-! ## §1. What workers ask. -/

/-- What a worker asks of a store. -/
inductive Deed where
  | take (max : Nat) (criteria : List Criterion)
  | lease (id : String)
  | save (n : Negotiation)
  | free (id : String)
deriving DecidableEq, Repr

/-- The records that a worker is handed, or why it is refused. -/
abbrev Answer := Except StoreError (List Negotiation)

namespace Deed

/-- Carry out what a worker asks. -/
def perform {M : Type → Type} [Monad M] (a : Access M) (h : Handle) : Deed → M Answer
  | take max criteria => a.nextNotLeased h max criteria
  | lease id => do return (← a.findAndLease h id).map fun n => [n]
  | save n => do return (← a.save h n).map fun _ => []
  | free id => do return (← a.breakLease h id).map fun _ => []

/-- What the worker gets, and the world after. -/
def run (h : Handle) (w : World) (deed : Deed) : Answer × World :=
  deed.perform .direct h w

/-- The same where the deed may break down. -/
def tried (h : Handle) (w : World) (deed : Deed) : Option Answer × World :=
  (deed.perform .strict h).run w

/-- Whether the leases that a deed has to judge have ends. -/
def judged (l : Ledger) : Deed → Bool
  | take _ criteria => match validate criteria with
    | .error _ => true
    | .ok () => l.leasesEnd
  | lease id | free id => l.leaseEnds id
  | save n => l.leaseEnds n.id

/-- Whether a single record is asked for or written, and it is the one of an id. -/
def names (id : String) : Deed → Bool
  | take .. => false
  | lease other | free other => other = id
  | save n => n.id = id

/-- What comes of a deed: it is refused and nothing changes, or the store carries it out. -/
inductive Outcome (h : Handle) (w : World) : Deed → Answer → World → Prop
  | refused (deed : Deed) (err : StoreError) : Outcome h w deed (.error err) w
  | taken (max : Nat) (criteria : List Criterion) (batch : List Negotiation) (l : Ledger)
      (hl : w.ledger.nextNotLeased h w.now max criteria = .ok (batch, l)) :
      Outcome h w (.take max criteria) (.ok batch) (w.withLedger l)
  | leased (id : String) (n : Negotiation) (l : Ledger)
      (hl : w.ledger.findAndLease h w.now id = .ok (n, l)) :
      Outcome h w (.lease id) (.ok [n]) (w.withLedger l)
  | saved (n : Negotiation) (l : Ledger) (hl : w.ledger.save h w.now n = .ok l) :
      Outcome h w (.save n) (.ok []) (w.withLedger l)
  | freed (id : String) (l : Ledger) (hl : w.ledger.breakLease h w.now id = .ok l) :
      Outcome h w (.free id) (.ok []) (w.withLedger l)

variable {h : Handle} {w : World}

theorem run_lease (id : String) : (lease id).run h w
    = ((Access.direct.findAndLease h id w).1.map fun n => [n],
        (Access.direct.findAndLease h id w).2) := rfl

theorem run_save (n : Negotiation) : (save n).run h w
    = ((Access.direct.save h n w).1.map fun _ => [], (Access.direct.save h n w).2) := rfl

theorem run_free (id : String) : (free id).run h w
    = ((Access.direct.breakLease h id w).1.map fun _ => [],
        (Access.direct.breakLease h id w).2) := rfl

/-- A deed breaks down exactly where it has to judge a lease without an end, and then changes
nothing. -/
theorem tried_eq (h : Handle) (w : World) (deed : Deed) :
    deed.tried h w = if deed.judged w.ledger then (some (deed.run h w).1, (deed.run h w).2)
      else (none, w) := by
  cases deed with
  | take max criteria =>
    cases hvalid : validate criteria with
    | error e =>
      simp only [tried, run, perform, judged, Access.nextNotLeased, hvalid, if_true]
      rfl
    | ok _ =>
      simp only [tried, run, perform, judged, Access.nextNotLeased, hvalid]
      exact Access.strict_attempt _ _ w
  | lease id => exact Access.strict_attempt_map _ _ _ w
  | save n => exact Access.strict_attempt_map _ _ _ w
  | free id => exact Access.strict_attempt_map _ _ _ w

theorem run_outcome (h : Handle) (w : World) (deed : Deed) :
    Outcome h w deed (deed.run h w).1 (deed.run h w).2 := by
  cases deed with
  | take max criteria =>
    simp only [run, perform, Access.nextNotLeased]
    cases validate criteria with
    | error e => exact .refused _ _
    | ok _ =>
      simp only
      rw [Access.direct_attempt]
      cases hl : w.ledger.nextNotLeased h w.now max criteria with
      | error e => exact .refused _ _
      | ok result => exact .taken max criteria result.1 result.2 hl
  | lease id =>
    simp only [run_lease, Access.findAndLease, Access.direct_attempt]
    cases hl : w.ledger.findAndLease h w.now id with
    | error e => exact .refused _ _
    | ok result => exact .leased id result.1 result.2 hl
  | save n =>
    simp only [run_save, Access.save, Access.direct_attempt]
    cases hl : w.ledger.save h w.now n with
    | error e => exact .refused _ _
    | ok l => exact .saved n l hl
  | free id =>
    simp only [run_free, Access.breakLease, Access.direct_attempt]
    cases hl : w.ledger.breakLease h w.now id with
    | error e => exact .refused _ _
    | ok l => exact .freed id l hl

/-- A worker that a live lease keeps away is told whose it is. -/
theorem run_of_lease? {deed : Deed} {id : String} {lease : Lease} (hdeed : deed.names id = true)
    (hlease : w.ledger.lease? id = some lease)
    (hlive : lease.shieldsFrom h.holder w.now = true) :
    deed.run h w = (.error (.leaseConflict id lease.holder), w) := by
  cases deed with
  | take max criteria => cases hdeed
  | lease other =>
    obtain rfl : other = id := of_decide_eq_true hdeed
    simp only [run_lease, Access.findAndLease, Access.direct_attempt,
      Ledger.findAndLease_of_lease? hlease hlive]
    rfl
  | save n =>
    obtain rfl : n.id = id := of_decide_eq_true hdeed
    simp only [run_save, Access.save, Access.direct_attempt, Ledger.save_of_lease? hlease hlive]
    rfl
  | free other =>
    obtain rfl : other = id := of_decide_eq_true hdeed
    simp only [run_free, Access.breakLease, Access.direct_attempt,
      Ledger.breakLease_of_lease? hlease hlive]
    rfl

/-- What is asked about one record leaves the others as they are. -/
theorem find?_of_not_names {deed : Deed} {id : String} (hdeed : deed.names id = false)
    (htake : ∀ max criteria, deed ≠ .take max criteria) :
    (deed.run h w).2.ledger.find? id = w.ledger.find? id := by
  have hout := run_outcome h w deed
  generalize (deed.run h w).1 = answer, (deed.run h w).2 = w' at hout ⊢
  cases hout with
  | refused err => rfl
  | taken max criteria batch l hl => exact absurd rfl (htake max criteria)
  | leased other n l hl =>
    obtain ⟨_, _, rfl⟩ := Ledger.findAndLease_eq_ok hl
    rw [World.ledger_withLedger, Ledger.find?_setLease, if_neg]
    exact (of_decide_eq_false hdeed).imp Eq.symm
  | saved n l hl =>
    obtain ⟨_, rfl⟩ := Ledger.save_eq_ok hl
    rw [World.ledger_withLedger, Ledger.find?_put, if_neg]
    exact of_decide_eq_false hdeed
  | freed other l hl =>
    obtain ⟨_, rfl⟩ := Ledger.breakLease_eq_ok hl
    rw [World.ledger_withLedger, Ledger.find?_setLease, if_neg]
    exact (of_decide_eq_false hdeed).imp Eq.symm

/-- What a worker does about a record that is shielded from it: nothing. -/
theorem run_of_shields (deed : Deed) {id : String}
    (hs : w.ledger.Shields id h.holder w.now) :
    (deed.run h w).2.ledger.find? id = w.ledger.find? id
      ∧ ∀ batch, (deed.run h w).1 = .ok batch → ∀ m ∈ batch, m.id ≠ id := by
  obtain ⟨lease, hlease, hlive⟩ := hs
  cases hdeed : deed.names id with
  | true =>
    rw [run_of_lease? hdeed hlease hlive]
    exact ⟨rfl, fun batch hok => nomatch hok⟩
  | false =>
    have hout := run_outcome h w deed
    generalize hanswer : (deed.run h w).1 = answer, hworld : (deed.run h w).2 = w' at hout ⊢
    cases hout with
    | refused err => exact ⟨rfl, fun batch hok => nomatch hok⟩
    | taken max criteria batch l hl =>
      obtain ⟨hbatch, hledger⟩ := Ledger.nextNotLeased_of_shields ⟨lease, hlease, hlive⟩ hl
      refine ⟨hledger, ?_⟩
      rintro other ⟨⟩
      exact hbatch
    | leased other n l hl =>
      refine ⟨hworld ▸ find?_of_not_names hdeed nofun, ?_⟩
      rintro batch ⟨⟩ m hm
      rw [List.mem_singleton] at hm
      obtain ⟨_, ⟨stored, hstored, rfl⟩, _⟩ := Ledger.findAndLease_eq_ok hl
      rw [hm]
      show stored.id ≠ id
      rw [Ledger.id_of_find? hstored]
      exact of_decide_eq_false hdeed
    | saved n l hl =>
      refine ⟨hworld ▸ find?_of_not_names hdeed nofun, ?_⟩
      rintro batch ⟨⟩ m hm
      cases hm
    | freed other l hl =>
      refine ⟨hworld ▸ find?_of_not_names hdeed nofun, ?_⟩
      rintro batch ⟨⟩ m hm
      cases hm

end Deed

/-! ## §2. Runs. -/

/-- Something that happens to a store: a worker asks for something, or the clock is set. -/
inductive Happening where
  | ask (h : Handle) (deed : Deed)
  | clock (now : Instant)
deriving DecidableEq, Repr

/-- An entry of the log: what a worker asked, and the world that it asked in. -/
structure Entry where
  world : World
  worker : Handle
  deed : Deed

namespace Entry

/-- What the worker got. -/
def answer (entry : Entry) : Answer :=
  (entry.deed.run entry.worker entry.world).1

/-- What the worker got, unless the deed broke down. -/
def tried (entry : Entry) : Option Answer :=
  (entry.deed.tried entry.worker entry.world).1

/-- The world after the deed. -/
def after (entry : Entry) : World :=
  (entry.deed.run entry.worker entry.world).2

theorem outcome (entry : Entry) :
    Deed.Outcome entry.worker entry.world entry.deed entry.answer entry.after :=
  Deed.run_outcome entry.worker entry.world entry.deed

/-- Whether the worker was handed the record of an id. -/
def obtains (entry : Entry) (id : String) : Bool :=
  match entry.answer with
  | .ok batch => batch.any (·.id = id)
  | .error _ => false

/-- Whether the record of an id was saved. -/
def saves (entry : Entry) (id : String) : Bool :=
  match entry.deed, entry.answer with
  | .save n, .ok _ => n.id = id
  | _, _ => false

/-- Whether the worker gave up whatever lease there was on the record of an id: it saved it, or
ended the lease. -/
def givesUp (entry : Entry) (id : String) : Bool :=
  match entry.deed, entry.answer with
  | .save n, .ok _ => n.id = id
  | .free other, .ok _ => other = id
  | _, _ => false

end Entry

namespace World

/-- The world after some events. -/
def after (w : World) : List Happening → World
  | [] => w
  | .ask h deed :: events => (deed.run h w).2.after events
  | .clock now :: events => { w with now := now }.after events

/-- The log of some events. -/
def log (w : World) : List Happening → List Entry
  | [] => []
  | .ask h deed :: events => ⟨w, h, deed⟩ :: (deed.run h w).2.log events
  | .clock now :: events => { w with now := now }.log events

/-- The world after some events, of which those that break down change nothing. -/
def afterTries (w : World) : List Happening → World
  | [] => w
  | .ask h deed :: events => (deed.tried h w).2.afterTries events
  | .clock now :: events => { w with now := now }.afterTries events

/-- The log of such events. -/
def tries (w : World) : List Happening → List Entry
  | [] => []
  | .ask h deed :: events => ⟨w, h, deed⟩ :: (deed.tried h w).2.tries events
  | .clock now :: events => { w with now := now }.tries events

/-- What follows an entry in the log is the log of the world that it led to, at some time. -/
theorem log_split {w : World} {events : List Happening} {before rest : List Entry} {entry : Entry}
    (h : w.log events = before ++ entry :: rest) :
    ∃ later : List Happening, rest = entry.after.log later := by
  -- Over the events: the entry is the first one, or comes from a later event.
  induction events generalizing w before with
  | nil => simp [log] at h
  | cons event events ih =>
    cases event with
    | ask worker deed =>
      cases before with
      | nil =>
        simp only [log, List.nil_append, List.cons.injEq] at h
        obtain ⟨rfl, rfl⟩ := h
        exact ⟨events, rfl⟩
      | cons first before =>
        simp only [log, List.cons_append, List.cons.injEq] at h
        exact ih h.2
    | clock now => exact ih h

end World

/-! ## §3. A live lease. -/

namespace Deed

variable {h : Handle} {w : World}

/-- What is asked about one record judges the lease on it. -/
theorem judged_of_names {deed : Deed} {id : String} (hdeed : deed.names id = true) {lease : Lease}
    (hlease : w.ledger.lease? id = some lease) : deed.judged w.ledger = lease.hasEnd := by
  have hends : w.ledger.leaseEnds id = lease.hasEnd := by
    obtain ⟨n, hn, hlease⟩ := Ledger.find?_of_lease? hlease
    unfold Ledger.leaseEnds
    rw [hn]
    show n.lease.all (·.hasEnd) = _
    rw [hlease]
    rfl
  cases deed with
  | take max criteria => cases hdeed
  | lease other | free other | save n =>
    have hid := of_decide_eq_true hdeed
    subst hid
    exact hends

end Deed

/-- While a worker's lease on a record is live, what others ask leaves the record and its lease as
they are, and hands the record to no one.  What is about that record is refused in the holder's name;
if the lease has no end, it breaks down. -/
theorem live_lease_shields (w : World) (id : String) (n : Negotiation) (lease : Lease)
    (hn : w.ledger.find? id = some n) (hlease : n.lease = some lease) (events : List Happening)
    (hothers : ∀ entry ∈ w.tries events, entry.worker.holder ≠ lease.holder)
    (hlive : ∀ entry ∈ w.tries events, entry.world.now < lease.expiry) :
    (w.afterTries events).ledger.find? id = some n
      ∧ ∀ entry ∈ w.tries events,
        (entry.deed.names id = true → entry.tried
          = if lease.hasEnd then some (.error (.leaseConflict id lease.holder)) else none)
        ∧ ∀ batch, entry.tried = some (.ok batch) → ∀ m ∈ batch, m.id ≠ id := by
  -- Over the events; the record stays, so its lease is there for the next event.
  induction events generalizing w with
  | nil => exact ⟨hn, fun entry hentry => nomatch hentry⟩
  | cons event events ih =>
    cases event with
    | clock now => exact ih { w with now := now } hn hothers hlive
    | ask worker deed =>
      have hstored := Ledger.lease?_eq_some hn hlease
      have hkept : lease.shieldsFrom worker.holder w.now = true := by
        rw [Lease.shieldsFrom_iff]
        refine ⟨?_, (hothers ⟨w, worker, deed⟩ List.mem_cons_self).symm⟩
        have hnow := hlive ⟨w, worker, deed⟩ List.mem_cons_self
        rw [Instant.lt_def] at hnow
        rw [Instant.le_def]
        exact Int.not_le.mpr hnow
      obtain ⟨hstays, hbatch⟩ := Deed.run_of_shields deed ⟨lease, hstored, hkept⟩
      have htried := Deed.tried_eq worker w deed
      have hkeeps : (deed.tried worker w).2.ledger.find? id = some n := by
        rw [htried]
        split
        · exact hstays.trans hn
        · exact hn
      obtain ⟨hafter, hentries⟩ := ih (deed.tried worker w).2 hkeeps
        (fun entry hentry => hothers entry (List.mem_cons_of_mem _ hentry))
        (fun entry hentry => hlive entry (List.mem_cons_of_mem _ hentry))
      refine ⟨hafter, fun entry hentry => ?_⟩
      rcases List.mem_cons.mp hentry with rfl | hlater
      · refine ⟨fun hnames => ?_, fun batch hanswer => ?_⟩
        · have hrun := Deed.run_of_lease? hnames hstored hkept
          show (deed.tried worker w).1 = _
          rw [htried, Deed.judged_of_names hnames hstored, hrun]
          split <;> rfl
        · have hanswer' : (deed.tried worker w).1 = some (.ok batch) := hanswer
          rw [htried] at hanswer'
          split at hanswer'
          · exact hbatch batch (Option.some.inj hanswer')
          · cases hanswer'
      · exact hentries entry hlater

/-- A record that worker "a" has leased for some milliseconds from the epoch on. -/
def heldRecord (duration : Int) : Negotiation :=
  (Negotiation.new "n-1" .consumer "provider" "http://provider" "dsp" default).withLease
    (some ⟨"a", default, duration⟩)

/-- What worker "b" tries, up to the last nanosecond of a minute and with the clock set back. -/
def intrusions : List Happening :=
  let b : Handle := ⟨"b", 60000⟩
  [.ask b (.take 5 []), .clock ⟨59999999999, false⟩, .ask b (.lease "n-1"),
   .ask b (.save ((heldRecord 60000).withErrorDetail "b")), .clock ⟨-1, false⟩, .ask b (.free "n-1")]

/-- A store with such a record. -/
def heldWorld (duration : Int) : World :=
  ⟨Ledger.empty.put (heldRecord duration), default, .counted, []⟩

/-- All of it fails: the lease of a minute is told of, and that of three hundred thousand years breaks
down who comes upon it. -/
theorem intrusions_fail :
    ((heldWorld 60000).afterTries intrusions).ledger.find? "n-1" = some (heldRecord 60000)
      ∧ ((heldWorld 60000).tries intrusions).length = 4
      ∧ (∀ entry ∈ (heldWorld 60000).tries intrusions,
        (entry.deed.names "n-1" = true → entry.tried = some (.error (.leaseConflict "n-1" "a")))
        ∧ ∀ batch, entry.tried = some (.ok batch) → ∀ m ∈ batch, m.id ≠ "n-1")
      ∧ ((heldWorld 9000000000000000).tries intrusions).length = 4
      ∧ ∀ entry ∈ (heldWorld 9000000000000000).tries intrusions,
        entry.deed.names "n-1" = true → entry.tried = none := by
  have hn (duration : Int) :
      (heldWorld duration).ledger.find? "n-1" = some (heldRecord duration) := by
    show (Ledger.empty.put (heldRecord duration)).find? "n-1" = _
    rw [Ledger.find?_put]
    rfl
  obtain ⟨hafter, hentries⟩ := live_lease_shields (heldWorld 60000) "n-1" (heldRecord 60000)
    ⟨"a", default, 60000⟩ (hn _) rfl intrusions (by decide +kernel) (by decide +kernel)
  obtain ⟨_, hbroken⟩ := live_lease_shields (heldWorld 9000000000000000) "n-1"
    (heldRecord 9000000000000000) ⟨"a", default, 9000000000000000⟩ (hn _) rfl intrusions
    (by decide +kernel) (by decide +kernel)
  exact ⟨hafter, rfl, hentries, rfl, fun entry hentry => (hbroken entry hentry).1⟩

/-! ## §4. A lease that is gone. -/

namespace Entry

variable {entry : Entry} {id holder : String}

/-- Whether another worker than a lease's holder finds that the lease on the record of an id has run
out. -/
def FindsLapsed (entry : Entry) (id holder : String) : Prop :=
  entry.worker.holder ≠ holder ∧ entry.world.ledger.IsLeasedBy id holder
    ∧ entry.world.ledger.IsLapsed id entry.world.now

/-- Who is handed a record has it leased from then on. -/
theorem lease?_of_obtains (h : entry.obtains id = true) :
    entry.after.ledger.lease? id = some (entry.worker.leaseAt entry.world.now) := by
  have hout := entry.outcome
  unfold obtains at h
  generalize entry.answer = answer, entry.after = w', entry.deed = deed at hout h ⊢
  cases hout with
  | refused err => cases h
  | taken max criteria batch l hl =>
    obtain ⟨rfl, _, hfree⟩ := Ledger.nextNotLeased_eq_ok hl
    obtain ⟨m, hm, hid⟩ := List.any_eq_true.mp h
    obtain rfl : m.id = id := of_decide_eq_true hid
    obtain ⟨stored, hstored, _, _⟩ := hfree m hm
    have hin : m.id ∈ batch.map (·.id) := List.mem_map_of_mem hm
    exact Ledger.lease?_leaseEach hstored hin _
  | leased other n l hl =>
    obtain ⟨_, ⟨stored, hstored, rfl⟩, rfl⟩ := Ledger.findAndLease_eq_ok hl
    have hid : stored.id = id := by simpa [Negotiation.withLease] using h
    rw [Ledger.id_of_find? hstored] at hid
    subst hid
    exact Ledger.lease?_setLease hstored _
  | saved n l hl => cases h
  | freed other l hl => cases h

theorem isLeasedBy_of_obtains (h : entry.obtains id = true) :
    entry.after.ledger.IsLeasedBy id entry.worker.holder :=
  ⟨_, lease?_of_obtains h, rfl⟩

/-- A deed leaves a stored record as it is, leases it to the worker, or gives its lease up. -/
theorem find?_after (hstored : (entry.world.ledger.find? id).isSome = true) :
    entry.after.ledger.find? id = entry.world.ledger.find? id
      ∨ entry.after.ledger.IsLeasedBy id entry.worker.holder ∨ entry.givesUp id = true := by
  obtain ⟨n, hn⟩ := Option.isSome_iff_exists.mp hstored
  have hout := entry.outcome
  unfold givesUp
  generalize entry.answer = answer, entry.after = w', entry.deed = deed at hout ⊢
  cases hout with
  | refused err => exact .inl rfl
  | taken max criteria batch l hl =>
    obtain ⟨rfl, _, _⟩ := Ledger.nextNotLeased_eq_ok hl
    by_cases hin : id ∈ batch.map (·.id)
    · exact .inr (.inl (Ledger.isLeasedBy_leaseEach hn hin _ _))
    · rw [World.ledger_withLedger, Ledger.find?_leaseEach, if_neg hin]
      exact .inl rfl
  | leased other m l hl =>
    obtain ⟨_, _, rfl⟩ := Ledger.findAndLease_eq_ok hl
    by_cases hid : id = other
    · subst hid
      exact .inr (.inl (Ledger.isLeasedBy_setLease hn _ _))
    · rw [World.ledger_withLedger, Ledger.find?_setLease, if_neg hid]
      exact .inl rfl
  | saved m l hl =>
    obtain ⟨_, rfl⟩ := Ledger.save_eq_ok hl
    by_cases hid : m.id = id
    · exact .inr (.inr (decide_eq_true hid))
    · refine .inl ?_
      rw [World.ledger_withLedger, Ledger.find?_put]
      exact if_neg hid
  | freed other l hl =>
    obtain ⟨_, rfl⟩ := Ledger.breakLease_eq_ok hl
    by_cases hid : other = id
    · exact .inr (.inr (decide_eq_true hid))
    · refine .inl ?_
      rw [World.ledger_withLedger, Ledger.find?_setLease, if_neg (Ne.symm hid)]

/-- A worker's lease stays until the worker gives it up or another one finds that it has run out. -/
theorem isLeasedBy_after (h : entry.world.ledger.IsLeasedBy id holder)
    (hown : ¬ (entry.worker.holder = holder ∧ entry.givesUp id = true))
    (hothers : ¬ entry.FindsLapsed id holder) : entry.after.ledger.IsLeasedBy id holder := by
  by_cases hworker : entry.worker.holder = holder
  · obtain ⟨n, hn⟩ := h.stored
    rcases entry.find?_after (Option.isSome_of_eq_some hn) with hsame | hleased | hgives
    · exact h.congr hsame
    · rw [← hworker]
      exact hleased
    · exact absurd ⟨hworker, hgives⟩ hown
  -- For the others the lease is live, so they change nothing.
  · have hlive : ¬ entry.world.ledger.IsLapsed id entry.world.now := fun hlapsed =>
      hothers ⟨hworker, h, hlapsed⟩
    exact h.congr (Deed.run_of_shields entry.deed (h.shields hlive hworker)).1

/-- A record that another one has leased is saved only if the lease has run out. -/
theorem findsLapsed_of_saves (h : entry.world.ledger.IsLeasedBy id holder)
    (hworker : entry.worker.holder ≠ holder) (hsaves : entry.saves id = true) :
    entry.FindsLapsed id holder := by
  refine ⟨hworker, h, Classical.byContradiction fun hlive => ?_⟩
  obtain ⟨lease, hlease, hshield⟩ := h.shields hlive hworker
  have hnames : entry.deed.names id = true := by
    unfold saves at hsaves
    split at hsaves
    · rename_i n _ hdeed _
      rw [hdeed]
      exact hsaves
    · cases hsaves
  have hrun := Deed.run_of_lease? hnames hlease hshield
  unfold saves answer at hsaves
  rw [hrun] at hsaves
  cases hdeed : entry.deed <;> rw [hdeed] at hsaves <;> cases hsaves

end Entry

/-- Another worker saves a leased record only after the lease was given up or found to have run
out. -/
theorem World.lapse_before_save {w : World} {events : List Happening} {id holder : String}
    (h : w.ledger.IsLeasedBy id holder) {before rest : List Entry} {entry : Entry}
    (hlog : w.log events = before ++ entry :: rest) (hworker : entry.worker.holder ≠ holder)
    (hsaves : entry.saves id = true) :
    ∃ earlier ∈ before ++ [entry],
      (earlier.worker.holder = holder ∧ earlier.givesUp id = true)
        ∨ earlier.FindsLapsed id holder := by
  -- Over the events: the lease is gone after the first one, or the rest goes on with it.
  induction events generalizing w before with
  | nil => simp [log] at hlog
  | cons event events ih =>
    cases event with
    | clock now => exact ih (w := { w with now := now }) h hlog
    | ask worker deed =>
      cases before with
      | nil =>
        simp only [log, List.nil_append, List.cons.injEq] at hlog
        obtain ⟨rfl, rfl⟩ := hlog
        exact ⟨_, List.mem_singleton_self _, .inr (Entry.findsLapsed_of_saves h hworker hsaves)⟩
      | cons first before =>
        simp only [log, List.cons_append, List.cons.injEq] at hlog
        obtain ⟨rfl, hrest⟩ := hlog
        by_cases hown : worker.holder = holder ∧ Entry.givesUp ⟨w, worker, deed⟩ id = true
        · exact ⟨_, List.mem_cons_self, .inl hown⟩
        · by_cases hlapsed : Entry.FindsLapsed ⟨w, worker, deed⟩ id holder
          · exact ⟨_, List.mem_cons_self, .inr hlapsed⟩
          · have hkept : (Entry.mk w worker deed).after.ledger.IsLeasedBy id holder :=
              Entry.isLeasedBy_after h hown hlapsed
            obtain ⟨earlier, hearlier, hreason⟩ := ih hkept hrest
            exact ⟨earlier, List.mem_cons_of_mem _ hearlier, hreason⟩

/-- Let a worker be handed a record and want to save it later.  It may do so unless at that moment
another one's live lease is on the record, and nothing else counts; and if another one saved the
record in between, then by that time the worker had given up its lease itself, or another one had
found that it had run out. -/
theorem saves_between_follow_lapse (w : World) (events : List Happening)
    (before between rest : List Entry) (first last : Entry)
    (hlog : w.log events = before ++ first :: (between ++ last :: rest)) (id : String)
    (hfirst : first.obtains id = true) (n : Negotiation) (hlast : last.deed = .save n)
    (hid : n.id = id) (hworker : last.worker.holder = first.worker.holder) :
    (last.saves id = true
        ↔ ¬ last.world.ledger.Shields id first.worker.holder last.world.now)
      ∧ ∀ earlier other later, between = earlier ++ other :: later →
        other.worker.holder ≠ first.worker.holder → other.saves id = true →
        ∃ entry ∈ earlier ++ [other],
          (entry.worker.holder = first.worker.holder ∧ entry.givesUp id = true)
            ∨ entry.FindsLapsed id first.worker.holder := by
  constructor
  · have hanswer : last.answer
        = ((Access.direct.save last.worker n last.world).1.map fun _ => []) := by
      unfold Entry.answer
      rw [hlast]
      rfl
    rw [← hworker, ← hid]
    unfold Entry.saves
    rw [hlast, hanswer, Access.save, Access.direct_attempt]
    constructor
    · rintro hsaved ⟨lease, hlease, hlive⟩
      rw [Ledger.save_of_lease? hlease hlive] at hsaved
      cases hsaved
    · intro hfree
      rw [Ledger.save_of_not_shields hfree]
      exact decide_eq_true rfl
  · intro earlier other later hbetween hother hsaves
    obtain ⟨events', hrest⟩ := World.log_split hlog
    rw [hbetween, List.append_assoc, List.cons_append] at hrest
    exact World.lapse_before_save (Entry.isLeasedBy_of_obtains hfirst) hrest.symm hother hsaves

/-- A world with one record, which is not leased. -/
def idleWorld : World :=
  ⟨Ledger.empty.put ((heldRecord 0).withLease none), default, .counted, []⟩

/-- Worker "a" takes a record, lets the lease run out, and saves the record after worker "b" did. -/
def comingLate : List Happening :=
  let a : Handle := ⟨"a", 60000⟩
  let b : Handle := ⟨"b", 60000⟩
  [.ask a (.take 1 []), .clock ⟨60000000000, false⟩, .ask b (.lease "n-1"),
   .ask b (.save ((heldRecord 0).withErrorDetail "b")),
   .ask a (.save ((heldRecord 0).withErrorDetail "a"))]

/-- What "b" saved in between is overwritten. -/
theorem overwritten_after_lapse :
    ∃ first taken other last : Entry, idleWorld.log comingLate = [first, taken, other, last]
      ∧ first.obtains "n-1" = true ∧ last.worker.holder = first.worker.holder
      ∧ last.saves "n-1" = true
      ∧ other.worker.holder ≠ first.worker.holder ∧ other.saves "n-1" = true
      ∧ (other.after.ledger.find? "n-1").bind (·.errorDetail) = some "b"
      ∧ (last.after.ledger.find? "n-1").bind (·.errorDetail) = some "a" := by
  refine ⟨_, _, _, _, rfl, ?_⟩
  decide +kernel

/-- It was the end of the lease that let "b" in. -/
theorem lapse_before_overwriting :
    ∃ first taken other last : Entry,
      idleWorld.log comingLate = [] ++ first :: ([taken, other] ++ last :: [])
      ∧ first.obtains "n-1" = true
      ∧ last.deed = .save ((heldRecord 0).withErrorDetail "a")
      ∧ last.worker.holder = first.worker.holder
      ∧ (last.saves "n-1" = true
        ↔ ¬ last.world.ledger.Shields "n-1" first.worker.holder last.world.now)
      ∧ ∃ entry ∈ [taken, other],
        (entry.worker.holder = first.worker.holder ∧ entry.givesUp "n-1" = true)
          ∨ entry.FindsLapsed "n-1" first.worker.holder := by
  obtain ⟨first, taken, other, last, hlog, hfirst, hdeed, hworker, hother, hsaves⟩ :
      ∃ first taken other last : Entry,
        idleWorld.log comingLate = [] ++ first :: ([taken, other] ++ last :: [])
        ∧ first.obtains "n-1" = true
        ∧ last.deed = .save ((heldRecord 0).withErrorDetail "a")
        ∧ last.worker.holder = first.worker.holder
        ∧ other.worker.holder ≠ first.worker.holder ∧ other.saves "n-1" = true := by
    refine ⟨_, _, _, _, rfl, ?_⟩
    decide +kernel
  obtain ⟨hexactly, hlapse⟩ := saves_between_follow_lapse idleWorld comingLate [] [taken, other] []
    first last hlog "n-1" hfirst _ hdeed rfl hworker
  exact ⟨first, taken, other, last, hlog, hfirst, hdeed, hworker, hexactly,
    hlapse [taken] other [] rfl hother hsaves⟩

end Parley
