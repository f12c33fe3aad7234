/-
  Parley.Proofs.Ledger.Shield
  ────────────────────────────────
  **A STORE THAT SEVERAL WORKERS USE.**

  The lease that is stored on a record keeps other workers away while it is live
  (`Ledger.Shields`).  Every operation of the store tests that one lease and
  nothing else:

      save, findAndLease, breakLease   refused with the holder's name if the
                                       record is shielded, carried out if not
      nextNotLeased                    hands out records without a live lease
                                       only, whoever holds it

  An operation that is carried out changes the record that it is about, and no
  other.
-/
import Parley.Store.Basic

namespace Parley

open Parley.Query

/-! ## §1. Tests that may fail. -/

namespace Query

/-- What a test lets through is part of what was tested. -/
theorem filterAll_sublist {test : α → Except ε Bool} {xs kept : List α}
    (h : filterAll test xs = .ok kept) : kept.Sublist xs := by
  induction xs generalizing kept with
  | nil =>
    cases h
    exact List.Sublist.refl _
  | cons x xs ih =>
    unfold filterAll at h
    split at h
    · cases h
    · split at h
      · cases h
      · rename_i hrest
        cases h
        have hsub := ih hrest
        split
        · exact hsub.cons_cons x
        · exact hsub.cons x

/-- What a test lets through has passed it. -/
theorem of_mem_filterAll {test : α → Except ε Bool} {xs kept : List α}
    (h : filterAll test xs = .ok kept) {x : α} (hx : x ∈ kept) : test x = .ok true := by
  induction xs generalizing kept with
  | nil =>
    cases h
    exact absurd hx List.not_mem_nil
  | cons y ys ih =>
    unfold filterAll at h
    cases hy : test y with
    | error err =>
      rw [hy] at h
      cases h
    | ok pass =>
      cases hrest : filterAll test ys with
      | error err =>
        rw [hy, hrest] at h
        cases h
      | ok rest =>
        rw [hy, hrest] at h
        cases pass with
        | false =>
          cases h
          exact ih hrest hx
        | true =>
          cases h
          rcases List.mem_cons.mp hx with rfl | hin
          · exact hy
          · exact ih hrest hin

end Query

/-! ## §2. The stored lease. -/

namespace Ledger

/-- The lease on the record of an id. -/
def lease? (l : Ledger) (id : String) : Option Lease :=
  (l.find? id).bind (·.lease)

/-- A live lease of another one keeps a worker from the record of an id. -/
def Shields (l : Ledger) (id holder : String) (now : Instant) : Prop :=
  ∃ lease, l.lease? id = some lease ∧ lease.shieldsFrom holder now = true

/-- The lease on the record of an id is one worker's. -/
def IsLeasedBy (l : Ledger) (id holder : String) : Prop :=
  ∃ lease, l.lease? id = some lease ∧ lease.holder = holder

/-- The lease on the record of an id has run out. -/
def IsLapsed (l : Ledger) (id : String) (now : Instant) : Prop :=
  ∃ lease, l.lease? id = some lease ∧ lease.expiry ≤ now

instance (l : Ledger) (id : String) (now : Instant) : Decidable (l.IsLapsed id now) :=
  inferInstanceAs (Decidable (∃ lease ∈ l.lease? id, lease.expiry ≤ now))

variable {l l' : Ledger} {id holder : String} {now : Instant} {h : Handle}

theorem lease?_congr (hl : l'.find? id = l.find? id) : l'.lease? id = l.lease? id := by
  unfold lease?
  rw [hl]

theorem lease?_eq_some {n : Negotiation} {lease : Lease} (hn : l.find? id = some n)
    (hlease : n.lease = some lease) : l.lease? id = some lease := by
  unfold lease?
  rw [hn]
  exact hlease

/-- A leased record is stored. -/
theorem find?_of_lease? {lease : Lease} (h : l.lease? id = some lease) :
    ∃ n, l.find? id = some n ∧ n.lease = some lease :=
  Option.bind_eq_some_iff.mp h

theorem IsLeasedBy.stored (h : l.IsLeasedBy id holder) : ∃ n, l.find? id = some n := by
  obtain ⟨lease, hlease, _⟩ := h
  obtain ⟨n, hn, _⟩ := find?_of_lease? hlease
  exact ⟨n, hn⟩

theorem IsLeasedBy.congr (h : l.IsLeasedBy id holder) (hl : l'.find? id = l.find? id) :
    l'.IsLeasedBy id holder := by
  unfold IsLeasedBy
  rw [lease?_congr hl]
  exact h

/-- The lease that is put on a stored record is there. -/
theorem lease?_setLease {n : Negotiation} (hn : l.find? id = some n) (lease : Lease) :
    (l.setLease id (some lease)).lease? id = some lease := by
  unfold lease?
  rw [find?_setLease, if_pos rfl, hn]
  rfl

theorem lease?_leaseEach {n : Negotiation} (hn : l.find? id = some n) {ids : List String}
    (hid : id ∈ ids) (lease : Lease) : (l.leaseEach ids lease).lease? id = some lease := by
  unfold lease?
  rw [find?_leaseEach, if_pos hid, hn]
  rfl

/-- Who leases a stored record has it leased. -/
theorem isLeasedBy_setLease {n : Negotiation} (hn : l.find? id = some n) (h : Handle)
    (now : Instant) : (l.setLease id (some (h.leaseAt now))).IsLeasedBy id h.holder :=
  ⟨_, lease?_setLease hn _, rfl⟩

theorem isLeasedBy_leaseEach {n : Negotiation} (hn : l.find? id = some n) {ids : List String}
    (hid : id ∈ ids) (h : Handle) (now : Instant) :
    (l.leaseEach ids (h.leaseAt now)).IsLeasedBy id h.holder :=
  ⟨_, lease?_leaseEach hn hid _, rfl⟩

/-- A live lease shields its record from everyone but its holder. -/
theorem IsLeasedBy.shields (hl : l.IsLeasedBy id holder) (hlive : ¬ l.IsLapsed id now)
    {other : String} (hother : other ≠ holder) : l.Shields id other now := by
  obtain ⟨lease, hlease, hholder⟩ := hl
  refine ⟨lease, hlease, (Lease.shieldsFrom_iff lease other now).mpr ⟨?_, ?_⟩⟩
  · intro hexpired
    exact hlive ⟨lease, hlease, hexpired⟩
  · rw [hholder]
    exact hother.symm

/-- What is leased is not free until the lease runs out. -/
theorem not_isFree_of_lease? {lease : Lease} {n : Negotiation}
    (hlease : l.lease? id = some lease) (hlive : ¬ lease.expiry ≤ now)
    (hn : l.find? id = some n) : isFree now n = false := by
  obtain ⟨m, hm, hmlease⟩ := find?_of_lease? hlease
  cases hn.symm.trans hm
  unfold isFree
  rw [hmlease]
  simpa [Lease.isExpired] using hlive

theorem IsLeasedBy.not_isFree (hl : l.IsLeasedBy id holder) (hlive : ¬ l.IsLapsed id now)
    {n : Negotiation} (hn : l.find? id = some n) : isFree now n = false := by
  obtain ⟨lease, hlease, _⟩ := hl
  exact not_isFree_of_lease? hlease (fun hexpired => hlive ⟨lease, hlease, hexpired⟩) hn

/-- What is shielded is not free. -/
theorem Shields.not_isFree (hs : l.Shields id holder now) {n : Negotiation}
    (hn : l.find? id = some n) : isFree now n = false := by
  obtain ⟨lease, hlease, hlive⟩ := hs
  exact not_isFree_of_lease? hlease ((Lease.shieldsFrom_iff lease holder now).mp hlive).1 hn

/-! ## §3. Refusals. -/

/-- The test that every operation on a single record makes. -/
theorem checkLease_of_lease? {n : Negotiation} {lease : Lease} (hn : l.find? id = some n)
    (hlease : l.lease? id = some lease) (hlive : lease.shieldsFrom h.holder now = true) :
    h.checkLease now n = .error (.leaseConflict id lease.holder) := by
  obtain ⟨m, hm, hmlease⟩ := find?_of_lease? hlease
  cases hn.symm.trans hm
  unfold Handle.checkLease
  rw [hmlease]
  simp only [hlive, if_true, id_of_find? hn]

theorem checkLease_of_not_shields {n : Negotiation} (hn : l.find? id = some n)
    (hfree : ¬ l.Shields id h.holder now) : h.checkLease now n = .ok () := by
  unfold Handle.checkLease
  cases hlease : n.lease with
  | none => rfl
  | some lease =>
    have hdead : lease.shieldsFrom h.holder now ≠ true := fun hlive =>
      hfree ⟨lease, lease?_eq_some hn hlease, hlive⟩
    simp [hdead]

variable {lease : Lease}

theorem save_of_lease? {n : Negotiation} (hlease : l.lease? n.id = some lease)
    (hlive : lease.shieldsFrom h.holder now = true) :
    l.save h now n = .error (.leaseConflict n.id lease.holder) := by
  obtain ⟨stored, hstored, _⟩ := find?_of_lease? hlease
  unfold save
  rw [hstored]
  simp only [checkLease_of_lease? hstored hlease hlive]

theorem findAndLease_of_lease? (hlease : l.lease? id = some lease)
    (hlive : lease.shieldsFrom h.holder now = true) :
    l.findAndLease h now id = .error (.leaseConflict id lease.holder) := by
  obtain ⟨stored, hstored, _⟩ := find?_of_lease? hlease
  unfold findAndLease
  rw [hstored]
  simp only [checkLease_of_lease? hstored hlease hlive]

theorem breakLease_of_lease? (hlease : l.lease? id = some lease)
    (hlive : lease.shieldsFrom h.holder now = true) :
    l.breakLease h now id = .error (.leaseConflict id lease.holder) := by
  obtain ⟨stored, hstored, _⟩ := find?_of_lease? hlease
  unfold breakLease
  rw [hstored]
  simp only [checkLease_of_lease? hstored hlease hlive]

/-- A record can be saved unless it is shielded. -/
theorem save_of_not_shields {n : Negotiation} (hfree : ¬ l.Shields n.id h.holder now) :
    l.save h now n = .ok (l.put (n.withLease none)) := by
  unfold save
  cases hstored : l.find? n.id with
  | none => rfl
  | some stored => simp only [checkLease_of_not_shields hstored hfree]

/-- The record of an id can be leased unless it is shielded. -/
theorem findAndLease_of_not_shields (hfree : ¬ l.Shields id h.holder now) :
    l.findAndLease h now id = match l.find? id with
      | none => .error (.notFound id)
      | some n => .ok (n.withLease (some (h.leaseAt now)),
          l.setLease id (some (h.leaseAt now))) := by
  unfold findAndLease
  cases hstored : l.find? id with
  | none => rfl
  | some stored => simp only [checkLease_of_not_shields hstored hfree]

/-- The lease on the record of an id can be ended unless it shields the record. -/
theorem breakLease_of_not_shields (hfree : ¬ l.Shields id h.holder now) :
    l.breakLease h now id = match l.find? id with
      | none => .error (.notFound id)
      | some _ => .ok (l.setLease id none) := by
  unfold breakLease
  cases hstored : l.find? id with
  | none => rfl
  | some stored => simp only [checkLease_of_not_shields hstored hfree]

/-- No worker is kept from a record by its own lease. -/
theorem not_shields_setLease (l : Ledger) (id : String) (h : Handle) (taken now : Instant) :
    ¬ (l.setLease id (some (h.leaseAt taken))).Shields id h.holder now := by
  rintro ⟨lease, hlease, hlive⟩
  obtain ⟨n, hn, hnlease⟩ := find?_of_lease? hlease
  rw [find?_setLease, if_pos rfl] at hn
  obtain ⟨stored, _, rfl⟩ := Option.map_eq_some_iff.mp hn
  -- The lease is the one that was put there.
  have hown : some (h.leaseAt taken) = some lease := hnlease
  cases hown
  exact ((Lease.shieldsFrom_iff _ h.holder now).mp hlive).2 rfl

/-! ## §4. What is carried out. -/

theorem save_eq_ok {n : Negotiation} (hok : l.save h now n = .ok l') :
    ¬ l.Shields n.id h.holder now ∧ l' = l.put (n.withLease none) := by
  have hfree : ¬ l.Shields n.id h.holder now := by
    rintro ⟨lease, hlease, hlive⟩
    rw [save_of_lease? hlease hlive] at hok
    cases hok
  rw [save_of_not_shields hfree] at hok
  cases hok
  exact ⟨hfree, rfl⟩

theorem findAndLease_eq_ok {n : Negotiation} (hok : l.findAndLease h now id = .ok (n, l')) :
    ¬ l.Shields id h.holder now
      ∧ (∃ stored, l.find? id = some stored ∧ n = stored.withLease (some (h.leaseAt now)))
      ∧ l' = l.setLease id (some (h.leaseAt now)) := by
  have hfree : ¬ l.Shields id h.holder now := by
    rintro ⟨lease, hlease, hlive⟩
    rw [findAndLease_of_lease? hlease hlive] at hok
    cases hok
  rw [findAndLease_of_not_shields hfree] at hok
  cases hstored : l.find? id with
  | none =>
    rw [hstored] at hok
    cases hok
  | some stored =>
    rw [hstored] at hok
    cases hok
    exact ⟨hfree, ⟨stored, rfl, rfl⟩, rfl⟩

theorem breakLease_eq_ok (hok : l.breakLease h now id = .ok l') :
    ¬ l.Shields id h.holder now ∧ l' = l.setLease id none := by
  have hfree : ¬ l.Shields id h.holder now := by
    rintro ⟨lease, hlease, hlive⟩
    rw [breakLease_of_lease? hlease hlive] at hok
    cases hok
  rw [breakLease_of_not_shields hfree] at hok
  cases hstored : l.find? id with
  | none =>
    rw [hstored] at hok
    cases hok
  | some stored =>
    rw [hstored] at hok
    cases hok
    exact ⟨hfree, rfl⟩

/-- Work is free records that meet the criteria, none of them twice, and all of them are leased. -/
theorem nextNotLeased_eq_ok {max : Nat} {criteria : List Criterion} {batch : List Negotiation}
    (hok : l.nextNotLeased h now max criteria = .ok (batch, l')) :
    l' = l.leaseEach (batch.map (·.id)) (h.leaseAt now) ∧ (batch.map (·.id)).Nodup
      ∧ ∀ m ∈ batch, ∃ stored, l.find? m.id = some stored ∧ isFree now stored = true
        ∧ matchesAll stored criteria = .ok true
        ∧ m = stored.withLease (some (h.leaseAt now)) := by
  unfold nextNotLeased at hok
  split at hok
  · cases hok
  · split at hok
    · cases hok
    · rename_i found hfound
      simp only [Except.ok.injEq, Prod.mk.injEq] at hok
      obtain ⟨hbatch, hledger⟩ := hok
      unfold candidates at hfound
      split at hfound
      · cases hfound
      · rename_i kept hkept
        cases hfound
        -- The chosen records are free ones of the ledger, in another order.
        have hkeptSub : kept.Sublist l.entries :=
          (filterAll_sublist hkept).trans List.filter_sublist
        have hperm := stableSort_perm waitsLonger kept
        have hchosen : ((stableSort waitsLonger kept).take max).Sublist
            (stableSort waitsLonger kept) := List.take_sublist _ _
        have hids : batch.map (·.id) = ((stableSort waitsLonger kept).take max).map (·.id) := by
          rw [← hbatch, List.map_map]
          rfl
        refine ⟨?_, ?_, ?_⟩
        · rw [hids, hledger]
        · rw [hids]
          refine (hchosen.map _).nodup ((hperm.map _).nodup_iff.mpr ?_)
          exact (hkeptSub.map _).nodup l.distinct
        · intro m hm
          rw [← hbatch] at hm
          obtain ⟨stored, hstored, rfl⟩ := List.mem_map.mp hm
          have hin : stored ∈ kept := hperm.mem_iff.mp (hchosen.subset hstored)
          obtain ⟨hentry, hfree⟩ := List.mem_filter.mp ((filterAll_sublist hkept).subset hin)
          exact ⟨stored, find?_of_mem hentry, hfree, of_mem_filterAll hkept hin, rfl⟩

/-- A shielded record is not handed out as work, and stays as it is. -/
theorem nextNotLeased_of_shields {max : Nat} {criteria : List Criterion}
    {batch : List Negotiation} (hs : l.Shields id holder now)
    (hok : l.nextNotLeased h now max criteria = .ok (batch, l')) :
    (∀ m ∈ batch, m.id ≠ id) ∧ l'.find? id = l.find? id := by
  obtain ⟨hl', _, hfree⟩ := nextNotLeased_eq_ok hok
  have hout : ∀ m ∈ batch, m.id ≠ id := by
    rintro m hm rfl
    obtain ⟨stored, hstored, hisFree, _, _⟩ := hfree m hm
    rw [hs.not_isFree hstored] at hisFree
    cases hisFree
  refine ⟨hout, ?_⟩
  rw [hl', find?_leaseEach, if_neg]
  rw [List.mem_map]
  rintro ⟨m, hm, hid⟩
  exact hout m hm hid

end Ledger

end Parley
