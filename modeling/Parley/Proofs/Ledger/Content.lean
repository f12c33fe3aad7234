/-
  Parley.Proofs.Ledger.Content
  ────────────────────────────────
  **WHAT A LEDGER SAYS, APART FROM LEASES.**

  Most of what is claimed about a run is about the records and not about who has
  them leased.  `Ledger.content` is a ledger's answer for an id with the lease
  taken off: leasing and releasing do not show in it, and writing a record shows
  at its id only.

  A store that one worker uses alone holds no lease of another (`HeldBy`).  Then
  no record is shielded from that worker (`HeldBy.not_shields`), and the store
  refuses nothing to it but ids that it does not know.
-/
import Parley.Proofs.Ledger.Shield

namespace Parley

/-! ## §1. Content. -/

namespace Ledger

/-- The record of an id without its lease. -/
def content (l : Ledger) (id : String) : Option Negotiation :=
  (l.find? id).map (·.withLease none)

@[simp] theorem content_empty (id : String) : empty.content id = none := rfl

@[simp] theorem content_put (l : Ledger) (n : Negotiation) (id : String) :
    (l.put n).content id = if n.id = id then some (n.withLease none) else l.content id := by
  simp only [content, find?_put]
  split <;> rfl

@[simp] theorem content_setLease (l : Ledger) (id other : String) (lease : Option Lease) :
    (l.setLease id lease).content other = l.content other := by
  simp only [content, find?_setLease]
  split
  · rw [Option.map_map]
    rfl
  · rfl

@[simp] theorem content_leaseEach (l : Ledger) (ids : List String) (lease : Lease)
    (id : String) : (l.leaseEach ids lease).content id = l.content id := by
  simp only [content, find?_leaseEach]
  split
  · rw [Option.map_map]
    rfl
  · rfl

/-- A lease on no records changes nothing. -/
theorem leaseEach_nil (l : Ledger) (lease : Lease) : l.leaseEach [] lease = l := by
  obtain ⟨entries, distinct⟩ := l
  simp [leaseEach, map]

theorem content_of_find? {l : Ledger} {id : String} {n : Negotiation}
    (h : l.find? id = some n) : l.content id = some (n.withLease none) := by
  rw [content, h]
  rfl

theorem content_eq_none_iff {l : Ledger} {id : String} :
    l.content id = none ↔ l.find? id = none := by
  simp [content]

/-- A record of the content is one of the ledger, up to the lease. -/
theorem find?_of_content {l : Ledger} {id : String} {n : Negotiation}
    (h : l.content id = some n) : ∃ stored, l.find? id = some stored
      ∧ stored.withLease none = n := by
  simpa [content] using h

theorem id_of_content {l : Ledger} {id : String} {n : Negotiation}
    (h : l.content id = some n) : n.id = id := by
  obtain ⟨stored, hs, rfl⟩ := find?_of_content h
  show stored.id = id
  exact id_of_find? hs

/-- A lease on a record that is not there changes nothing. -/
theorem setLease_of_absent {l : Ledger} {id : String} (h : l.find? id = none)
    (lease : Option Lease) : l.setLease id lease = l := by
  obtain ⟨entries, distinct⟩ := l
  have hid : ∀ n ∈ entries, n.id ≠ id := by
    intro n hn
    simpa using List.find?_eq_none.mp h n hn
  simp only [setLease, map, mk.injEq]
  calc entries.map (fun n => if n.id = id then n.withLease lease else n)
      = entries.map (fun n => n) := List.map_congr_left fun n hn => if_neg (hid n hn)
    _ = entries := List.map_id' _

@[ext] theorem ext {l l' : Ledger} (h : l.entries = l'.entries) : l = l' := by
  cases l
  cases l'
  cases h
  rfl

/-- The last lease counts. -/
theorem setLease_setLease (l : Ledger) (id : String) (first second : Option Lease) :
    (l.setLease id first).setLease id second = l.setLease id second := by
  ext1
  simp only [setLease, map, List.map_map]
  refine List.map_congr_left fun n _ => ?_
  by_cases hid : n.id = id
  · have hleased : (n.withLease first).id = id := hid
    simp only [Function.comp, if_pos hid, if_pos hleased]
    rfl
  · simp only [Function.comp, if_neg hid]

theorem entries_put (l : Ledger) (n : Negotiation) :
    (l.put n).entries = if n.id ∈ l.entries.map (·.id)
      then l.entries.map (fun m => if m.id = n.id then n else m) else l.entries ++ [n] := by
  unfold put
  split <;> rfl

theorem ids_setLease (l : Ledger) (id : String) (lease : Option Lease) :
    (l.setLease id lease).entries.map (·.id) = l.entries.map (·.id) := by
  simp only [setLease, map, List.map_map]
  refine List.map_congr_left fun m _ => ?_
  simp only [Function.comp]
  split <;> rfl

/-- What is written takes the place of the record, whatever lease that had. -/
theorem put_setLease (l : Ledger) {n : Negotiation} {id : String} (hid : n.id = id)
    (lease : Option Lease) : (l.setLease id lease).put n = l.put n := by
  subst hid
  by_cases hin : n.id ∈ l.entries.map (·.id)
  · ext1
    rw [entries_put, entries_put, ids_setLease, if_pos hin, if_pos hin]
    simp only [setLease, map, List.map_map]
    refine List.map_congr_left fun m _ => ?_
    by_cases hm : m.id = n.id
    · have hleased : (m.withLease lease).id = n.id := hm
      simp only [Function.comp, if_pos hm, if_pos hleased]
    · simp only [Function.comp, if_neg hm]
  · have habsent : l.find? n.id = none := by
      cases hfound : l.find? n.id with
      | none => rfl
      | some m =>
        have hm := List.mem_map_of_mem (f := fun m : Negotiation => m.id) (mem_of_find? hfound)
        rw [id_of_find? hfound] at hm
        exact absurd hm hin
    rw [setLease_of_absent habsent]

/-! ## §2. The leases of one worker. -/

/-- Every lease in the ledger is held by one worker. -/
def HeldBy (l : Ledger) (holder : String) : Prop :=
  ∀ id n lease, l.find? id = some n → n.lease = some lease → lease.holder = holder

theorem heldBy_empty (holder : String) : empty.HeldBy holder := by
  intro id n lease h
  simp at h

theorem HeldBy.put {l : Ledger} {holder : String} (h : l.HeldBy holder) (n : Negotiation) :
    (l.put (n.withLease none)).HeldBy holder := by
  intro id m lease hm hlease
  rw [find?_put] at hm
  split at hm
  · cases hm
    simp [Negotiation.withLease] at hlease
  · exact h id m lease hm hlease

theorem HeldBy.setLease {l : Ledger} {holder : String} (h : l.HeldBy holder) (id : String)
    {lease : Option Lease} (hl : ∀ x, lease = some x → x.holder = holder) :
    (l.setLease id lease).HeldBy holder := by
  intro other m x hm hx
  rw [find?_setLease] at hm
  split at hm
  · obtain ⟨n, _, rfl⟩ := Option.map_eq_some_iff.mp hm
    exact hl x hx
  · exact h other m x hm hx

theorem HeldBy.leaseEach {l : Ledger} {holder : String} (h : l.HeldBy holder)
    (ids : List String) {lease : Lease} (hl : lease.holder = holder) :
    (l.leaseEach ids lease).HeldBy holder := by
  intro id m x hm hx
  rw [find?_leaseEach] at hm
  split at hm
  · obtain ⟨n, _, rfl⟩ := Option.map_eq_some_iff.mp hm
    simp only [Negotiation.withLease, Option.some.injEq] at hx
    rw [← hx, hl]
  · exact h id m x hm hx

/-! ## §3. Leased records. -/

/-- The record of an id is leased. -/
def IsLeased (l : Ledger) (id : String) : Prop :=
  ∃ n, l.find? id = some n ∧ n.lease.isSome = true

theorem not_isLeased_empty (id : String) : ¬ empty.IsLeased id := by
  rintro ⟨n, hn, _⟩
  cases hn

/-- A record that is written is not leased. -/
theorem isLeased_put {l : Ledger} {n : Negotiation} {id : String}
    (h : (l.put (n.withLease none)).IsLeased id) : l.IsLeased id ∧ n.id ≠ id := by
  obtain ⟨m, hm, hlease⟩ := h
  rw [find?_put] at hm
  split at hm
  · cases hm
    cases hlease
  · rename_i hid
    exact ⟨⟨m, hm, hlease⟩, hid⟩

theorem isLeased_setLease {l : Ledger} {id other : String} {lease : Option Lease}
    (h : (l.setLease id lease).IsLeased other) (hid : id ≠ other) : l.IsLeased other := by
  obtain ⟨m, hm, hlease⟩ := h
  rw [find?_setLease, if_neg (Ne.symm hid)] at hm
  exact ⟨m, hm, hlease⟩

/-- A record whose lease ended is not leased. -/
theorem isLeased_setLease_none {l : Ledger} {id other : String}
    (h : (l.setLease id none).IsLeased other) : l.IsLeased other ∧ id ≠ other := by
  have hid : id ≠ other := by
    rintro rfl
    obtain ⟨m, hm, hlease⟩ := h
    rw [find?_setLease, if_pos rfl] at hm
    obtain ⟨n, _, rfl⟩ := Option.map_eq_some_iff.mp hm
    cases hlease
  exact ⟨isLeased_setLease h hid, hid⟩

theorem isLeased_leaseEach {l : Ledger} {ids : List String} {lease : Lease} {id : String}
    (h : (l.leaseEach ids lease).IsLeased id) : l.IsLeased id ∨ id ∈ ids := by
  obtain ⟨m, hm, hlease⟩ := h
  rw [find?_leaseEach] at hm
  split at hm
  · rename_i hid
    exact .inr hid
  · exact .inl ⟨m, hm, hlease⟩

/-! ## §4. The store of one worker. -/

variable {l : Ledger}

/-- A worker is not kept from a record by its own lease. -/
theorem HeldBy.not_shields {holder : String} (hl : l.HeldBy holder) (id : String)
    (now : Instant) : ¬ l.Shields id holder now := by
  rintro ⟨lease, hlease, hlive⟩
  obtain ⟨n, hn, hnlease⟩ := find?_of_lease? hlease
  exact ((Lease.shieldsFrom_iff lease holder now).mp hlive).2 (hl id n lease hn hnlease)

end Ledger

end Parley
