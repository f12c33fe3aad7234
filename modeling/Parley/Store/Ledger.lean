/-
  Parley.Store.Ledger
  ────────────────────────────────
  **THE RECORDS OF A STORE.**

  A ledger holds negotiations, each under its own id.  In which order it lists
  them means nothing: what is in a ledger is what it answers for each id.

      (l.put n).find? id = if n.id = id then some n else l.find? id
-/
import Parley.Query.Resolve

namespace Parley

open Parley.Query

/-- Negotiations with pairwise different ids. -/
structure Ledger where
  entries : List Negotiation
  distinct : (entries.map (·.id)).Nodup

namespace Ledger

/-! ## §1. Operations. -/

/-- The ledger without records. -/
def empty : Ledger := ⟨[], List.nodup_nil⟩

instance : Inhabited Ledger := ⟨empty⟩

/-- The record of an id. -/
def find? (l : Ledger) (id : String) : Option Negotiation :=
  l.entries.find? (·.id = id)

/-- The number of records. -/
def size (l : Ledger) : Nat :=
  l.entries.length

/-- The records in order of their ids. -/
def all (l : Ledger) : List Negotiation :=
  stableSort (fun a b => a.id < b.id) l.entries

/-- Change the records one by one, without touching their ids. -/
def map (l : Ledger) (f : Negotiation → Negotiation) (keepsId : ∀ n, (f n).id = n.id) : Ledger where
  entries := l.entries.map f
  distinct := by
    have h : (l.entries.map f).map (·.id) = l.entries.map (·.id) := by
      rw [List.map_map]
      exact List.map_congr_left fun n _ => keepsId n
    rw [h]
    exact l.distinct

/-- The ledger without the record of an id. -/
def erase (l : Ledger) (id : String) : Ledger where
  entries := l.entries.filter fun n => n.id ≠ id
  distinct := (List.filter_sublist.map _).nodup l.distinct

/-- The ledger with a record in place of the one with its id, or added to it. -/
def put (l : Ledger) (n : Negotiation) : Ledger :=
  if h : n.id ∈ l.entries.map (·.id) then
    l.map (fun m => if m.id = n.id then n else m) fun m => by split <;> simp_all
  else
    ⟨l.entries ++ [n], by
      rw [List.map_append, List.nodup_append]
      refine ⟨l.distinct, by simp, ?_⟩
      intro a ha b hb hab
      rw [List.map_cons, List.map_nil, List.mem_singleton] at hb
      exact h (by rw [← hb, ← hab]; exact ha)⟩

/-- The ledger with another lease, or none, on the record of an id. -/
def setLease (l : Ledger) (id : String) (lease : Option Lease) : Ledger :=
  l.map (fun n => if n.id = id then n.withLease lease else n) fun n => by
    split <;> simp [Negotiation.withLease]

/-- The ledger with a lease on every record of some ids. -/
def leaseEach (l : Ledger) (ids : List String) (lease : Lease) : Ledger :=
  l.map (fun n => if n.id ∈ ids then n.withLease (some lease) else n) fun n => by
    split <;> simp [Negotiation.withLease]

/-! ## §2. Looking up. -/

theorem id_of_find? {l : Ledger} {id : String} {n : Negotiation} (h : l.find? id = some n) :
    n.id = id := by
  simpa using List.find?_some h

theorem mem_of_find? {l : Ledger} {id : String} {n : Negotiation} (h : l.find? id = some n) :
    n ∈ l.entries :=
  List.mem_of_find?_eq_some h

@[simp] theorem find?_empty (id : String) : empty.find? id = none := rfl

/-- A record that is in the ledger is the one found under its id. -/
theorem find?_of_mem {l : Ledger} {n : Negotiation} (h : n ∈ l.entries) :
    l.find? n.id = some n := by
  obtain ⟨entries, distinct⟩ := l
  simp only [find?] at h ⊢
  induction entries with
  | nil => simp at h
  | cons m rest ih =>
    rw [List.map_cons, List.nodup_cons] at distinct
    by_cases hm : m.id = n.id
    · rcases List.mem_cons.mp h with h | h
      · simp [h]
      · exact absurd (List.mem_map_of_mem h) (hm ▸ distinct.1)
    · rcases List.mem_cons.mp h with h | h
      · exact absurd (by rw [h]) hm
      · rw [List.find?_cons_of_neg (by simpa using hm)]
        exact ih distinct.2 h

theorem find?_map (l : Ledger) (f : Negotiation → Negotiation) (keepsId : ∀ n, (f n).id = n.id)
    (id : String) : (l.map f keepsId).find? id = (l.find? id).map f := by
  simp only [find?, map, List.find?_map, Function.comp_def, keepsId]

/-- What a ledger answers after a record was put in. -/
@[simp] theorem find?_put (l : Ledger) (n : Negotiation) (id : String) :
    (l.put n).find? id = if n.id = id then some n else l.find? id := by
  unfold put
  split
  · rename_i h
    rw [find?_map]
    cases hf : l.find? id with
    | none =>
      by_cases hid : n.id = id
      · subst hid
        obtain ⟨m, hm, hmid⟩ := List.mem_map.mp h
        have := find?_of_mem hm
        rw [hmid, hf] at this
        exact absurd this (by simp)
      · simp [hid]
    | some m =>
      have hm := id_of_find? hf
      by_cases hid : n.id = id
      · simp [hid, hm]
      · simp [hm, hid, Ne.symm hid]
  · rename_i h
    simp only [find?, List.find?_append]
    by_cases hid : n.id = id
    · have hnone : l.entries.find? (fun m => decide (m.id = id)) = none := by
        rw [List.find?_eq_none]
        intro m hm hmid
        exact h (by rw [hid, ← of_decide_eq_true hmid]; exact List.mem_map_of_mem hm)
      simp [hnone, hid]
    · simp [hid]

/-- What a ledger answers after a record was taken out. -/
@[simp] theorem find?_erase (l : Ledger) (id other : String) :
    (l.erase id).find? other = if other = id then none else l.find? other := by
  simp only [find?, erase, List.find?_filter]
  by_cases h : other = id
  · subst h
    simp only [if_true]
    rw [List.find?_eq_none]
    intro m _ hm
    simp at hm
  · simp only [h, if_false]
    congr 1
    funext m
    by_cases hm : m.id = other
    · simp [hm, h]
    · simp [hm]

/-- What a ledger answers after a change of a lease. -/
@[simp] theorem find?_setLease (l : Ledger) (id other : String) (lease : Option Lease) :
    (l.setLease id lease).find? other
      = if other = id then (l.find? other).map (·.withLease lease) else l.find? other := by
  rw [setLease, find?_map]
  cases hf : l.find? other with
  | none => simp
  | some m =>
    have hm := id_of_find? hf
    by_cases h : other = id <;> simp [hm, h]

/-- What a ledger answers after several records were leased. -/
@[simp] theorem find?_leaseEach (l : Ledger) (ids : List String) (lease : Lease) (other : String) :
    (l.leaseEach ids lease).find? other
      = if other ∈ ids then (l.find? other).map (·.withLease (some lease)) else l.find? other := by
  rw [leaseEach, find?_map]
  cases hf : l.find? other with
  | none => simp
  | some m =>
    have hm := id_of_find? hf
    by_cases h : other ∈ ids <;> simp [hm, h]

end Ledger

end Parley
