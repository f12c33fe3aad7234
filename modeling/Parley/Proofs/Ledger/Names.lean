/-
  Parley.Proofs.Ledger.Names
  ────────────────────────────────
  **THE RECORDS OF A NAME.**

  A record has the counter party's name for the negotiation, once that is known.
  A contract request is looked for by such a name, and the first record with it
  decides (`Ledger.Lookup`): a provider's is the one that the request made, a
  consumer's is not.  Which record is first depends on the order in which the
  store lists them; nothing else that a ledger answers does (`Rearranges`).
-/
import Parley.Engine.Inbound
import Parley.Proofs.Ledger.Content
import Mathlib.Data.List.Nodup
import Mathlib.Data.List.Perm.Basic

namespace Parley

/-! ## §1. The order of the records. -/

namespace Ledger

variable {l l' : Ledger}

/-- Ledgers that list the same records, each in its own order. -/
def Rearranges (l l' : Ledger) : Prop :=
  l.entries.Perm l'.entries

/-- What a ledger answers for an id does not depend on the order. -/
theorem Rearranges.find? (h : l.Rearranges l') (id : String) : l'.find? id = l.find? id := by
  have hsome {k k' : Ledger} (hk : k.Rearranges k') {n : Negotiation}
      (hn : k.find? id = some n) : k'.find? id = some n := by
    have hfound := find?_of_mem (hk.mem_iff.mp (mem_of_find? hn))
    rw [id_of_find? hn] at hfound
    exact hfound
  cases hl : l.find? id with
  | some n => exact hsome h hl
  | none =>
    cases hl' : l'.find? id with
    | none => rfl
    | some n =>
      rw [hsome h.symm hl'] at hl
      cases hl

/-- Ledgers that answer alike list the same records. -/
theorem rearranges_of_find? (h : ∀ id, l'.find? id = l.find? id) : l.Rearranges l' := by
  refine (List.perm_ext_iff_of_nodup (List.Nodup.of_map _ l.distinct)
    (List.Nodup.of_map _ l'.distinct)).mpr fun n => ?_
  constructor
  · intro hn
    exact mem_of_find? ((h n.id).trans (find?_of_mem hn))
  · intro hn
    exact mem_of_find? ((h n.id).symm.trans (find?_of_mem hn))

theorem Rearranges.content (h : l.Rearranges l') (id : String) :
    l'.content id = l.content id := by
  unfold Ledger.content
  rw [h.find?]

theorem Rearranges.heldBy (h : l.Rearranges l') {holder : String} (hl : l.HeldBy holder) :
    l'.HeldBy holder := by
  intro id n lease hn hlease
  rw [h.find?] at hn
  exact hl id n lease hn hlease

/-- Any record can be listed first. -/
theorem exists_rearranges_head {n : Negotiation} (hn : n ∈ l.entries) :
    ∃ l', l.Rearranges l' ∧ l'.entries.head? = some n := by
  have hperm := List.perm_cons_erase hn
  have hdistinct : ((n :: l.entries.erase n).map (·.id)).Nodup :=
    (hperm.map _).nodup_iff.mp l.distinct
  exact ⟨⟨n :: l.entries.erase n, hdistinct⟩, hperm, rfl⟩

/-! ## §2. Names. -/

/-- A record of a role that has the counter party's name for the negotiation. -/
structure IsNamed (l : Ledger) (role : Role) (name id : String) (n : Negotiation) : Prop where
  content : l.content id = some n
  role : n.role = role
  named : n.correlationId = some name

/-- Some record of a role has a name. -/
def HasNamed (l : Ledger) (role : Role) (name : String) : Prop :=
  ∃ id n, l.IsNamed role name id n

variable {role : Role} {name id : String} {n p : Negotiation}

theorem IsNamed.congr (h : l.IsNamed role name id n) (hl : l'.content id = l.content id) :
    l'.IsNamed role name id n :=
  ⟨hl.trans h.content, h.role, h.named⟩

theorem HasNamed.rearranged (h : l.Rearranges l') (hl : l.HasNamed role name) :
    l'.HasNamed role name := by
  obtain ⟨id, n, hn⟩ := hl
  exact ⟨id, n, hn.congr (h.content id)⟩

theorem isNamed_of_mem (hn : n ∈ l.entries) (hnamed : n.correlationId = some name) :
    l.IsNamed n.role name n.id (n.withLease none) :=
  ⟨content_of_find? (find?_of_mem hn), rfl, hnamed⟩

/-- How a request is looked for: the first record with its name decides. -/
inductive Lookup (l : Ledger) (name : String) : Option Negotiation → Prop
  | unnamed (hno : ∀ role, ¬ l.HasNamed role name) : Lookup l name none
  | consumer (c : Negotiation) (hfound : l.IsNamed .consumer name c.id (c.withLease none)) :
      Lookup l name none
  | provider (p : Negotiation) (hfound : l.IsNamed .provider name p.id (p.withLease none)) :
      Lookup l name (some p)

theorem lookup (l : Ledger) (name : String) : l.Lookup name (Engine.knownRequest? name l) := by
  unfold Engine.knownRequest? findForCorrelationId?
  cases hfound : l.entries.find? (·.correlationId = some name) with
  | none =>
    refine .unnamed fun role ⟨id, n, hn⟩ => ?_
    obtain ⟨stored, hstored, rfl⟩ := find?_of_content hn.content
    have hother := List.find?_eq_none.mp hfound stored (mem_of_find? hstored)
    exact hother (decide_eq_true hn.named)
  | some n =>
    have hnamed := List.find?_some hfound
    have hn := isNamed_of_mem (List.mem_of_find?_eq_some hfound) (of_decide_eq_true hnamed)
    simp only
    cases hrole : n.role with
    | consumer =>
      rw [hrole] at hn
      exact .consumer n hn
    | provider =>
      rw [hrole] at hn
      exact .provider n hn

/-- A request whose record is there is unknown only if a consumer's record has the name too. -/
theorem hasNamed_of_unknown (hp : l.HasNamed .provider name)
    (hunknown : Engine.knownRequest? name l = none) : l.HasNamed .consumer name := by
  have hlookup := l.lookup name
  rw [hunknown] at hlookup
  cases hlookup with
  | unnamed hno => exact (hno .provider hp).elim
  | consumer c hfound => exact ⟨c.id, _, hfound⟩

/-- A request is not known where a consumer's record with the name is listed first. -/
theorem unknown_of_head {c : Negotiation} (hhead : l.entries.head? = some c)
    (hrole : c.role = .consumer) (hnamed : c.correlationId = some name) :
    Engine.knownRequest? name l = none := by
  obtain ⟨rest, hentries⟩ := List.head?_eq_some_iff.mp hhead
  unfold Engine.knownRequest? findForCorrelationId?
  rw [hentries, List.find?_cons_of_pos (by simpa using hnamed)]
  simp only [hrole]
  rfl

/-- Two records of a provider have one name only if a consumer's record has it too. -/
def IsUnambiguous (l : Ledger) : Prop :=
  ∀ name id id' p p', l.IsNamed .provider name id p → l.IsNamed .provider name id' p' →
    id ≠ id' → l.HasNamed .consumer name

end Ledger

end Parley
