/-
  Parley.Proofs.World.Listing
  ────────────────────────────────
  **THE ORDER IN WHICH A STORE LISTS ITS RECORDS.**

  A store lists its records in any order, today in one and tomorrow in another.
  Where it hands out several of them they are put in order first: work by the
  time it has waited and then by id, everything else by id.  No two records have
  one id, so either order leaves nothing open, and it is cut off only afterwards.

      stableSort_eq_of_perm    an order that tells all elements apart sorts a row
                               in one way only
      listing_unseen           nobody can tell from what is handed out, or from
                               what is stored then, how the records were listed
-/
import Parley.Proofs.Ledger.Concluded
import Parley.Proofs.Ledger.Names
import Parley.Proofs.World.Work
import Mathlib.Data.List.Nodup

namespace Parley

open Parley.Query

/-! ## §1. Orders that leave nothing open. -/

namespace Query

/-- An order in which no two elements have one place, if they differ in a key, sorts rearranged rows
alike. -/
theorem stableSort_eq_of_perm {less : α → α → Bool} (h : IsConsistent less) {key : α → β}
    (hkey : ∀ a b, less a b = false → less b a = false → key a = key b) {xs ys : List α}
    (hnodup : (xs.map key).Nodup) (hperm : xs.Perm ys) : stableSort less xs = stableSort less ys := by
  have hsorted : (stableSort less xs).Perm (stableSort less ys) :=
    (stableSort_perm less xs).trans (hperm.trans (stableSort_perm less ys).symm)
  refine hsorted.eq_of_pairwise ?_ (inOrder_stableSort h xs) (inOrder_stableSort h ys)
  intro a b ha hb hba hab
  have hina : a ∈ xs := (stableSort_perm less xs).subset ha
  have hinb : b ∈ xs := hperm.symm.subset ((stableSort_perm less ys).subset hb)
  exact List.inj_on_of_nodup_map hnodup hina hinb (hkey a b hab hba)

/-- Records that are in one place in the order of ids have one id. -/
theorem id_eq_of_not_less (a b : Negotiation) (hab : decide (a.id < b.id) = false)
    (hba : decide (b.id < a.id) = false) : a.id = b.id :=
  String.le_antisymm (String.not_lt.mp (of_decide_eq_false hba))
    (String.not_lt.mp (of_decide_eq_false hab))

/-- Whether a query can be answered does not depend on the records, and what is answered in order of
ids does not depend on their order. -/
theorem resolve_eq_of_perm {ns ns' : List Negotiation} (hnodup : (ns.map (·.id)).Nodup)
    (hperm : ns.Perm ns') {spec : QuerySpec} (hspec : spec.sortField = none) :
    resolve ns spec = resolve ns' spec ∧ resolve ns spec ≠ .ok none := by
  cases hcheck : checkSpec spec with
  | error e =>
    rw [resolve_eq_error_iff.mpr hcheck, resolve_eq_error_iff.mpr hcheck]
    exact ⟨rfl, nofun⟩
  | ok _ =>
    have hless : spec.less = fun a b : Negotiation => decide (a.id < b.id) := by
      funext a b
      unfold QuerySpec.less
      rw [hspec]
    have hfound := hperm.filter (meetsAll spec.filter)
    have hids : ((ns.filter (meetsAll spec.filter)).map (·.id)).Nodup :=
      (List.filter_sublist.map _).nodup hnodup
    have hrow := stableSort_eq_of_perm isConsistent_id id_eq_of_not_less hids hfound
    rw [resolve_of_checkSpec hcheck, resolve_of_checkSpec hcheck, hless,
      mergeSort?_eq isConsistent_id, mergeSort?_eq isConsistent_id, hrow]
    exact ⟨rfl, nofun⟩

end Query

/-! ## §2. What a store hands out. -/

namespace Ledger

variable {l l' : Ledger}

theorem Rearranges.all (h : l.Rearranges l') : l.all = l'.all :=
  stableSort_eq_of_perm isConsistent_id id_eq_of_not_less l.distinct h

/-- Work that is in one place has one id. -/
theorem id_eq_of_not_waitsLonger (a b : Negotiation) (hab : waitsLonger a b = false)
    (hba : waitsLonger b a = false) : a.id = b.id := by
  by_contra hid
  rw [waitsLonger_iff.mpr (comesBefore_of_ne hba hid)] at hab
  cases hab

theorem Rearranges.freeRow (h : l.Rearranges l') (now : Instant) (keep : Negotiation → Bool) :
    l.freeRow now keep = l'.freeRow now keep := by
  refine stableSort_eq_of_perm isConsistent_waitsLonger id_eq_of_not_waitsLonger ?_
    ((h.filter (isFree now)).filter keep)
  exact ((List.filter_sublist.trans List.filter_sublist).map _).nodup l.distinct

theorem Rearranges.leaseEach (h : l.Rearranges l') (ids : List String) (lease : Lease) :
    (l.leaseEach ids lease).Rearranges (l'.leaseEach ids lease) :=
  rearranges_of_find? fun id => by rw [find?_leaseEach, find?_leaseEach, h.find? id]

/-- Asking for work: the same batch or the same refusal, and the same records stored. -/
theorem Rearranges.nextNotLeased (h : l.Rearranges l') (worker : Handle) (now : Instant) (max : Nat)
    (criteria : List Criterion) :
    (∃ e, l.nextNotLeased worker now max criteria = .error e
        ∧ l'.nextNotLeased worker now max criteria = .error e)
      ∨ ∃ batch k k', l.nextNotLeased worker now max criteria = .ok (batch, k)
        ∧ l'.nextNotLeased worker now max criteria = .ok (batch, k') ∧ k.Rearranges k' := by
  unfold Ledger.nextNotLeased
  cases hvalid : validate criteria with
  | error fault => exact .inl ⟨_, rfl, rfl⟩
  | ok _ =>
    right
    rw [candidates_of_validate hvalid, candidates_of_validate hvalid, h.freeRow]
    exact ⟨_, _, _, rfl, rfl, h.leaseEach _ _⟩

end Ledger

/-- Two stores that list the same records, each in its own order, cannot be told apart: a worker that
asks for work is handed the same records, or refused for the same reason, and the stores list the
same records afterwards; both give the same list of all records; and a query that asks for no order
is answered alike, or refused for the same reason. -/
theorem listing_unseen (w : World) (l' : Ledger) (h : w.ledger.Rearranges l') (worker : Handle)
    (max : Nat) (criteria : List Criterion) (spec : QuerySpec) (hspec : spec.sortField = none) :
    let r := Access.direct.nextNotLeased worker max criteria w
    let r' := Access.direct.nextNotLeased worker max criteria (w.withLedger l')
    r.1 = r'.1 ∧ r.2.ledger.Rearranges r'.2.ledger
      ∧ w.ledger.all = l'.all
      ∧ w.ledger.query spec = l'.query spec ∧ w.ledger.query spec ≠ .ok none := by
  intro r r'
  have hwork : r.1 = r'.1 ∧ r.2.ledger.Rearranges r'.2.ledger := by
    show (Access.direct.nextNotLeased worker max criteria w).1
        = (Access.direct.nextNotLeased worker max criteria (w.withLedger l')).1
      ∧ (Access.direct.nextNotLeased worker max criteria w).2.ledger.Rearranges
        (Access.direct.nextNotLeased worker max criteria (w.withLedger l')).2.ledger
    unfold Access.nextNotLeased
    cases validate criteria with
    | error fault => exact ⟨rfl, h⟩
    | ok _ =>
      simp only [Access.direct_attempt, World.ledger_withLedger]
      obtain ⟨e, he, he'⟩ | ⟨batch, k, k', hk, hk', hsame⟩ :=
        h.nextNotLeased worker w.now max criteria
      · have hnow : (w.withLedger l').now = w.now := rfl
        rw [hnow, he, he']
        exact ⟨rfl, h⟩
      · have hnow : (w.withLedger l').now = w.now := rfl
        rw [hnow, hk, hk']
        exact ⟨rfl, hsame⟩
  obtain ⟨hquery, hanswer⟩ := resolve_eq_of_perm w.ledger.distinct h hspec
  refine ⟨hwork.1, hwork.2, h.all, ?_, ?_⟩
  · unfold Ledger.query
    rw [hquery]
  · unfold Ledger.query
    cases hresolve : resolve w.ledger.entries spec with
    | error e => exact nofun
    | ok answer =>
      intro hnone
      rw [hresolve, Except.ok.inj hnone] at hanswer
      exact hanswer rfl

/-- The same records, listed from the other end. -/
def Ledger.backwards (l : Ledger) : Ledger where
  entries := l.entries.reverse
  distinct := by
    rw [List.map_reverse, List.nodup_reverse]
    exact l.distinct

theorem Ledger.rearranges_backwards (l : Ledger) : l.Rearranges l.backwards :=
  (List.reverse_perm l.entries).symm

/-- Five records, listed either way: one is leased, one pending, and two have waited as long as each
other.  The second page of a query is the same as well. -/
theorem backwards_unseen :
    let worker : Handle := ⟨"a", 60000⟩
    let page : QuerySpec := { filter := [.isNotPending], offset := 1, limit := 2 }
    let r := Access.direct.nextNotLeased worker 2 [.isNotPending] queueWorld
    let r' := Access.direct.nextNotLeased worker 2 [.isNotPending]
      (queueWorld.withLedger queueWorld.ledger.backwards)
    queueWorld.ledger.Rearranges queueWorld.ledger.backwards ∧ page.sortField = none
      ∧ queueWorld.ledger.entries ≠ queueWorld.ledger.backwards.entries
      ∧ r.1.toOption.map (fun batch => batch.map (·.id)) = some ["n-3", "n-4"]
      ∧ r.1 = r'.1 ∧ r.2.ledger.Rearranges r'.2.ledger
      ∧ queueWorld.ledger.all = queueWorld.ledger.backwards.all
      ∧ queueWorld.ledger.query page = queueWorld.ledger.backwards.query page := by
  intro worker page r r'
  have hsame := queueWorld.ledger.rearranges_backwards
  obtain ⟨hbatch, hstored, hall, hquery, _⟩ :=
    listing_unseen queueWorld _ hsame worker 2 [.isNotPending] page rfl
  exact ⟨hsame, rfl, by decide +kernel, by decide +kernel, hbatch, hstored, hall, hquery⟩

end Parley
