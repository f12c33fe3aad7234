/-
  Parley.Proofs.Ledger.Batch
  ────────────────────────────────
  **WHAT A BATCH IS MADE OF.**

  A batch for a duty holds records of the ledger, each once and each leased to
  the worker, that are in the duty's state, have the duty's role and are not
  pending (`mem_dutyBatch`); and it is not empty if there is such a record that
  is free (`dutyBatch_ne_nil`).  The store finds it (`nextNotLeased_dutyCriteria`)
  if all records are in states that the protocol knows, and no others are ever
  stored by an engine.
-/
import Parley.Proofs.Ledger.Content

namespace Parley

open Parley.Query

/-! ## §1. Tests that may fail. -/

namespace Query

/-- A test that fails nowhere keeps all that pass it. -/
theorem filterAll_of_total {test : α → Except ε Bool} {xs : List α} (keep : α → Bool)
    (h : ∀ x ∈ xs, test x = .ok (keep x)) : filterAll test xs = .ok (xs.filter keep) := by
  induction xs with
  | nil => rfl
  | cons x xs ih =>
    have hx := h x List.mem_cons_self
    have hxs := ih fun y hy => h y (List.mem_cons_of_mem x hy)
    unfold filterAll
    simp only [hx, hxs, List.filter_cons]

/-! ## §2. The criteria of a duty. -/

/-- The criteria by which the records of a duty are found. -/
def dutyCriteria (role : Role) (d : State) : List Criterion :=
  [.hasState d.code, .isNotPending, .hasRole role]

theorem validate_dutyCriteria (role : Role) (d : State) :
    validate (dutyCriteria role d) = .ok () := by
  simp [dutyCriteria, validate, Criterion.hasState, Criterion.isNotPending, Criterion.hasRole,
    Criterion.checkOperand, Negotiation.fieldPaths]

/-- Stored codes are compared as numbers, and no two states have codes that are the same number. -/
theorem valuesEqual_code (s t : State) :
    valuesEqual (.int s.code) (.int t.code) = decide (s = t) := by
  have h : (State.all.all fun s => State.all.all fun t =>
      valuesEqual (.int s.code) (.int t.code) == decide (s = t)) = true := by decide +kernel
  rw [List.all_eq_true] at h
  have hs := h s (State.mem_all s)
  rw [List.all_eq_true] at hs
  exact beq_iff_eq.mp (hs t (State.mem_all t))

/-- Whether a record calls for the duty of a state: it is in the state, of the role, and nothing
holds it back. -/
def callsFor (role : Role) (d : State) (n : Negotiation) : Bool :=
  decide (n.state = d.code) && !n.pending && decide (n.role = role)

/-- The criteria of a duty find the records that call for it. -/
theorem matchesAll_dutyCriteria {n : Negotiation} {s : State} (hs : n.state = s.code)
    (role : Role) (d : State) :
    matchesAll n (dutyCriteria role d) = .ok (callsFor role d n) := by
  have hstate : evaluate n (.hasState d.code) = .ok (decide (n.state = d.code)) := by
    show Except.ok (valuesEqual (.int n.state) (.int d.code)) = _
    rw [hs, valuesEqual_code]
    have hcode : s = d ↔ s.code = d.code := ⟨fun h => by rw [h], State.code_injective⟩
    simp only [hcode]
  have hpending : evaluate n .isNotPending = .ok (!n.pending) := by
    show Except.ok (valuesEqual (.bool n.pending) (.bool false)) = _
    cases n.pending <;> rfl
  have hrole : evaluate n (.hasRole role) = .ok (decide (n.role = role)) := by
    show Except.ok (valuesEqual (.text n.role.tag) (.text role.tag)) = _
    cases n.role <;> cases role <;> rfl
  unfold dutyCriteria matchesAll matchesAll matchesAll matchesAll callsFor
  rw [hstate, hpending, hrole]
  cases decide (n.state = d.code) <;> cases n.pending <;> cases decide (n.role = role) <;> rfl

/-- A record that the criteria of a duty find is in no other state and of no other role. -/
theorem state_of_matchesAll {n : Negotiation} {role : Role} {d s : State}
    (h : matchesAll n (dutyCriteria role d) = .ok true) (hs : n.state = s.code) :
    s = d ∧ n.role = role := by
  rw [matchesAll_dutyCriteria hs] at h
  have hcalls : callsFor role d n = true := Except.ok.inj h
  simp only [callsFor, Bool.and_eq_true, decide_eq_true_eq] at hcalls
  exact ⟨State.code_injective (hs.symm.trans hcalls.1.1), hcalls.2⟩

end Query

/-! ## §3. Batches. -/

namespace Ledger

/-- Every record is in a state that the protocol knows. -/
def IsKnown (l : Ledger) : Prop :=
  ∀ n ∈ l.entries, ∃ s : State, n.state = s.code

theorem isKnown_of_content {l : Ledger}
    (h : ∀ id n, l.content id = some n → ∃ s : State, n.state = s.code) : l.IsKnown := by
  intro n hn
  exact h n.id (n.withLease none) (content_of_find? (find?_of_mem hn))

/-- The free records that pass a test, those that wait longest first. -/
def freeRow (l : Ledger) (now : Instant) (keep : Negotiation → Bool) : List Negotiation :=
  stableSort waitsLonger ((l.entries.filter (isFree now)).filter keep)

theorem mem_freeRow {l : Ledger} {now : Instant} {keep : Negotiation → Bool} {n : Negotiation} :
    n ∈ l.freeRow now keep ↔ n ∈ l.entries ∧ isFree now n = true ∧ keep n = true := by
  rw [freeRow, (stableSort_perm _ _).mem_iff, List.mem_filter, List.mem_filter, and_assoc]

theorem nodup_freeRow (l : Ledger) (now : Instant) (keep : Negotiation → Bool) :
    ((l.freeRow now keep).map (·.id)).Nodup := by
  have hperm := (stableSort_perm waitsLonger
    ((l.entries.filter (isFree now)).filter keep)).map (·.id)
  rw [freeRow, hperm.nodup_iff]
  exact ((List.filter_sublist.trans List.filter_sublist).map _).nodup l.distinct

/-- The records that a duty's batch is taken from, those that wait longest first. -/
def waiting (l : Ledger) (now : Instant) (role : Role) (d : State) : List Negotiation :=
  stableSort waitsLonger ((l.entries.filter (isFree now)).filter (callsFor role d))

/-- The batch that is leased for a duty. -/
def dutyBatch (l : Ledger) (h : Handle) (now : Instant) (max : Nat) (role : Role) (d : State) :
    List Negotiation :=
  ((l.waiting now role d).take max).map (·.withLease (some (h.leaseAt now)))

variable {l : Ledger} {h : Handle} {now : Instant} {max : Nat} {role : Role} {d : State}

theorem map_id_dutyBatch (l : Ledger) (h : Handle) (now : Instant) (max : Nat) (role : Role)
    (d : State) :
    (l.dutyBatch h now max role d).map (·.id) = ((l.waiting now role d).take max).map (·.id) := by
  rw [dutyBatch, List.map_map]
  rfl

/-- The store can always be asked for a duty's batch. -/
theorem nextNotLeased_dutyCriteria (hk : l.IsKnown) (h : Handle) (now : Instant) (max : Nat)
    (role : Role) (d : State) :
    l.nextNotLeased h now max (dutyCriteria role d)
      = .ok (l.dutyBatch h now max role d,
          l.leaseEach ((l.dutyBatch h now max role d).map (·.id)) (h.leaseAt now)) := by
  have hall : ∀ n ∈ l.entries.filter (isFree now),
      matchesAll n (dutyCriteria role d) = .ok (callsFor role d n) := by
    intro n hn
    obtain ⟨s, hs⟩ := hk n (List.mem_filter.mp hn).1
    exact matchesAll_dutyCriteria hs role d
  unfold nextNotLeased candidates
  rw [validate_dutyCriteria, filterAll_of_total _ hall, map_id_dutyBatch]
  rfl

theorem mem_waiting {n : Negotiation} :
    n ∈ l.waiting now role d ↔ n ∈ l.entries ∧ isFree now n = true
      ∧ callsFor role d n = true :=
  mem_freeRow

theorem nodup_waiting (l : Ledger) (now : Instant) (role : Role) (d : State) :
    ((l.waiting now role d).map (·.id)).Nodup :=
  nodup_freeRow l now (callsFor role d)

/-- A batch holds no record twice. -/
theorem nodup_dutyBatch (l : Ledger) (h : Handle) (now : Instant) (max : Nat) (role : Role)
    (d : State) : ((l.dutyBatch h now max role d).map (·.id)).Nodup := by
  rw [map_id_dutyBatch]
  exact ((List.take_sublist _ _).map _).nodup (nodup_waiting l now role d)

/-- The records of a duty's batch are in the ledger and call for the duty. -/
theorem mem_dutyBatch {n : Negotiation} (hn : n ∈ l.dutyBatch h now max role d) :
    l.content n.id = some (n.withLease none) ∧ n.state = d.code ∧ n.role = role
      ∧ n.pending = false := by
  obtain ⟨stored, hstored, rfl⟩ := List.mem_map.mp hn
  obtain ⟨hin, _, hcalls⟩ := mem_waiting.mp (List.mem_of_mem_take hstored)
  simp only [callsFor, Bool.and_eq_true, decide_eq_true_eq, Bool.not_eq_true'] at hcalls
  obtain ⟨⟨hstate, hpending⟩, hrole⟩ := hcalls
  refine ⟨?_, hstate, hrole, hpending⟩
  show l.content stored.id = some (stored.withLease none)
  exact content_of_find? (find?_of_mem hin)

/-- If a free record calls for a duty, there is work. -/
theorem dutyBatch_ne_nil (hmax : 0 < max) {n : Negotiation} (hn : n ∈ l.entries)
    (hfree : isFree now n = true) (hcalls : callsFor role d n = true) :
    l.dutyBatch h now max role d ≠ [] := by
  have hin := mem_waiting.mpr ⟨hn, hfree, hcalls⟩
  intro hnil
  rw [dutyBatch, List.map_eq_nil_iff, List.take_eq_nil_iff] at hnil
  rcases hnil with h0 | hempty
  · omega
  · rw [hempty] at hin
    exact absurd hin List.not_mem_nil

end Ledger

end Parley
