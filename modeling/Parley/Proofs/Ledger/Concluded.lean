/-
  Parley.Proofs.Ledger.Concluded
  ────────────────────────────────
  **WHICH NEGOTIATION SPEAKS FOR AN AGREEMENT.**

  The archive asks for the FINALIZED negotiations whose agreement has an id, in
  order of their own ids, and takes the first.  Ids of agreements are what the
  counter parties make them, so there may be several:

      archives                the archive's answer is the policy of the negotiation
                              with the least id, or none if there is no such
                              negotiation
      archive_lookup_exact    the same, told by what is stored
-/
import Parley.Proofs.Ledger.Batch
import Parley.Proofs.Query.Integers
import Parley.Proofs.Query.Sort.Parts

namespace Parley

namespace Query

/-! ## §1. Records in order of their ids. -/

theorem isConsistent_id : IsConsistent fun a b : Negotiation => decide (a.id < b.id) :=
  .of_key (fun n : Negotiation => n.id) (fun _ _ => String.lt_asymm) fun _ _ _ hab hbc =>
    String.not_lt.mpr (String.le_trans (String.not_lt.mp hbc) (String.not_lt.mp hab))

/-- The first of some records in order of their ids has the least. -/
theorem head?_stableSort_id {ns : List Negotiation} {n : Negotiation}
    (h : (stableSort (fun a b => decide (a.id < b.id)) ns).head? = some n) :
    n ∈ ns ∧ ∀ m ∈ ns, n.id ≤ m.id := by
  have hperm := stableSort_perm (fun a b : Negotiation => decide (a.id < b.id)) ns
  have hsorted := inOrder_stableSort isConsistent_id ns
  obtain ⟨rest, hrow⟩ := List.head?_eq_some_iff.mp h
  rw [hrow] at hperm hsorted
  refine ⟨hperm.subset List.mem_cons_self, fun m hm => ?_⟩
  rcases List.mem_cons.mp (hperm.symm.subset hm) with rfl | hin
  · exact String.le_refl _
  · exact String.not_lt.mp (of_decide_eq_false ((List.pairwise_cons.mp hsorted).1 m hin))

/-! ## §2. The archive's query. -/

/-- Whether a record is FINALIZED, with an agreement of an id. -/
def concludes (agreementId : String) (n : Negotiation) : Bool :=
  decide (n.agreement.map (·.id) = some agreementId) && decide (n.state = State.finalized.code)

theorem concludes_iff {agreementId : String} {n : Negotiation} :
    concludes agreementId n = true ↔ n.state = State.finalized.code
      ∧ ∃ agreement, n.agreement = some agreement ∧ agreement.id = agreementId := by
  unfold concludes
  rw [Bool.and_eq_true, decide_eq_true_iff, decide_eq_true_iff, and_comm, Option.map_eq_some_iff]

/-- The archive's query finds the records that are FINALIZED with the agreement. -/
theorem matchesAll_concludedSpec (n : Negotiation) (agreementId : String) :
    matchesAll n (Ledger.concludedSpec agreementId).filter = .ok (concludes agreementId n) := by
  have hagreement : evaluate n ⟨"contract_agreement.id", .eq, .text agreementId⟩
      = .ok (decide (n.agreement.map (·.id) = some agreementId)) := by
    show Except.ok (valuesEqual (Json.ofOption .text (n.agreement.map (·.id))) (.text agreementId))
      = _
    cases n.agreement with
    | none => rfl
    | some agreement =>
      show Except.ok (Json.text agreement.id == Json.text agreementId) = _
      by_cases hid : agreement.id = agreementId <;> simp [hid]
  have hstate : evaluate n (.hasState State.finalized.code)
      = .ok (decide (n.state = State.finalized.code)) := by
    show Except.ok (valuesEqual (.int n.state) (.int State.finalized.code)) = _
    rw [valuesEqual_stateCode]
  show matchesAll n [⟨"contract_agreement.id", .eq, .text agreementId⟩,
    .hasState State.finalized.code] = _
  unfold matchesAll matchesAll matchesAll concludes
  rw [hagreement, hstate]
  cases decide (n.agreement.map (·.id) = some agreementId) <;>
    cases decide (n.state = State.finalized.code) <;> rfl

end Query

/-! ## §3. The archive's answer. -/

namespace Ledger

open Parley.Query

/-- What the archive says of an agreement: nothing if no negotiation concludes it, and else the policy
in the one with the least id. -/
inductive Archives (l : Ledger) (agreementId : String) : Option Policy → Prop
  | none (hnone : ∀ id n, l.content id = some n → concludes agreementId n = false) :
      Archives l agreementId none
  | found (n : Negotiation) (agreement : Agreement) (hn : l.content n.id = some n)
      (hconcludes : concludes agreementId n = true) (hagreement : n.agreement = some agreement)
      (hleast : ∀ id m, l.content id = some m → concludes agreementId m = true → n.id ≤ id) :
      Archives l agreementId (some agreement.policy)

/-- A lease has no part in whether a record concludes an agreement. -/
theorem concludes_withLease (agreementId : String) (n : Negotiation) (lease : Option Lease) :
    concludes agreementId (n.withLease lease) = concludes agreementId n := rfl

/-- The archive has an answer, whatever is stored. -/
theorem archives (l : Ledger) (agreementId : String) :
    ∃ answer, l.findPolicy agreementId = .ok answer ∧ l.Archives agreementId answer := by
  have hfound : filterAll (fun n => matchesAll n (concludedSpec agreementId).filter) l.entries
      = .ok (l.entries.filter (concludes agreementId)) :=
    filterAll_of_total _ fun n _ => matchesAll_concludedSpec n agreementId
  have hquery : l.query (concludedSpec agreementId)
      = .ok (some ((stableSort (fun a b => decide (a.id < b.id))
          (l.entries.filter (concludes agreementId))).take 1)) := by
    have hsorted : mergeSort? (concludedSpec agreementId).less
        (l.entries.filter (concludes agreementId)) = some _ := mergeSort?_eq isConsistent_id _
    unfold query resolve
    rw [hfound]
    simp only [hsorted]
    rfl
  unfold findPolicy
  rw [hquery]
  simp only [Option.bind_some, List.head?_take, if_neg Nat.one_ne_zero]
  refine ⟨_, rfl, ?_⟩
  cases hhead : (stableSort (fun a b => decide (a.id < b.id))
      (l.entries.filter (concludes agreementId))).head? with
  | none =>
    have hempty : l.entries.filter (concludes agreementId) = [] := by
      have hperm := stableSort_perm (fun a b : Negotiation => decide (a.id < b.id))
        (l.entries.filter (concludes agreementId))
      rw [List.head?_eq_none_iff.mp hhead] at hperm
      exact hperm.nil_eq.symm
    refine .none fun id n hn => ?_
    obtain ⟨stored, hstored, rfl⟩ := find?_of_content hn
    rw [concludes_withLease]
    exact Bool.eq_false_iff.mpr (List.filter_eq_nil_iff.mp hempty stored (mem_of_find? hstored))
  | some n =>
    obtain ⟨hin, hleast⟩ := head?_stableSort_id hhead
    obtain ⟨hmem, hconcludes⟩ := List.mem_filter.mp hin
    obtain ⟨_, agreement, hagreement, _⟩ := concludes_iff.mp hconcludes
    have hpolicy : ((some n).bind (·.agreement)).map (·.policy) = some agreement.policy := by
      rw [Option.bind_some, hagreement]
      rfl
    rw [hpolicy]
    refine .found (n.withLease none) agreement (content_of_find? (find?_of_mem hmem)) hconcludes
      hagreement fun id m hm hconc => ?_
    obtain ⟨stored, hstored, rfl⟩ := find?_of_content hm
    rw [← id_of_find? hstored]
    exact hleast stored (List.mem_filter.mpr ⟨mem_of_find? hstored, hconc⟩)

variable {l : Ledger} {agreementId : String}

/-- A stored record concludes what its content concludes. -/
theorem concludes_of_archives_none (h : l.Archives agreementId none) {id : String} {n : Negotiation}
    (hn : l.find? id = some n) : concludes agreementId n = false := by
  cases h with
  | none hnone => exact hnone id (n.withLease none) (content_of_find? hn)

/-- The policy comes from a stored record that no other precedes. -/
theorem found_of_archives_some {p : Policy} (h : l.Archives agreementId (some p)) :
    ∃ n agreement, l.find? n.id = some n ∧ concludes agreementId n = true
      ∧ n.agreement = some agreement ∧ agreement.policy = p
      ∧ ∀ id m, l.find? id = some m → concludes agreementId m = true → n.id ≤ id := by
  cases h with
  | found n agreement hn hconcludes hagreement hleast =>
    obtain ⟨stored, hstored, hbare⟩ := find?_of_content hn
    subst hbare
    refine ⟨stored, agreement, hstored, hconcludes, hagreement, rfl, fun id m hm hconc => ?_⟩
    exact hleast id (m.withLease none) (content_of_find? hm) hconc

/-- For everything that can be stored and every id of an agreement, the archive answers: with a
policy exactly if it is that of the agreement in the record with the least id among the stored ones
that are FINALIZED and whose agreement has the id, and with nothing exactly if there is no such
record.  Neither the role of a record nor its lease, nor whether it is pending, has a part in it. -/
theorem archive_lookup_exact (l : Ledger) (agreementId : String) :
    ∃ answer, l.findPolicy agreementId = .ok answer
      ∧ (∀ p, answer = some p ↔ ∃ n agreement, l.find? n.id = some n
          ∧ n.state = State.finalized.code ∧ n.agreement = some agreement
          ∧ agreement.id = agreementId ∧ agreement.policy = p
          ∧ ∀ m other, l.find? m.id = some m → m.state = State.finalized.code →
              m.agreement = some other → other.id = agreementId → n.id ≤ m.id)
      ∧ (answer = none ↔ ¬ ∃ n agreement, l.find? n.id = some n
          ∧ n.state = State.finalized.code ∧ n.agreement = some agreement
          ∧ agreement.id = agreementId) := by
  obtain ⟨answer, hanswer, harchives⟩ := l.archives agreementId
  refine ⟨answer, hanswer, ?_⟩
  cases answer with
  | none =>
    have hnothing : ¬ ∃ n agreement, l.find? n.id = some n ∧ n.state = State.finalized.code
        ∧ n.agreement = some agreement ∧ agreement.id = agreementId := by
      rintro ⟨n, agreement, hn, hstate, hagreement, hid⟩
      have hconcludes := concludes_iff.mpr ⟨hstate, agreement, hagreement, hid⟩
      rw [concludes_of_archives_none harchives hn] at hconcludes
      cases hconcludes
    refine ⟨fun p => ⟨nofun, ?_⟩, ⟨fun _ => hnothing, fun _ => rfl⟩⟩
    rintro ⟨n, agreement, hn, hstate, hagreement, hid, _⟩
    exact absurd ⟨n, agreement, hn, hstate, hagreement, hid⟩ hnothing
  | some policy =>
    obtain ⟨n, agreement, hn, hconcludes, hagreement, rfl, hleast⟩ :=
      found_of_archives_some harchives
    obtain ⟨hstate, known, hknown, hid⟩ := concludes_iff.mp hconcludes
    rw [hagreement] at hknown
    cases hknown
    refine ⟨fun p => ⟨?_, ?_⟩, ⟨nofun, fun hnothing => ?_⟩⟩
    · intro hp
      refine ⟨n, agreement, hn, hstate, hagreement, hid, Option.some.inj hp, ?_⟩
      intro m other hm hmstate hmagreement hmid
      exact hleast m.id m hm (concludes_iff.mpr ⟨hmstate, other, hmagreement, hmid⟩)
    · rintro ⟨m, other, hm, hmstate, hmagreement, hmid, rfl, hmleast⟩
      -- Of two records with the least id there is but one.
      have hle : n.id ≤ m.id :=
        hleast m.id m hm (concludes_iff.mpr ⟨hmstate, other, hmagreement, hmid⟩)
      have hge : m.id ≤ n.id := hmleast n agreement hn hstate hagreement hid
      rw [String.le_antisymm hle hge, hm] at hn
      cases hn
      rw [hmagreement] at hagreement
      rw [Option.some.inj hagreement]
    · exact absurd ⟨n, agreement, hn, hstate, hagreement, hid⟩ hnothing

end Ledger

end Parley
