/-
  Parley.Proofs.Engine.Archive
  ────────────────────────────────
  **WHEN AN ARCHIVED POLICY CHANGES.**

  A negotiation that is FINALIZED stays so, and its agreement stays what it was:
  once the archive has a policy for an agreement it has one ever after.  Nothing
  keeps two counter parties from giving their agreements one id, though.  Then
  the negotiation with the least id speaks for all of them, and it need not be
  the one that was finalized first:

      archived_policy_lasts       the policy stays until a negotiation with a
                                  lesser id and the same agreement id is FINALIZED
      archived_policy_displaced   then it is another
-/
import Parley.Proofs.Engine.Endurance
import Parley.Proofs.Engine.Graph
import Parley.Proofs.Ledger.Concluded

namespace Parley

open Parley.Query

namespace Office

variable {e : Engine} {o : Office} {id agreementId : String}

/-! ## §1. What is concluded stays concluded. -/

/-- FINALIZED is not left, whichever tick is under way. -/
theorem IsCoherent.step_finalized (h : o.IsCoherent e) (act : Act)
    (ha : o.world.ledger.state? id = some .finalized) :
    (o.step e act).world.ledger.state? id = some .finalized := by
  cases act with
  | work role chore => exact Session.step_finalized (h.steady role).coherent _ ha
  | call c =>
    unfold Office.step
    simp only
    split
    · rename_i hopen
      have hstep := Session.step_finalized (h.steady .consumer).coherent (.call c) ha
      rw [← session_call hopen] at hstep
      exact hstep
    · exact ha

theorem IsCoherent.run_finalized (h : o.IsCoherent e) (acts : List Act)
    (ha : o.world.ledger.state? id = some .finalized) :
    (o.run e acts).world.ledger.state? id = some .finalized := by
  induction acts generalizing o with
  | nil => exact ha
  | cons act acts ih => exact ih (h.step act) (h.step_finalized act ha)

/-- A negotiation that concludes an agreement does so ever after, and by the same agreement. -/
theorem IsCoherent.concludes_run (h : o.IsCoherent e)
    (hwell : o.Holds fun _ n => n.IsWellFormed) (acts : List Act) {n : Negotiation}
    {agreement : Agreement} (hn : o.world.ledger.content id = some n)
    (hconcludes : concludes agreementId n = true) (hagreement : n.agreement = some agreement) :
    ∃ m, (o.run e acts).world.ledger.content id = some m ∧ concludes agreementId m = true
      ∧ m.agreement = some agreement := by
  obtain ⟨hstate, known, hknown, hid⟩ := concludes_iff.mp hconcludes
  have hfinalized : o.world.ledger.state? id = some .finalized :=
    Ledger.state?_eq_some_iff.mpr ⟨n, hn, hstate⟩
  obtain ⟨m, hm, hcode⟩ :=
    Ledger.state?_eq_some_iff.mp (h.run_finalized acts hfinalized)
  obtain ⟨k, hk, hendures⟩ := h.endures_run hwell acts hn
  cases hk.symm.trans hm
  have hsame : m.agreement = some agreement := by
    rcases hendures.agreement with hnone | hkept
    · rw [hnone] at hagreement
      cases hagreement
    · exact hkept.trans hagreement
  refine ⟨m, hm, concludes_iff.mpr ⟨hcode, agreement, hsame, ?_⟩, hsame⟩
  rw [hagreement] at hknown
  rw [Option.some.inj hknown]
  exact hid

/-- What concludes an agreement at last did so when it was FINALIZED already. -/
theorem IsCoherent.concludes_of_finalized (h : o.IsCoherent e)
    (hwell : o.Holds fun _ n => n.IsWellFormed) (acts : List Act) {m : Negotiation}
    (hm : (o.run e acts).world.ledger.content id = some m)
    (hconcludes : concludes agreementId m = true)
    (hfinalized : o.world.ledger.state? id = some .finalized) :
    ∃ n, o.world.ledger.content id = some n ∧ concludes agreementId n = true := by
  obtain ⟨n, hn, hstate⟩ := Ledger.state?_eq_some_iff.mp hfinalized
  refine ⟨n, hn, concludes_iff.mpr ⟨hstate, ?_⟩⟩
  obtain ⟨_, agreement, hagreement, hid⟩ := concludes_iff.mp hconcludes
  obtain ⟨k, hk, hendures⟩ := h.endures_run hwell acts hn
  cases hk.symm.trans hm
  rcases hendures.agreement with hnone | hkept
  -- A negotiation is not finalized without an agreement.
  · obtain ⟨s, hs⟩ := hwell.stored id n hn
    have hsettled := hs.settled (by
      rw [State.code_injective (hs.state.symm.trans hstate)]
      decide)
    rw [hnone] at hsettled
    cases hsettled
  · exact ⟨agreement, hkept.symm.trans hagreement, hid⟩

/-! ## §2. What the archive says later. -/

/-- In every run of an engine, whatever comes in: once the archive has a policy for an agreement, it
has one at every later moment, and the same one, unless by then a negotiation was FINALIZED whose
agreement has the same id and whose own id is less than that of the negotiation that the policy came
from; then the policy is that negotiation's. -/
theorem archived_policy_lasts (e : Engine) (now : Instant) (supply : IdSupply) (before : List Act)
    (agreementId : String) (p : Policy)
    (hp : ((blank now supply).run e before).world.ledger.findPolicy agreementId = .ok (some p)) :
    ∃ n, ((blank now supply).run e before).world.ledger.find? n.id = some n
      ∧ concludes agreementId n = true ∧ n.agreement.map (·.policy) = some p
      ∧ ∀ later, ∃ q,
          (((blank now supply).run e before).run e later).world.ledger.findPolicy agreementId
            = .ok (some q)
          ∧ (q = p ∨ ∃ m,
              (((blank now supply).run e before).run e later).world.ledger.find? m.id = some m
              ∧ concludes agreementId m = true ∧ m.agreement.map (·.policy) = some q
              ∧ m.id < n.id
              ∧ ((blank now supply).run e before).world.ledger.state? m.id ≠ some .finalized) := by
  have hcoherent := (isCoherent_blank e now supply).run before
  have hwell := run_preserves (preserves_isWellFormed e) now supply before
  generalize (blank now supply).run e before = o at hp hcoherent hwell ⊢
  obtain ⟨answer, hanswer, hfound⟩ := o.world.ledger.archives agreementId
  cases hanswer.symm.trans hp
  cases hfound with
  | found n agreement hn hconcludes hagreement hleast =>
    obtain ⟨stored, hstored, hbare⟩ := Ledger.find?_of_content hn
    subst hbare
    have hid : stored.id = (stored.withLease none).id := rfl
    refine ⟨stored, hstored, hconcludes, ?_, fun later => ?_⟩
    · rw [show stored.agreement = some agreement from hagreement]
      rfl
    obtain ⟨k, hk, hkconcludes, hkagreement⟩ :=
      hcoherent.concludes_run hwell later hn hconcludes hagreement
    obtain ⟨answer, hanswer, hlater⟩ := (o.run e later).world.ledger.archives agreementId
    cases hlater with
    | none hnone =>
      rw [hnone _ k hk] at hkconcludes
      cases hkconcludes
    | found m agreement' hm hmconcludes hmagreement hmleast =>
      refine ⟨agreement'.policy, hanswer, ?_⟩
      by_cases hsame : m.id = stored.id
      -- It is the same negotiation, with the same agreement.
      · rw [hsame] at hm
        cases hm.symm.trans hk
        rw [Option.some.inj (hmagreement.symm.trans hkagreement)]
        exact .inl rfl
      · have hle : m.id ≤ stored.id := hmleast _ k hk hkconcludes
        have hlt : m.id < stored.id := by
          refine String.not_le.mp fun hge => hsame (String.le_antisymm hle hge)
        obtain ⟨found, hfound, hbare'⟩ := Ledger.find?_of_content hm
        subst hbare'
        refine .inr ⟨found, hfound, hmconcludes, ?_, hlt, fun hfinalized => ?_⟩
        · rw [show found.agreement = some agreement' from hmagreement]
          rfl
        -- Had it been finalized before, it would have been the first then.
        · obtain ⟨n', hn', hconcludes'⟩ :=
            hcoherent.concludes_of_finalized hwell later hm hmconcludes hfinalized
          exact String.not_lt.mpr (hleast _ n' hn' hconcludes') hlt

/-! ## §3. One id for two agreements. -/

/-- The messages to a consumer's negotiation, which come with the id that both agreements get. -/
def brought (id : String) (inlet : Inlet) (payload : Payload) : Act :=
  .call (.notify inlet ⟨"dsp", "http://consumer", id, none, payload⟩)

/-- The terms of use of an asset that only some may use. -/
def termsFor (assignee : String) : Policy :=
  { target := some "asset", assignee := some assignee }

/-- An offer with such terms. -/
def offerFor (assignee : String) : Offer :=
  ⟨"offer", "asset", "provider", termsFor assignee⟩

/-- An agreement on such terms. -/
def agreementFor (assignee : String) : Agreement :=
  ⟨"agreement", "provider", "consumer", "asset", termsFor assignee, default⟩

/-- A tick in which all messages are answered. -/
def answeredTick (role : Role) : List Act :=
  .work role .start :: (List.replicate 7 [.work role .begin,
    .work role (.land 0 (.answered (.object []))), .work role .begin,
    .work role (.land 0 (.answered (.object []))), .work role .next]).flatten

/-- A consumer negotiates with two providers, who give their agreements the same id.  The second is
the first to finalize. -/
def untilArchived : List Act :=
  [.call (.initiate ⟨"first", "http://first", "dsp", offerFor "anyone"⟩),
   .call (.initiate ⟨"second", "http://second", "dsp", offerFor "anyone"⟩)]
    ++ answeredTick .consumer
    ++ [brought "gen-0001" .offered (.contractOffer (offerFor "first")),
        brought "gen-0002" .offered (.contractOffer (offerFor "second"))]
    ++ answeredTick .consumer
    ++ [brought "gen-0001" .agreed (.contractAgreement (agreementFor "first")),
        brought "gen-0002" .agreed (.contractAgreement (agreementFor "second"))]
    ++ answeredTick .consumer
    ++ [brought "gen-0002" .finalized (.negotiationEvent .finalized)]

/-- Later the first finalizes too. -/
def firstFinalizes : List Act :=
  [brought "gen-0001" .finalized (.negotiationEvent .finalized)]

theorem findPolicy_untilArchived :
    ((blank default).run Session.unhindered untilArchived).world.ledger.findPolicy "agreement"
      = .ok (some (termsFor "second")) := by
  decide +kernel

theorem findPolicy_firstFinalizes :
    (((blank default).run Session.unhindered untilArchived).run Session.unhindered
        firstFinalizes).world.ledger.findPolicy "agreement"
      = .ok (some (termsFor "first")) := by
  decide +kernel

/-- The archived policy is another from one moment to the next. -/
theorem archived_policy_displaced :
    ((blank default).run Session.unhindered untilArchived).world.ledger.findPolicy "agreement"
        = .ok (some (termsFor "second"))
      ∧ (((blank default).run Session.unhindered untilArchived).run Session.unhindered
          firstFinalizes).world.ledger.findPolicy "agreement"
        = .ok (some (termsFor "first"))
      ∧ termsFor "second" ≠ termsFor "first" :=
  ⟨findPolicy_untilArchived, findPolicy_firstFinalizes, by decide⟩

/-- The one that has come instead is of a negotiation that was not finalized before. -/
theorem displaced_by_first :
    ((blank default).run Session.unhindered untilArchived).world.ledger.findPolicy "agreement"
        = .ok (some (termsFor "second"))
      ∧ ∃ m, (((blank default).run Session.unhindered untilArchived).run Session.unhindered
            firstFinalizes).world.ledger.find? m.id = some m
        ∧ m.agreement.map (·.policy) = some (termsFor "first")
        ∧ ((blank default).run Session.unhindered untilArchived).world.ledger.state? m.id
            ≠ some .finalized := by
  obtain ⟨n, _, _, _, hlater⟩ := archived_policy_lasts Session.unhindered default .counted
    untilArchived "agreement" (termsFor "second") findPolicy_untilArchived
  obtain ⟨q, hq, hcases⟩ := hlater firstFinalizes
  cases findPolicy_firstFinalizes.symm.trans hq
  rcases hcases with hsame | ⟨m, hm, _, hpolicy, _, hstate⟩
  · exact absurd hsame (by decide)
  · exact ⟨findPolicy_untilArchived, m, hm, hpolicy, hstate⟩

end Office

end Parley
