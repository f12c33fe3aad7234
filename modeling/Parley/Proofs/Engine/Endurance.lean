/-
  Parley.Proofs.Engine.Endurance
  ────────────────────────────────
  **WHAT IS WRITTEN ONCE.**

  Records are overwritten as a whole, with what was read long before or just now.
  Nothing that a record says of the parties, of what was offered and of what was
  agreed on is ever rolled back by that (`stored_endures`).

  The counter party's name for a negotiation is the one thing that is assigned
  without a look at what is there: by the answer to a request.  The answer moves
  a record on only where the request was due, and there nobody has given the
  name yet (`Negotiation.IsWellFormedIn.unnamed`).
-/
import Parley.Proofs.Engine.WellFormed

namespace Parley

/-! ## §1. What lasts. -/

/-- What lasts of a record: who negotiates and how the two reach each other, when and by what it was
made, what was offered, and, once there is one, the agreement and the other's name for it. -/
structure Negotiation.Endures (n m : Negotiation) : Prop extends n.Keeps m where
  named : ∀ name, n.correlationId = some name → m.correlationId = some name

namespace Negotiation.Endures

variable {n m k : Negotiation}

theorem refl (n : Negotiation) : n.Endures n :=
  ⟨.refl n, fun _ hname => hname⟩

theorem trans (h : n.Endures m) (h' : m.Endures k) : n.Endures k :=
  ⟨h.toKeeps.trans h'.toKeeps, fun name hname => h'.named name (h.named name hname)⟩

theorem withLease (h : n.Endures m) (lease : Option Lease) : n.Endures (m.withLease lease) :=
  ⟨h.toKeeps.withLease lease, h.named⟩

end Negotiation.Endures

/-! ## §2. The other's name. -/

/-- An offer names the negotiation only if nothing did. -/
theorem Message.correlationId_outcome_of_some (m : Message) {n : Negotiation} {name : String}
    (hname : n.correlationId = some name) (now : Instant) :
    (m.outcome n now).correlationId = some name := by
  unfold outcome enrich
  cases m.payload with
  | contractOffer offer =>
    show n.correlationId.or m.providerPid = some name
    rw [hname]
    rfl
  | termination reason policy => cases reason <;> exact hname
  | _ => exact hname

namespace Negotiation

variable {n n' : Negotiation} {w : World} {e : Engine}

theorem endures_of_makes (h : Call.Makes w n n') : n.Endures n' := by
  refine ⟨h.keeps, fun name hname => ?_⟩
  cases h with
  | accepted m haddr hok =>
    obtain ⟨_, _, _, rfl⟩ := Message.acceptedBy_eq_ok_iff.mp hok
    exact m.correlationId_outcome_of_some hname w.now
  | doomed reason hedge hn' =>
    subst hn'
    exact hname

/-- A consumer that still waits for its request to be answered knows no name. -/
theorem IsWellFormed.unnamed (h : n.IsWellFormed) (hrole : n.role = .consumer)
    (hstate : n.state = State.requesting.code) : n.correlationId = none := by
  obtain ⟨s, hs⟩ := h
  cases State.code_injective (hs.state.symm.trans hstate)
  exact hs.unnamed hrole (by decide)

theorem endures_of_turn {f : Flight} {reply : Reply} {kind : State} {now : Instant}
    (hwell : n.IsWellFormed) (hduty : Duty.send f.sending ∈ n.role.duties)
    (hawaits : n.Awaits f.sending) (hturn : Engine.Turn e f n now reply kind n')
    (hkeeps : n.Keeps n') : n.Endures n' := by
  refine ⟨hkeeps, fun name hname => ?_⟩
  cases hturn with
  | ended failure detail hcheck hlast => exact hname
  | again failure hcheck hkind hmore => exact hname
  | onward response hcheck hset =>
    by_cases hrequest : f.sending = .request
    · -- The answer to the request came while it was due.
      rw [hrequest] at hduty hawaits hcheck
      have hrole : n.role = .consumer := by
        cases hrole : n.role with
        | consumer => rfl
        | provider =>
          rw [hrole] at hduty
          exact absurd hduty (by decide)
      rw [hwell.unnamed hrole (hawaits.of_target hcheck)] at hname
      cases hname
    · exact (Engine.correlationId_gained_of_ne hrequest n response).trans hname

end Negotiation

theorem Session.Rewrites.endures {s : Session} {e : Engine} {move : Move} {n n' : Negotiation}
    (h : Rewrites e s move n n') (hwell : n.IsWellFormed) : n.Endures n' := by
  cases h with
  | called c hmove hmakes => exact Negotiation.endures_of_makes hmakes
  | decided r source target hr hrole hduty hstate hn' =>
    subst hn'
    exact ⟨(Negotiation.Keeps.refl n).enter _ _, fun _ hname => hname⟩
  | turned k reply r f kind hmove hr hk hrole hduty hawaits hleased hmessage hturn hkeeps =>
    exact Negotiation.endures_of_turn hwell hduty hawaits hturn hkeeps
  -- The guard has the record stored as it was leased, which is no older in what lasts.
  | parked r m hr hrole hm hmatter hn' =>
    subst hn'
    refine ⟨(Negotiation.keeps_of_matter hmatter).withPending true, fun name hname => ?_⟩
    have hsame : n.correlationId = m.correlationId := congrArg (·.correlationId) hmatter
    exact hsame.symm.trans hname

/-! ## §3. Over time. -/

namespace Office

variable {e : Engine} {o : Office}

theorem IsCoherent.endures (h : o.IsCoherent e) (hwell : o.Holds fun _ n => n.IsWellFormed)
    (act : Act) {id : String} {n : Negotiation} (hn : o.world.ledger.content id = some n) :
    ∃ m, (o.step e act).world.ledger.content id = some m ∧ n.Endures m := by
  cases h.becomes act id with
  | kept hcontent => exact ⟨n, hcontent.trans hn, .refl n⟩
  | rewritten role move m m' hlog hm hm' hrewrites =>
    cases hm.symm.trans hn
    exact ⟨_, hm', (hrewrites.endures (hwell.stored id _ hn)).withLease none⟩
  | opened m hnone hm hopens =>
    rw [hnone] at hn
    cases hn

/-- What is stored lasts over any number of acts. -/
theorem IsCoherent.endures_run (h : o.IsCoherent e) (hwell : o.Holds fun _ n => n.IsWellFormed)
    (acts : List Act) {id : String} {n : Negotiation}
    (hn : o.world.ledger.content id = some n) :
    ∃ m, (o.run e acts).world.ledger.content id = some m ∧ n.Endures m := by
  -- Over the acts, with the record that each of them leaves.
  induction acts generalizing o n with
  | nil => exact ⟨n, hn, .refl n⟩
  | cons act acts ih =>
    obtain ⟨m, hm, hstep⟩ := h.endures hwell act hn
    have hwell' := hwell.step (preserves_isWellFormed e) h act
    obtain ⟨k, hk, hrest⟩ := ih (h.step act) hwell' hm
    exact ⟨k, hk, hstep.trans hrest⟩

/-- No record ever disappears, and what lasts of it is at any later moment of a run what it was. -/
theorem stored_endures (e : Engine) (now : Instant) (supply : IdSupply) (acts later : List Act)
    (id : String) (n : Negotiation)
    (hn : ((blank now supply).run e acts).world.ledger.find? id = some n) :
    ∃ m, ((blank now supply).run e (acts ++ later)).world.ledger.find? id = some m
      ∧ n.Endures m := by
  have hcoherent := (isCoherent_blank e now supply).run acts
  have hwell := run_preserves (preserves_isWellFormed e) now supply acts
  obtain ⟨m, hm, hendures⟩ :=
    hcoherent.endures_run hwell later (Ledger.content_of_find? hn)
  obtain ⟨stored, hstored, rfl⟩ := Ledger.find?_of_content hm
  refine ⟨stored, by rw [run_append]; exact hstored, ?_⟩
  have hbefore : n.Endures (n.withLease none) := (Negotiation.Endures.refl n).withLease none
  have hafter : n.Endures ((stored.withLease none).withLease stored.lease) :=
    (hbefore.trans hendures).withLease stored.lease
  exact hafter

/-- The record whose request is on its way lasts when the answer gives the provider's name. -/
theorem request_endures_answer :
    let answer : Json := .members [("provider_pid", .text "theirs")]
    ∃ n m, ((blank default).run Session.unhindered untilSent).world.ledger.find? "gen-0001"
        = some n
      ∧ ((blank default).run Session.unhindered
          (untilSent ++ [.work .consumer (.land 0 (.answered answer))])).world.ledger.find?
          "gen-0001" = some m
      ∧ n.correlationId = none ∧ m.correlationId = some "theirs" ∧ n.Endures m := by
  intro answer
  have hbefore : (((blank default).run Session.unhindered untilSent).world.ledger.find?
      "gen-0001").map (·.correlationId) = some none := by decide +kernel
  have hafter : (((blank default).run Session.unhindered
      (untilSent ++ [.work .consumer (.land 0 (.answered answer))])).world.ledger.find?
      "gen-0001").map (·.correlationId) = some (some "theirs") := by decide +kernel
  obtain ⟨n, hn, hunnamed⟩ := Option.map_eq_some_iff.mp hbefore
  obtain ⟨m, hm, hendures⟩ := stored_endures Session.unhindered default .counted untilSent
    [.work .consumer (.land 0 (.answered answer))] "gen-0001" n hn
  rw [hm] at hafter
  exact ⟨n, m, hn, hm, hunnamed, Option.some.inj hafter, hendures⟩

end Office

end Parley
