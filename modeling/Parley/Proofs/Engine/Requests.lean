/-
  Parley.Proofs.Engine.Requests
  ────────────────────────────────
  **ONE RECORD FOR A CONTRACT REQUEST.**

  A contract request is looked for by the consumer's name for the negotiation,
  and the first record with that name decides, in whatever order the store lists
  its records.  If it is a provider's, the request made it and is answered with
  it; otherwise the request makes a new record.

  The names that consumers have from their providers are looked through as well.
  So there is one record for a request as long as no consumer's record has the
  same name, and as soon as one does, some order of the records has the request
  make another (`one_provider_unless_shared`).
-/
import Parley.Proofs.Engine.Calls
import Parley.Proofs.Engine.Endurance
import Parley.Proofs.Ledger.Names

namespace Parley

/-! ## §1. A request that comes again. -/

namespace Engine

variable {e : Engine} {w : World}

/-- What a contract request that is not known does to a world shows. -/
theorem notify_requested_of_unknown (hw : w.ledger.HeldBy e.handle.holder) {m : Message}
    {offer : Offer} {callbackAddress consumerId : String}
    (hm : m.payload = .contractRequest offer callbackAddress consumerId)
    (hunknown : knownRequest? m.consumerPid w.ledger = none) :
    (e.notify .direct .requested m w).2 ≠ w := by
  intro hsame
  have hrun : (e.notifyRequested .direct m w).2 = w := hsame
  rw [notifyRequested_direct hw hm] at hrun
  unfold requested at hrun
  rw [hunknown] at hrun
  -- An id was drawn.
  have hdrawn : w.supply.drawn + 1 = w.supply.drawn := congrArg (·.supply.drawn) hrun
  omega

theorem notify_requested_of_known (hw : w.ledger.HeldBy e.handle.holder) {m : Message}
    {offer : Offer} {callbackAddress consumerId : String}
    (hm : m.payload = .contractRequest offer callbackAddress consumerId) {n : Negotiation}
    (hknown : knownRequest? m.consumerPid w.ledger = some n) :
    e.notify .direct .requested m w = (.ok n, w) := by
  show e.notifyRequested .direct m w = (.ok n, w)
  rw [notifyRequested_direct hw hm]
  unfold requested
  rw [hknown]

end Engine

/-! ## §2. Runs in which the records are listed in any order. -/

namespace Office

variable {e : Engine} {o : Office}

/-- The office with another ledger. -/
def withLedger (o : Office) (l : Ledger) : Office :=
  { o with world := o.world.withLedger l }

/-- What an engine can come to that begins without records, when its store may list them in another
order after every act. -/
inductive IsReached (e : Engine) (now : Instant) : Office → Prop
  | blank (supply : IdSupply) : IsReached e now (Office.blank now supply)
  | step {o : Office} (h : IsReached e now o) (act : Act) : IsReached e now (o.step e act)
  | rearranged {o : Office} (h : IsReached e now o) {l : Ledger}
      (hl : o.world.ledger.Rearranges l) : IsReached e now (o.withLedger l)

theorem isReached_run (e : Engine) (now : Instant) (supply : IdSupply) (acts : List Act) :
    ((blank now supply).run e acts).IsReached e now := by
  have hrun (o : Office) (h : o.IsReached e now) : (o.run e acts).IsReached e now := by
    induction acts generalizing o with
    | nil => exact h
    | cons act acts ih => exact ih _ (h.step act)
  exact hrun _ (.blank supply)

/-- Coherence does not depend on the order of the records. -/
theorem IsCoherent.rearranged (h : o.IsCoherent e) {l : Ledger}
    (hl : o.world.ledger.Rearranges l) : (o.withLedger l).IsCoherent e where
  steady role := by
    have horderly := (h.steady role).coherent.orderly
    exact (h.steady role).congr
      (horderly.quiet (hl.heldBy horderly.held) hl.content rfl) fun r hr n hn => hl.content n.id
  role := h.role

theorem Holds.rearranged {P : List (Flight × Reply) → Negotiation → Prop} (h : o.Holds P)
    {l : Ledger} (hl : o.world.ledger.Rearranges l) : (o.withLedger l).Holds P where
  stored id n hn := h.stored id n ((hl.content id).symm.trans hn)
  leased := h.leased

/-! ## §3. Where a provider's record has its name from. -/

variable {name id : String} {p' : Negotiation}

/-- Where a provider's record that has a name comes from: it had the name, or a request for which
none was found has just made it. -/
inductive Origin (o : Office) (name id : String) : Prop
  | before (p : Negotiation) (hp : o.world.ledger.IsNamed .provider name id p)
  | requested (hid : id = o.world.nextId)
      (hunknown : Engine.knownRequest? name o.world.ledger = none)

theorem origin_of_keeps {n n' : Negotiation} (hn : o.world.ledger.content id = some n)
    (hkeeps : n.Keeps n') (hrole : n'.role = .provider) (hnamed : n'.correlationId = some name) :
    o.Origin name id := by
  have hprovider : n.role = .provider := hkeeps.role.symm.trans hrole
  exact .before n ⟨hn, hprovider, (hkeeps.correlationId hprovider).symm.trans hnamed⟩

theorem origin_of_call (h : o.IsCoherent e) (c : Call)
    (hp : (c.run e o.world).ledger.IsNamed .provider name id p') : o.Origin name id := by
  cases Call.touches (h.steady .consumer).coherent.orderly.held c id with
  | kept hcontent => exact .before p' (hp.congr hcontent.symm)
  | accepted inlet m n hcall haddr hpid hn hok hn' =>
    cases hn'.symm.trans hp.content
    exact origin_of_keeps hn (Call.keeps_of_accepted haddr hok) hp.role hp.named
  | doomed reason n hcall hn hedge hn' =>
    cases hn'.symm.trans hp.content
    have hmakes : Call.Makes o.world n (Engine.doomed n reason o.world.now) :=
      .doomed reason hedge rfl
    exact origin_of_keeps hn hmakes.keeps hp.role hp.named
  | initiated r hcall hid hn' =>
    cases hn'.symm.trans hp.content
    cases hp.role
  | requested inlet m offer callbackAddress consumerId hcall hid hunknown hn' =>
    cases hn'.symm.trans hp.content
    cases hp.named
    exact .requested hid hunknown

theorem origin_of_step (h : o.IsCoherent e) (act : Act)
    (hp : (o.step e act).world.ledger.IsNamed .provider name id p') : o.Origin name id := by
  cases act with
  | call c =>
    by_cases hopen : o.isOpen = true
    · have hstep : o.step e (.call c) = { o with world := c.run e o.world } := if_pos hopen
      rw [hstep] at hp
      exact origin_of_call h c hp
    · have hstep : o.step e (.call c) = o := if_neg hopen
      rw [hstep] at hp
      exact .before p' hp
  | work role chore =>
    cases (h.steady role).becomes (chore.move role) id with
    | kept hcontent => exact .before p' (hp.congr hcontent.symm)
    | opened c n hmove hnone hn hopens => exact (chore.move_ne_call role c hmove).elim
    | rewritten n n' hn hn' hrewrites =>
      cases hn'.symm.trans hp.content
      exact origin_of_keeps hn hrewrites.keeps hp.role hp.named

/-! ## §4. One record. -/

/-- A consumer's record keeps its name. -/
theorem IsCoherent.hasNamed (h : o.IsCoherent e) (hwell : o.Holds fun _ n => n.IsWellFormed)
    (act : Act) (hc : o.world.ledger.HasNamed .consumer name) :
    (o.step e act).world.ledger.HasNamed .consumer name := by
  obtain ⟨id, c, hc⟩ := hc
  obtain ⟨c', hc', hendures⟩ := h.endures hwell act hc.content
  exact ⟨id, c', hc', hendures.role.trans hc.role, hendures.named name hc.named⟩

theorem IsCoherent.isUnambiguous (h : o.IsCoherent e)
    (hwell : o.Holds fun _ n => n.IsWellFormed) (hl : o.world.ledger.IsUnambiguous) (act : Act) :
    (o.step e act).world.ledger.IsUnambiguous := by
  intro name id id' p p' hp hp' hne
  refine h.hasNamed hwell act ?_
  cases origin_of_step h act hp with
  | before q hq =>
    cases origin_of_step h act hp' with
    | before q' hq' => exact hl name id id' q q' hq hq' hne
    | requested hid hunknown => exact Ledger.hasNamed_of_unknown ⟨id, q, hq⟩ hunknown
  | requested hid hunknown =>
    cases origin_of_step h act hp' with
    | before q' hq' => exact Ledger.hasNamed_of_unknown ⟨id', q', hq'⟩ hunknown
    -- One act makes one record.
    | requested hid' hunknown' => exact (hne (hid.trans hid'.symm)).elim

/-- What holds of all that an engine can come to. -/
structure IsSingular (o : Office) (e : Engine) : Prop where
  coherent : o.IsCoherent e
  wellFormed : o.Holds fun _ n => n.IsWellFormed
  unambiguous : o.world.ledger.IsUnambiguous

theorem IsReached.isSingular {now : Instant} (h : o.IsReached e now) : o.IsSingular e := by
  induction h with
  | blank supply =>
    refine ⟨isCoherent_blank e now supply,
      run_preserves (preserves_isWellFormed e) now supply [], ?_⟩
    intro name id id' p p' hp
    cases hp.content
  | step h act ih =>
    exact ⟨ih.coherent.step act,
      ih.wellFormed.step (preserves_isWellFormed e) ih.coherent act,
      ih.coherent.isUnambiguous ih.wellFormed ih.unambiguous act⟩
  | rearranged h hl ih =>
    refine ⟨ih.coherent.rearranged hl, ih.wellFormed.rearranged hl, ?_⟩
    intro name id id' p p' hp hp' hne
    have hback := fun other => (hl.content other).symm
    exact (ih.unambiguous name id id' p p' (hp.congr (hback id)) (hp'.congr (hback id'))
      hne).rearranged hl

/-- In everything that an engine can come to, two records of a provider have one name only if a
consumer's record has that name too; and a contract request that comes again is answered with the
record that it made before and changes nothing, in whatever order the records are listed, exactly if
no consumer's record has the name. -/
theorem one_provider_unless_shared (e : Engine) (now : Instant) (o : Office)
    (ho : o.IsReached e now) :
    (∀ name id id' p p', o.world.ledger.IsNamed .provider name id p →
        o.world.ledger.IsNamed .provider name id' p' → id ≠ id' →
        o.world.ledger.HasNamed .consumer name)
      ∧ ∀ m offer callbackAddress consumerId id p,
        m.payload = .contractRequest offer callbackAddress consumerId →
        o.world.ledger.IsNamed .provider m.consumerPid id p →
        ((∀ l, o.world.ledger.Rearranges l → ∃ found,
            e.notify .direct .requested m (o.world.withLedger l)
              = (.ok found, o.world.withLedger l) ∧ found.withLease none = p)
          ↔ ¬ o.world.ledger.HasNamed .consumer m.consumerPid) := by
  have hsingular := ho.isSingular
  refine ⟨hsingular.unambiguous, fun m offer callbackAddress consumerId id p hm hp => ?_⟩
  have hheld (l : Ledger) (hl : o.world.ledger.Rearranges l) :
      (o.world.withLedger l).ledger.HeldBy e.handle.holder :=
    hl.heldBy (hsingular.coherent.steady .consumer).coherent.orderly.held
  constructor
  · rintro hagain ⟨other, c, hc⟩
    -- Listed first, the consumer's record hides the provider's.
    obtain ⟨stored, hstored, rfl⟩ := Ledger.find?_of_content hc.content
    obtain ⟨l, hl, hhead⟩ := Ledger.exists_rearranges_head (Ledger.mem_of_find? hstored)
    obtain ⟨found, hfound, _⟩ := hagain l hl
    have hunknown := Ledger.unknown_of_head hhead hc.role hc.named
    exact Engine.notify_requested_of_unknown (hheld l hl) hm hunknown (congrArg Prod.snd hfound)
  · intro hshared l hl
    have hp' := hp.congr (hl.content id)
    have hlookup := l.lookup m.consumerPid
    cases hknown : Engine.knownRequest? m.consumerPid l with
    | none =>
      have hc := Ledger.hasNamed_of_unknown ⟨id, p, hp'⟩ hknown
      exact (hshared (hc.rearranged hl.symm)).elim
    | some found =>
      refine ⟨found, Engine.notify_requested_of_known (hheld l hl) hm hknown, ?_⟩
      rw [hknown] at hlookup
      cases hlookup with
      | provider _ hfound =>
        by_cases hid : found.id = id
        · rw [hid] at hfound
          exact Option.some.inj (hfound.content.symm.trans hp'.content)
        · have hback := hfound.congr (hl.content found.id).symm
          exact (hshared (hsingular.unambiguous _ _ _ _ _ hback hp hid)).elim

/-- A consumer's request is sent and answered, and the tick ends. -/
def untilRequested : List Act :=
  untilSent ++ [.work .consumer (.land 0 (.answered (.members [("provider_pid", .text "theirs")])))]
    ++ List.replicate 8 (.work .consumer .next)

/-- A request from one that calls the negotiation as the provider of another one does. -/
def namesake : Message where
  protocol := "dsp"
  counterPartyAddress := "http://consumer"
  consumerPid := "theirs"
  providerPid := none
  payload := .contractRequest ⟨"offer", "asset", "consumer", {}⟩ "http://consumer" "consumer"

/-- A consumer's request is sent and answered, and a request with the provider's name for the
negotiation comes twice. -/
def untilNamesakes : List Act :=
  untilRequested ++ List.replicate 2 (.call (.notify .requested namesake))

/-- There are two records for one request, beside a consumer's record with the same name. -/
theorem two_records_for_one_request :
    ((blank default).run Session.unhindered untilNamesakes).IsReached Session.unhindered default
      ∧ ∃ p p', ((blank default).run Session.unhindered untilNamesakes).world.ledger.IsNamed
            .provider "theirs" "gen-0002" p
          ∧ ((blank default).run Session.unhindered untilNamesakes).world.ledger.IsNamed
            .provider "theirs" "gen-0003" p'
          ∧ ((blank default).run Session.unhindered untilNamesakes).world.ledger.HasNamed
            .consumer "theirs" := by
  have hreached := isReached_run Session.unhindered default .counted untilNamesakes
  have hnamed (id : String)
      (h : (((blank default).run Session.unhindered untilNamesakes).world.ledger.content id).map
        (fun n => (n.role, n.correlationId)) = some (.provider, some "theirs")) :
      ∃ p, ((blank default).run Session.unhindered untilNamesakes).world.ledger.IsNamed
        .provider "theirs" id p := by
    obtain ⟨p, hp, hsays⟩ := Option.map_eq_some_iff.mp h
    obtain ⟨hrole, hname⟩ := Prod.mk.inj hsays
    exact ⟨p, hp, hrole, hname⟩
  obtain ⟨p, hp⟩ := hnamed "gen-0002" (by decide +kernel)
  obtain ⟨p', hp'⟩ := hnamed "gen-0003" (by decide +kernel)
  have hshared := (one_provider_unless_shared Session.unhindered default _ hreached).1 "theirs"
    "gen-0002" "gen-0003" p p' hp hp' (by decide)
  exact ⟨hreached, p, p', hp, hp', hshared⟩

end Office

end Parley
