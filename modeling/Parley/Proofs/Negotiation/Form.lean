/-
  Parley.Proofs.Negotiation.Form
  ────────────────────────────────
  **RECORDS COME BACK FROM THEIR DATA.**

  A writer and a reader fit together if what is written reads back, and nothing
  is read that could not be written (`Json.Fits`).  They do for texts, numbers,
  dates and lists; a record's do if those of its fields do, since its object has
  each key once (`findEntry_object`) and a field is found under its key.
  Negotiations and messages fit together whatever their optional parts, rules
  and dates (`Negotiation.fits`, `Envelope.fits`); what their texts are read as
  is another matter (Parley.Proofs.Negotiation.Texts).
-/
import Parley.Negotiation.Form
import Parley.Proofs.Text.Entries
import Parley.Proofs.Time.Timestamp

namespace Parley

/-! ## §1. Writers and readers. -/

namespace Json

/-- A writer and a reader fit together, for values with a property: such a value is read from what is
written of it, which is not null; and every value that is read has the property. -/
structure Fits (write : α → Json) (read : Json → Option α) (P : α → Prop) : Prop where
  present : ∀ a, write a ≠ .null
  restores : ∀ a, P a → read (write a) = some a
  sound : ∀ j a, read j = some a → P a

variable {write : α → Json} {read : Json → Option α} {P : α → Prop}

theorem fits_text : Fits .text text? fun _ => True where
  present _ := Json.noConfusion
  restores _ _ := rfl
  sound _ _ _ := trivial

theorem fits_bool : Fits .bool bool? fun _ => True where
  present _ := Json.noConfusion
  restores _ _ := rfl
  sound _ _ _ := trivial

theorem fits_array : Fits .array items? fun _ => True where
  present _ := Json.noConfusion
  restores _ _ := rfl
  sound _ _ _ := trivial

theorem fits_intWithin (low high : Int) :
    Fits .int (intWithin? low high) fun n => low ≤ n ∧ n ≤ high where
  present _ := Json.noConfusion
  restores _ hn := if_pos hn
  sound j n h := by
    unfold intWithin? at h
    split at h
    · split at h
      · cases h
        assumption
      · cases h
    · cases h

theorem fits_natUpTo (high : Nat) :
    Fits (fun n : Nat => .int n) (natUpTo? high) fun n => n ≤ high where
  present _ := Json.noConfusion
  restores n hn := by
    unfold natUpTo?
    rw [(fits_intWithin 0 high).restores n ⟨Int.natCast_nonneg n, Int.ofNat_le.mpr hn⟩]
    rfl
  sound j n h := by
    obtain ⟨k, hk, rfl⟩ := Option.map_eq_some_iff.mp h
    have hwithin := (fits_intWithin 0 high).sound j k hk
    omega

/-- Items are written and read one by one. -/
theorem mapM_map {β : Type} {put : α → β} {get : β → Option α} {as : List α}
    (h : ∀ a ∈ as, get (put a) = some a) : (as.map put).mapM get = some as := by
  induction as with
  | nil => rfl
  | cons a as ih =>
    rw [List.map_cons, List.mapM_cons, h a List.mem_cons_self,
      ih fun b hb => h b (List.mem_cons_of_mem a hb)]
    rfl

theorem of_mapM {β : Type} {get : β → Option α} {items : List β} {as : List α}
    (h : items.mapM get = some as) {a : α} (ha : a ∈ as) : ∃ item, get item = some a := by
  induction items generalizing as with
  | nil =>
    cases h
    cases ha
  | cons item items ih =>
    rw [List.mapM_cons] at h
    obtain ⟨b, hb, h⟩ := Option.bind_eq_some_iff.mp h
    obtain ⟨bs, hbs, h⟩ := Option.bind_eq_some_iff.mp h
    cases h
    rcases List.mem_cons.mp ha with rfl | hin
    · exact ⟨item, hb⟩
    · exact ih hbs hin

/-- Lists of what fits together fit together. -/
theorem Fits.list (h : Fits write read P) :
    Fits (ofList write) (listOf? read) fun as => ∀ a ∈ as, P a where
  present _ := Json.noConfusion
  restores as has := mapM_map fun a ha => h.restores a (has a ha)
  sound j as hread a ha := by
    unfold listOf? at hread
    split at hread
    · obtain ⟨item, hitem⟩ := of_mapM hread ha
      exact h.sound item a hitem
    · cases hread

/-- Named choices fit together if the names tell them apart. -/
theorem fits_choice {name : α → String} {find : String → Option α} (buffered : Bool)
    (h : ∀ a, find (name a) = some a) :
    Fits (fun a => .text (name a)) (choice? buffered find) fun _ => True where
  present _ := Json.noConfusion
  restores a _ := h a
  sound _ _ _ := trivial

/-- What is written of values with a property reads back as it was, so that different ones are
written differently; and what is written of anything that was read, however it was written before,
is read and written as it is. -/
structure RoundTrips (write : α → Json) (read : Json → Option α) (P : α → Prop) : Prop where
  restored : ∀ a, P a → read (write a) = some a
  distinct : ∀ a b, P a → P b → write a = write b → a = b
  settled : ∀ j k, (read j).map write = some k → (read k).map write = some k

theorem Fits.roundTrips (h : Fits write read P) : RoundTrips write read P where
  restored := h.restores
  distinct a b ha hb heq := by
    have hread : read (write a) = some b := heq ▸ h.restores b hb
    rw [h.restores a ha] at hread
    exact Option.some.inj hread
  settled j k hk := by
    obtain ⟨a, hread, rfl⟩ := Option.map_eq_some_iff.mp hk
    rw [h.restores a (h.sound j a hread)]
    rfl

/-! ## §2. Fields. -/

variable {f : Fields} {key : String}

theorem Fits.required (h : Fits write read P) {a : α} (hfind : f.find key = some (write a))
    (ha : P a) : f.required key read = some a := by
  unfold Fields.required
  rw [hfind]
  exact h.restores a ha

theorem Fits.of_required (h : Fits write read P) {a : α} (hread : f.required key read = some a) :
    P a := by
  obtain ⟨j, _, hj⟩ := Option.bind_eq_some_iff.mp hread
  exact h.sound j a hj

theorem Fits.optional (h : Fits write read P) {a : Option α}
    (hfind : f.find key = some (ofOption write a)) (ha : ∀ x ∈ a, P x) :
    f.optional key read = some a := by
  unfold Fields.optional
  rw [hfind]
  cases a with
  | none => rfl
  | some a =>
    -- What is there is not written as null.
    have hpresent := h.present a
    have hrestores := h.restores a (ha a rfl)
    rw [show ofOption write (some a) = write a from rfl]
    generalize write a = v at hpresent hrestores ⊢
    cases v with
    | null => exact absurd rfl hpresent
    | _ =>
      simp only
      rw [hrestores]
      rfl

theorem Fits.of_optional (h : Fits write read P) {a : Option α}
    (hread : f.optional key read = some a) : ∀ x ∈ a, P x := by
  unfold Fields.optional at hread
  rintro x rfl
  split at hread
  · split at hread <;> cases hread
  · cases hread
  · obtain ⟨y, hy, hxy⟩ := Option.map_eq_some_iff.mp hread
    cases hxy
    exact h.sound _ _ hy

theorem Fits.defaulted (h : Fits write read P) {a : α} (default : α)
    (hfind : f.find key = some (write a)) (ha : P a) : f.defaulted key default read = some a := by
  unfold Fields.defaulted
  rw [hfind]
  exact h.restores a ha

/-- A record is read from an object that has its fields by name, and each once. -/
theorem of_object {names : List String} {entries : List (String × Json)} {a : α}
    {go : Fields → Option α} (hnames : entries.map (·.1) = names) (hnodup : names.Nodup)
    (h : ∀ f : Fields, (∀ key v, (key, v) ∈ entries → f.find key = some v) → go f = some a) :
    (Fields.of? names (object entries) >>= go) = some a := by
  subst hnames
  exact h ⟨false, fun key => findEntry key (sortEntries entries)⟩ fun key v hin =>
    findEntry_object hnodup hin

/-- A record that is always an object: of a key that is not there, nothing is found. -/
theorem of_members {entries : List (String × Json)} {a : α} {go : Fields → Option α}
    (hkeys : (entries.map (·.1)).Nodup)
    (h : ∀ f : Fields, (∀ key v, (key, v) ∈ entries → f.find key = some v) →
      (∀ key, key ∉ entries.map (·.1) → f.find key = none) → go f = some a) :
    (Fields.ofMembers? (object entries) >>= go) = some a :=
  h ⟨false, fun key => findEntry key (sortEntries entries)⟩
    (fun _ _ hin => findEntry_object hkeys hin) fun _ hout => findEntry_object_none hout

end Json

open Json

/-! ## §3. The parts of records. -/

theorem Instant.fits : Fits Instant.toJson Instant.ofJson? Instant.IsDated where
  present _ := Json.noConfusion
  restores t ht := by
    unfold Instant.ofJson? Instant.toJson text?
    rw [Option.bind_some]
    exact Timestamp.parse?_render ht
  sound j t h := by
    obtain ⟨s, _, hs⟩ := Option.bind_eq_some_iff.mp h
    exact Timestamp.isDated_of_read? hs

theorem Role.fits : Fits Role.toJson Role.ofJson? fun _ => True where
  present _ := Json.noConfusion
  restores role _ := Role.ofTag?_tag role
  sound _ _ _ := trivial

theorem Policy.fits : Fits Policy.toJson Policy.ofJson? fun _ => True where
  present _ := Json.noConfusion
  sound _ _ _ := trivial
  restores p _ := by
    unfold Policy.ofJson? Policy.toJson
    refine of_object rfl (by decide) fun f hfind => ?_
    have huid : f.optional "uid" text? = some p.uid :=
      fits_text.optional (hfind _ _ (by simp)) fun _ _ => trivial
    have hpermissions : f.defaulted "permissions" [] items? = some p.permissions :=
      fits_array.defaulted [] (hfind _ _ (by simp)) trivial
    have hprohibitions : f.defaulted "prohibitions" [] items? = some p.prohibitions :=
      fits_array.defaulted [] (hfind _ _ (by simp)) trivial
    have hobligations : f.defaulted "obligations" [] items? = some p.obligations :=
      fits_array.defaulted [] (hfind _ _ (by simp)) trivial
    have htarget : f.optional "target" text? = some p.target :=
      fits_text.optional (hfind _ _ (by simp)) fun _ _ => trivial
    have hassigner : f.optional "assigner" text? = some p.assigner :=
      fits_text.optional (hfind _ _ (by simp)) fun _ _ => trivial
    have hassignee : f.optional "assignee" text? = some p.assignee :=
      fits_text.optional (hfind _ _ (by simp)) fun _ _ => trivial
    rw [huid, hpermissions, hprohibitions, hobligations, htarget, hassigner, hassignee]
    rfl

theorem Offer.fits : Fits Offer.toJson Offer.ofJson? fun _ => True where
  present _ := Json.noConfusion
  sound _ _ _ := trivial
  restores o _ := by
    unfold Offer.ofJson? Offer.toJson
    refine of_object rfl (by decide) fun f hfind => ?_
    have hid : f.required "id" text? = some o.id :=
      fits_text.required (hfind _ _ (by simp)) trivial
    have hasset : f.required "asset_id" text? = some o.assetId :=
      fits_text.required (hfind _ _ (by simp)) trivial
    have hprovider : f.required "provider_id" text? = some o.providerId :=
      fits_text.required (hfind _ _ (by simp)) trivial
    have hpolicy : f.required "policy" Policy.ofJson? = some o.policy :=
      Policy.fits.required (hfind _ _ (by simp)) trivial
    rw [hid, hasset, hprovider, hpolicy]
    rfl

/-- An agreement that can be written has a signing date. -/
def Agreement.IsWritable (a : Agreement) : Prop :=
  a.signingDate.IsDated

theorem Agreement.fits : Fits Agreement.toJson Agreement.ofJson? Agreement.IsWritable where
  present _ := Json.noConfusion
  restores a ha := by
    unfold Agreement.ofJson? Agreement.toJson
    refine of_object rfl (by decide) fun f hfind => ?_
    have hid : f.required "id" text? = some a.id :=
      fits_text.required (hfind _ _ (by simp)) trivial
    have hprovider : f.required "provider_id" text? = some a.providerId :=
      fits_text.required (hfind _ _ (by simp)) trivial
    have hconsumer : f.required "consumer_id" text? = some a.consumerId :=
      fits_text.required (hfind _ _ (by simp)) trivial
    have hasset : f.required "asset_id" text? = some a.assetId :=
      fits_text.required (hfind _ _ (by simp)) trivial
    have hpolicy : f.required "policy" Policy.ofJson? = some a.policy :=
      Policy.fits.required (hfind _ _ (by simp)) trivial
    have hsigned : f.required "contract_signing_date" Instant.ofJson? = some a.signingDate :=
      Instant.fits.required (hfind _ _ (by simp)) ha
    rw [hid, hprovider, hconsumer, hasset, hpolicy, hsigned]
    rfl
  sound j a h := by
    simp only [Agreement.ofJson?, Option.bind_eq_bind, Option.bind_eq_some_iff] at h
    obtain ⟨f, _, id, _, provider, _, consumer, _, asset, _, policy, _, signed, hsigned, h⟩ := h
    cases h
    exact Instant.fits.of_required hsigned

/-- A lease that can be written has a date, and a duration of a machine word. -/
structure Lease.IsWritable (l : Lease) : Prop where
  since : l.since.IsDated
  duration : -(Word.signed64 : Int) - 1 ≤ l.duration ∧ l.duration ≤ Word.signed64

theorem Lease.fits : Fits Lease.toJson Lease.ofJson? Lease.IsWritable where
  present _ := Json.noConfusion
  restores l hl := by
    unfold Lease.ofJson? Lease.toJson
    refine of_object rfl (by decide) fun f hfind => ?_
    have hholder : f.required "leased_by" text? = some l.holder :=
      fits_text.required (hfind _ _ (by simp)) trivial
    have hsince : f.required "leased_at" Instant.ofJson? = some l.since :=
      Instant.fits.required (hfind _ _ (by simp)) hl.since
    have hduration : f.required "lease_duration_ms" signed64? = some l.duration :=
      (fits_intWithin _ _).required (hfind _ _ (by simp)) hl.duration
    rw [hholder, hsince, hduration]
    rfl
  sound j l h := by
    simp only [Lease.ofJson?, Option.bind_eq_bind, Option.bind_eq_some_iff] at h
    obtain ⟨f, _, holder, _, since, hsince, duration, hduration, h⟩ := h
    cases h
    exact ⟨Instant.fits.of_required hsince, (fits_intWithin _ _).of_required hduration⟩

theorem Dictionary.eq_empty {d : Dictionary α} (h : d.entries = []) : d = .empty := by
  obtain ⟨entries, _⟩ := d
  cases h
  rfl

theorem Dictionary.fits : Fits Dictionary.toJson Dictionary.ofJson? fun _ => True where
  present _ := Json.noConfusion
  sound _ _ _ := trivial
  restores d _ := by
    have hsorted : Ascending (d.entries.map fun e => (e.1, Json.text e.2)) :=
      List.pairwise_map.mpr d.ascending
    have hentries : (d.entries.map fun e => (e.1, Json.text e.2)).mapM
        Dictionary.ofJson?.textEntry? = some d.entries :=
      mapM_map fun e _ => rfl
    unfold Dictionary.toJson object Dictionary.ofJson?
    rw [sortEntries_of_ascending hsorted]
    simp only
    rw [hentries]
    show some (Dictionary.ofList d.entries) = some d
    obtain ⟨entries, hascending⟩ := d
    unfold Dictionary.ofList
    simp only [sortEntries_of_ascending hascending]

/-! ## §4. Negotiations. -/

/-- Book keeping that can be written has dates, and numbers that are machine words. -/
structure Lifecycle.IsWritable (c : Lifecycle) : Prop where
  state : -(Word.signed32 : Int) - 1 ≤ c.state ∧ c.state ≤ Word.signed32
  stateCount : c.stateCount ≤ Word.unsigned32
  stateTimestamp : c.stateTimestamp.IsDated
  lease : ∀ l ∈ c.lease, l.IsWritable
  createdAt : c.createdAt.IsDated
  updatedAt : c.updatedAt.IsDated

/-- The keys of book keeping, with that of the trace context. -/
def Lifecycle.keys : List String :=
  ["id", "state", "state_count", "state_timestamp", "pending", "error_detail", "lease",
    "created_at", "updated_at", "trace_context"]

variable {c : Lifecycle}

/-- Whether or not there is a trace context, no key is there twice. -/
theorem Lifecycle.nodup_toMembers {more : List (String × Json)} {names : List String}
    (hnames : more.map (·.1) = names) (hnodup : (Lifecycle.keys ++ names).Nodup) :
    ((c.toMembers ++ more).map (·.1)).Nodup := by
  have hsub : List.Sublist (c.toMembers.map (·.1)) Lifecycle.keys := by
    unfold Lifecycle.toMembers
    split
    · exact List.sublist_append_left _ ["trace_context"]
    · exact List.Sublist.refl _
  rw [List.map_append, hnames]
  exact (hsub.append (List.Sublist.refl names)).nodup hnodup

/-- Without a trace context there is no member for it. -/
theorem Lifecycle.traceContext_not_mem {more : List (String × Json)} {names : List String}
    (hnames : more.map (·.1) = names) (hmore : "trace_context" ∉ names)
    (hempty : c.traceContext.entries = []) :
    "trace_context" ∉ (c.toMembers ++ more).map (·.1) := by
  unfold Lifecycle.toMembers
  rw [if_pos hempty, List.append_nil, List.map_append, hnames, List.mem_append, not_or]
  refine ⟨?_, hmore⟩
  show "trace_context" ∉ ["id", "state", "state_count", "state_timestamp", "pending", "error_detail",
    "lease", "created_at", "updated_at"]
  decide

theorem Lifecycle.ofFields?_of_found {f : Fields} (hc : c.IsWritable)
    (hfind : ∀ key v, (key, v) ∈ c.toMembers → f.find key = some v)
    (habsent : c.traceContext.entries = [] → f.find "trace_context" = none) :
    Lifecycle.ofFields? f = some c := by
  have hcore {key : String} {v : Json} (h : (key, v) ∈ [("id", .text c.id), ("state", .int c.state),
      ("state_count", .int c.stateCount), ("state_timestamp", c.stateTimestamp.toJson),
      ("pending", .bool c.pending), ("error_detail", .ofOption .text c.errorDetail),
      ("lease", .ofOption Lease.toJson c.lease), ("created_at", c.createdAt.toJson),
      ("updated_at", c.updatedAt.toJson)]) : f.find key = some v :=
    hfind key v (List.mem_append_left _ h)
  have hid : f.required "id" text? = some c.id :=
    fits_text.required (hcore (by simp)) trivial
  have hstate : f.required "state" signed32? = some c.state :=
    (fits_intWithin _ _).required (hcore (by simp)) hc.state
  have hcount : f.required "state_count" unsigned32? = some c.stateCount :=
    (fits_natUpTo _).required (hcore (by simp)) hc.stateCount
  have hsince : f.required "state_timestamp" Instant.ofJson? = some c.stateTimestamp :=
    Instant.fits.required (hcore (by simp)) hc.stateTimestamp
  have hpending : f.required "pending" bool? = some c.pending :=
    fits_bool.required (hcore (by simp)) trivial
  have hdetail : f.optional "error_detail" text? = some c.errorDetail :=
    fits_text.optional (hcore (by simp)) fun _ _ => trivial
  have hlease : f.optional "lease" Lease.ofJson? = some c.lease :=
    Lease.fits.optional (hcore (by simp)) hc.lease
  have hcreated : f.required "created_at" Instant.ofJson? = some c.createdAt :=
    Instant.fits.required (hcore (by simp)) hc.createdAt
  have hupdated : f.required "updated_at" Instant.ofJson? = some c.updatedAt :=
    Instant.fits.required (hcore (by simp)) hc.updatedAt
  have htrace : f.defaulted "trace_context" .empty Dictionary.ofJson? = some c.traceContext := by
    by_cases hempty : c.traceContext.entries = []
    · unfold Fields.defaulted
      rw [habsent hempty, Dictionary.eq_empty hempty]
    · refine Dictionary.fits.defaulted _ (hfind _ _ (List.mem_append_right _ ?_)) trivial
      rw [if_neg hempty]
      exact List.mem_singleton_self _
  unfold Lifecycle.ofFields?
  rw [hid, hstate, hcount, hsince, hpending, hdetail, hlease, hcreated, hupdated, htrace]
  rfl

theorem Lifecycle.isWritable_of_ofFields? {f : Fields} (h : Lifecycle.ofFields? f = some c) :
    c.IsWritable := by
  simp only [Lifecycle.ofFields?, Option.bind_eq_bind, Option.bind_eq_some_iff] at h
  obtain ⟨id, _, state, hstate, count, hcount, since, hsince, pending, _, detail, _, lease, hlease,
    created, hcreated, updated, hupdated, trace, _, h⟩ := h
  cases h
  exact ⟨(fits_intWithin _ _).of_required hstate, (fits_natUpTo _).of_required hcount,
    Instant.fits.of_required hsince, Lease.fits.of_optional hlease,
    Instant.fits.of_required hcreated, Instant.fits.of_required hupdated⟩

/-- The keys of a negotiation, apart from those of its book keeping. -/
def Negotiation.keys : List String :=
  ["type", "correlation_id", "counter_party_id", "counter_party_address", "protocol",
    "contract_offers", "contract_agreement"]

/-- A negotiation that can be written has book keeping and an agreement that can be written. -/
structure Negotiation.IsWritable (n : Negotiation) : Prop where
  lifecycle : n.toLifecycle.IsWritable
  agreement : ∀ a ∈ n.agreement, a.IsWritable

theorem Negotiation.fits : Fits Negotiation.toJson Negotiation.ofJson? Negotiation.IsWritable where
  present _ := Json.noConfusion
  restores n hn := by
    have hnodup : (Lifecycle.keys ++ Negotiation.keys).Nodup := by decide
    have htrace : "trace_context" ∉ Negotiation.keys := by decide
    unfold Negotiation.ofJson? Negotiation.toJson
    refine of_members (Lifecycle.nodup_toMembers rfl hnodup) fun f hfind habsent => ?_
    have hlifecycle : Lifecycle.ofFields? f = some n.toLifecycle :=
      Lifecycle.ofFields?_of_found hn.lifecycle
        (fun key v hin => hfind key v (List.mem_append_left _ hin))
        fun hempty => habsent _ (Lifecycle.traceContext_not_mem rfl htrace hempty)
    have hrole : f.required "type" Role.ofJson? = some n.role :=
      Role.fits.required (hfind _ _ (by simp)) trivial
    have hcorrelation : f.optional "correlation_id" text? = some n.correlationId :=
      fits_text.optional (hfind _ _ (by simp)) fun _ _ => trivial
    have hparty : f.required "counter_party_id" text? = some n.counterPartyId :=
      fits_text.required (hfind _ _ (by simp)) trivial
    have haddress : f.required "counter_party_address" text? = some n.counterPartyAddress :=
      fits_text.required (hfind _ _ (by simp)) trivial
    have hprotocol : f.required "protocol" text? = some n.protocol :=
      fits_text.required (hfind _ _ (by simp)) trivial
    have hoffers : f.required "contract_offers" (listOf? Offer.ofJson?) = some n.offers :=
      Offer.fits.list.required (hfind _ _ (by simp)) fun _ _ => trivial
    have hagreement : f.optional "contract_agreement" Agreement.ofJson? = some n.agreement :=
      Agreement.fits.optional (hfind _ _ (by simp)) hn.agreement
    rw [hlifecycle, hrole, hcorrelation, hparty, haddress, hprotocol, hoffers, hagreement]
    rfl
  sound j n h := by
    simp only [Negotiation.ofJson?, Option.bind_eq_bind, Option.bind_eq_some_iff] at h
    obtain ⟨f, _, lifecycle, hlifecycle, role, _, correlation, _, party, _, address, _, protocol, _,
      offers, _, agreement, hagreement, h⟩ := h
    cases h
    exact ⟨Lifecycle.isWritable_of_ofFields? hlifecycle, Agreement.fits.of_optional hagreement⟩

/-! ## §5. Messages. -/

/-- An agreement that is sent has to be one that can be written. -/
def Payload.IsWritable : Payload → Prop
  | .contractAgreement a => a.IsWritable
  | _ => True

/-- A payload is read by its kind, which stands among its fields. -/
theorem Payload.of_tagged {kind : String} {names : List String} {entries : List (String × Json)}
    {p : Payload} {go : Fields → Option Payload}
    (hbody : ∀ j, Payload.ofBody? kind j = Fields.of? names j >>= go)
    (hnames : entries.map (·.1) = names) (hnodup : ("kind" :: names).Nodup)
    (h : ∀ f : Fields, (∀ key v, (key, v) ∈ entries → f.find key = some v) → go f = some p) :
    Payload.ofJson? (object (("kind", .text kind) :: entries)) = some p := by
  subst hnames
  have hkeys : ((("kind", Json.text kind) :: entries).map (·.1)).Nodup := hnodup
  have hkind := findEntry_object hkeys List.mem_cons_self
  unfold object Payload.ofJson?
  simp only [hkind, hbody]
  exact h ⟨false, fun key => findEntry key (sortEntries (("kind", Json.text kind) :: entries))⟩
    fun key v hin => findEntry_object hkeys (List.mem_cons_of_mem _ hin)

theorem Payload.isWritable_of_ofBody? {kind : String} {body : Json} {p : Payload}
    (h : Payload.ofBody? kind body = some p) : p.IsWritable := by
  unfold Payload.ofBody? at h
  split at h <;> first | cases h | simp only [Option.bind_eq_bind, Option.bind_eq_some_iff] at h
  · obtain ⟨_, _, _, _, _, _, _, _, h⟩ := h
    cases h
    trivial
  · obtain ⟨_, _, _, _, h⟩ := h
    cases h
    trivial
  · obtain ⟨_, _, _, _, h⟩ := h
    cases h
    trivial
  · obtain ⟨f, _, agreement, hagreement, h⟩ := h
    cases h
    exact Agreement.fits.of_required hagreement
  · obtain ⟨_, _, h⟩ := h
    cases h
    trivial
  · obtain ⟨_, _, _, _, _, _, h⟩ := h
    cases h
    trivial

theorem Milestone.fits : Fits (fun m : Milestone => .text m.name) (choice? true Milestone.ofName?)
    fun _ => True :=
  fits_choice true fun m => by cases m <;> rfl

theorem Payload.fits : Fits Payload.toJson Payload.ofJson? Payload.IsWritable where
  present p := by cases p <;> exact Json.noConfusion
  restores p hp := by
    cases p with
    | contractRequest offer callbackAddress consumerId =>
      refine of_tagged (fun _ => rfl) rfl (by decide) fun f hfind => ?_
      have hoffer : f.required "offer" Offer.ofJson? = some offer :=
        Offer.fits.required (hfind _ _ (by simp)) trivial
      have haddress : f.required "callback_address" text? = some callbackAddress :=
        fits_text.required (hfind _ _ (by simp)) trivial
      have hconsumer : f.required "consumer_id" text? = some consumerId :=
        fits_text.required (hfind _ _ (by simp)) trivial
      rw [hoffer, haddress, hconsumer]
      rfl
    | contractOffer offer =>
      refine of_tagged (fun _ => rfl) rfl (by decide) fun f hfind => ?_
      have hoffer : f.required "offer" Offer.ofJson? = some offer :=
        Offer.fits.required (hfind _ _ (by simp)) trivial
      rw [hoffer]
      rfl
    | negotiationEvent event =>
      refine of_tagged (fun _ => rfl) rfl (by decide) fun f hfind => ?_
      have hevent : f.required "event_type" (choice? true Milestone.ofName?) = some event :=
        Milestone.fits.required (hfind _ _ (by simp)) trivial
      rw [hevent]
      rfl
    | contractAgreement agreement =>
      refine of_tagged (fun _ => rfl) rfl (by decide) fun f hfind => ?_
      have hagreement : f.required "agreement" Agreement.ofJson? = some agreement :=
        Agreement.fits.required (hfind _ _ (by simp)) hp
      rw [hagreement]
      rfl
    | agreementVerification =>
      exact of_tagged (fun _ => rfl) rfl (by decide) fun _ _ => rfl
    | termination reason policy =>
      refine of_tagged (fun _ => rfl) rfl (by decide) fun f hfind => ?_
      have hreason : f.optional "reason" text? = some reason :=
        fits_text.optional (hfind _ _ (by simp)) fun _ _ => trivial
      have hpolicy : f.optional "policy" Policy.ofJson? = some policy :=
        Policy.fits.optional (hfind _ _ (by simp)) fun _ _ => trivial
      rw [hreason, hpolicy]
      rfl
  sound j p h := by
    unfold Payload.ofJson? at h
    split at h
    · split at h
      · exact Payload.isWritable_of_ofBody? h
      · cases h
    · exact Payload.isWritable_of_ofBody? h
    · cases h

/-- A message that can be written has a payload that can be written. -/
def Envelope.IsWritable (e : Envelope) : Prop :=
  e.payload.IsWritable

theorem Envelope.fits : Fits Envelope.toJson Envelope.ofJson? Envelope.IsWritable where
  present _ := Json.noConfusion
  restores e he := by
    unfold Envelope.ofJson? Envelope.toJson
    refine of_object rfl (by decide) fun f hfind => ?_
    have hid : f.required "id" text? = some e.id :=
      fits_text.required (hfind _ _ (by simp)) trivial
    have hprotocol : f.required "protocol" text? = some e.protocol :=
      fits_text.required (hfind _ _ (by simp)) trivial
    have haddress : f.required "counter_party_address" text? = some e.counterPartyAddress :=
      fits_text.required (hfind _ _ (by simp)) trivial
    have hconsumer : f.required "consumer_pid" text? = some e.consumerPid :=
      fits_text.required (hfind _ _ (by simp)) trivial
    have hprovider : f.optional "provider_pid" text? = some e.providerPid :=
      fits_text.optional (hfind _ _ (by simp)) fun _ _ => trivial
    have hpayload : f.required "payload" Payload.ofJson? = some e.payload :=
      Payload.fits.required (hfind _ _ (by simp)) he
    rw [hid, hprotocol, haddress, hconsumer, hprovider, hpayload]
    rfl
  sound j e h := by
    simp only [Envelope.ofJson?, Option.bind_eq_bind, Option.bind_eq_some_iff] at h
    obtain ⟨f, _, id, _, protocol, _, address, _, consumer, _, provider, _, payload, hpayload, h⟩ := h
    cases h
    exact Payload.fits.of_required hpayload

end Parley
