/-
  Parley.Proofs.Negotiation.Texts
  ────────────────────────────────
  **NEGOTIATIONS AND MESSAGES AS TEXTS.**

  A record is read from its data as it was (`RoundTrips`).  From its text it is
  read with the rules of its policies as their own texts are read
  (`Negotiation.reread`), since everything else in it is a text, a truth value
  or a whole number; and it is not read at all if a rule is not.  So it comes
  back as it was exactly if its rules do (`TextRoundTrips`):

      forms_restore   a negotiation or a message comes back from its data, and
                      from its text exactly if its rules survive that
-/
import Parley.Proofs.Json.Values
import Parley.Proofs.Negotiation.Form

namespace Parley

open Parley.Decimal
open Json

/-! ## §1. Values that survive. -/

namespace Json

/-- A value whose text is read as that value, within a number of levels. -/
structure Survives (levels : Nat) (j : Json) : Prop where
  legible : isLegible j levels = true
  same : reread j = j

instance (levels : Nat) (j : Json) : Decidable (Survives levels j) :=
  decidable_of_iff (isLegible j levels = true ∧ reread j = j)
    ⟨fun h => ⟨h.1, h.2⟩, fun h => ⟨h.legible, h.same⟩⟩

@[simp] theorem reread_null : reread .null = .null := by rw [reread]

@[simp] theorem reread_bool (b : Bool) : reread (.bool b) = .bool b := by rw [reread]

@[simp] theorem reread_text (s : String) : reread (.text s) = .text s := by rw [reread]

@[simp] theorem isLegible_null (levels : Nat) : isLegible .null levels = true := by
  rw [isLegible]

@[simp] theorem isLegible_bool (b : Bool) (levels : Nat) : isLegible (.bool b) levels = true := by
  rw [isLegible]

@[simp] theorem isLegible_text (s : String) (levels : Nat) : isLegible (.text s) levels = true := by
  rw [isLegible]

/-- A whole number of 64 bits survives. -/
theorem survives_int {n : Int} (hlow : -(Word.signed64 : Int) - 1 ≤ n)
    (hhigh : n ≤ Word.unsigned64) (levels : Nat) : Survives levels (.int n) where
  legible := by
    rw [isLegible, numberOfText?_int hlow hhigh]
    rfl
  same := by
    rw [reread, numberOfText?_int hlow hhigh]
    rfl

section Parts

variable {α : Type} {put : α → Json} {again : α → α} {legible : α → Bool} {levels : Nat}

theorem reread_ofOption (h : ∀ a, reread (put a) = put (again a)) (o : Option α) :
    reread (.ofOption put o) = .ofOption put (o.map again) := by
  cases o with
  | none => exact reread_null
  | some a => exact h a

theorem isLegible_ofOption (h : ∀ a, isLegible (put a) levels = legible a) (o : Option α) :
    isLegible (.ofOption put o) levels = o.all legible := by
  cases o with
  | none => exact isLegible_null levels
  | some a => exact h a

theorem reread_ofList (h : ∀ a, reread (put a) = put (again a)) (as : List α) :
    reread (.ofList put as) = .ofList put (as.map again) := by
  unfold ofList
  rw [reread_array, List.map_map, List.map_map]
  exact congrArg Json.array (List.map_congr_left fun a _ => h a)

theorem isLegible_ofList (as : List α) : isLegible (.ofList put as) (levels + 2)
    = as.all fun a => isLegible (put a) (levels + 1) := by
  unfold ofList
  rw [isLegible_array, List.all_map]
  rfl

end Parts

@[simp] theorem reread_ofText (o : Option String) :
    reread (.ofOption .text o) = .ofOption .text o := by
  cases o with
  | none => exact reread_null
  | some s => exact reread_text s

@[simp] theorem isLegible_ofText (o : Option String) (levels : Nat) :
    isLegible (.ofOption .text o) levels = true := by
  cases o with
  | none => exact isLegible_null levels
  | some s => exact isLegible_text s levels

end Json

theorem map_eq_self {f : α → α} {as : List α} : as.map f = as ↔ ∀ a ∈ as, f a = a := by
  simpa using List.map_inj_left (l := as) (f := f) (g := id)

theorem option_map_eq_self {f : α → α} {o : Option α} : o.map f = o ↔ ∀ a ∈ o, f a = a := by
  cases o <;> simp

/-! ## §2. Policies, offers, agreements. -/

/-- The rules of a policy. -/
def Policy.rules (p : Policy) : List Json :=
  p.permissions ++ p.prohibitions ++ p.obligations

/-- A policy whose rules survive within a number of levels. -/
def Policy.Survives (levels : Nat) (p : Policy) : Prop :=
  ∀ r ∈ p.rules, Json.Survives levels r

instance (levels : Nat) (p : Policy) : Decidable (p.Survives levels) :=
  inferInstanceAs (Decidable (∀ r ∈ p.rules, Json.Survives levels r))

/-- A policy as its text is read. -/
def Policy.reread (p : Policy) : Policy :=
  { p with
    permissions := p.permissions.map Json.reread
    prohibitions := p.prohibitions.map Json.reread
    obligations := p.obligations.map Json.reread }

theorem Policy.reread_toJson (p : Policy) : Json.reread p.toJson = p.reread.toJson := by
  unfold Policy.toJson
  rw [reread_object]
  simp [Policy.reread]

/-- Its rules are nested three levels deeper than a policy itself. -/
theorem Policy.survives_iff (p : Policy) (levels : Nat) : p.Survives (levels + 1)
    ↔ Json.isLegible p.toJson (levels + 3) = true ∧ p.reread = p := by
  have hlegible : Json.isLegible p.toJson (levels + 3) = true
      ↔ ∀ r ∈ p.rules, Json.isLegible r (levels + 1) = true := by
    unfold Policy.toJson
    rw [isLegible_object (by simp)]
    simp [Policy.rules, or_imp, forall_and]
  have hsame : p.reread = p ↔ ∀ r ∈ p.rules, Json.reread r = r := by
    obtain ⟨uid, permissions, prohibitions, obligations, target, assigner, assignee⟩ := p
    simp [Policy.reread, Policy.rules, map_eq_self, or_imp, forall_and]
  rw [hlegible, hsame]
  exact ⟨fun h => ⟨fun r hr => (h r hr).legible, fun r hr => (h r hr).same⟩,
    fun h r hr => ⟨h.1 r hr, h.2 r hr⟩⟩

/-- An offer as its text is read. -/
def Offer.reread (o : Offer) : Offer :=
  { o with policy := o.policy.reread }

theorem Offer.reread_toJson (o : Offer) : Json.reread o.toJson = o.reread.toJson := by
  unfold Offer.toJson
  rw [reread_object]
  simp [Offer.reread, Policy.reread_toJson]

theorem Offer.survives_iff (o : Offer) (levels : Nat) : o.policy.Survives (levels + 1)
    ↔ Json.isLegible o.toJson (levels + 4) = true ∧ o.reread = o := by
  have hlegible : Json.isLegible o.toJson (levels + 4)
      = Json.isLegible o.policy.toJson (levels + 3) := by
    unfold Offer.toJson
    rw [isLegible_object (by simp)]
    simp
  have hsame : o.reread = o ↔ o.policy.reread = o.policy := by
    obtain ⟨id, asset, provider, policy⟩ := o
    simp [Offer.reread]
  rw [hlegible, hsame]
  exact o.policy.survives_iff levels

/-- An agreement as its text is read. -/
def Agreement.reread (a : Agreement) : Agreement :=
  { a with policy := a.policy.reread }

theorem Agreement.reread_toJson (a : Agreement) : Json.reread a.toJson = a.reread.toJson := by
  unfold Agreement.toJson
  rw [reread_object]
  simp [Agreement.reread, Policy.reread_toJson, Instant.toJson]

theorem Agreement.survives_iff (a : Agreement) (levels : Nat) : a.policy.Survives (levels + 1)
    ↔ Json.isLegible a.toJson (levels + 4) = true ∧ a.reread = a := by
  have hlegible : Json.isLegible a.toJson (levels + 4)
      = Json.isLegible a.policy.toJson (levels + 3) := by
    unfold Agreement.toJson
    rw [isLegible_object (by simp)]
    simp [Instant.toJson]
  have hsame : a.reread = a ↔ a.policy.reread = a.policy := by
    obtain ⟨id, provider, consumer, asset, policy, signed⟩ := a
    simp [Agreement.reread]
  rw [hlegible, hsame]
  exact a.policy.survives_iff levels

/-! ## §3. Negotiations. -/

theorem Lease.survives {l : Lease} (hl : l.IsWritable) (levels : Nat) :
    Json.Survives (levels + 2) l.toJson := by
  have hword : (Word.signed64 : Int) ≤ Word.unsigned64 := by decide
  have hduration := survives_int hl.duration.1 (hl.duration.2.trans hword) (levels + 1)
  unfold Lease.toJson
  constructor
  · rw [isLegible_object (by simp)]
    simp [Instant.toJson, hduration.legible]
  · rw [reread_object]
    simp [Instant.toJson, hduration.same]

theorem Dictionary.survives (d : Dictionary String) (levels : Nat) :
    Json.Survives (levels + 2) d.toJson := by
  have hkeys : ((d.entries.map fun e => (e.1, Json.text e.2)).map (·.1)).Nodup := by
    rw [List.map_map]
    refine List.Pairwise.map _ (fun a b hlt heq => ?_) d.ascending
    have hkey : a.1 = b.1 := heq
    exact String.lt_irrefl _ (hkey ▸ hlt)
  unfold Dictionary.toJson
  constructor
  · rw [isLegible_object hkeys]
    simp
  · rw [reread_object, List.map_map]
    simp [Function.comp_def]

/-- Book keeping that can be written survives member by member. -/
theorem Lifecycle.survives {c : Lifecycle} (hc : c.IsWritable) (levels : Nat) :
    ∀ e ∈ c.toMembers, Json.Survives (levels + 2) e.2 := by
  have hlow : -(Word.signed64 : Int) - 1 ≤ -(Word.signed32 : Int) - 1 := by decide
  have hhigh : (Word.signed32 : Int) ≤ Word.unsigned64 := by decide
  have hstate := survives_int (hlow.trans hc.state.1) (hc.state.2.trans hhigh) (levels + 2)
  have hcount : Json.Survives (levels + 2) (.int c.stateCount) :=
    survives_int ((show -(Word.signed64 : Int) - 1 ≤ 0 by decide).trans (Int.natCast_nonneg _))
      (Int.ofNat_le.mpr (hc.stateCount.trans (by decide))) (levels + 2)
  have hlease : Json.Survives (levels + 2) (.ofOption Lease.toJson c.lease) := by
    cases hl : c.lease with
    | none => exact ⟨isLegible_null _, reread_null⟩
    | some l => exact Lease.survives (hc.lease l hl) levels
  have htext (s : String) : Json.Survives (levels + 2) (.text s) :=
    ⟨isLegible_text s _, reread_text s⟩
  intro e he
  rcases List.mem_append.mp he with hcore | htrace
  · simp only [List.mem_cons, List.not_mem_nil, or_false] at hcore
    rcases hcore with rfl | rfl | rfl | rfl | rfl | rfl | rfl | rfl | rfl
    · exact htext _
    · exact hstate
    · exact hcount
    · exact htext _
    · exact ⟨isLegible_bool _ _, reread_bool _⟩
    · exact ⟨isLegible_ofText _ _, reread_ofText _⟩
    · exact hlease
    · exact htext _
    · exact htext _
  · split at htrace
    · cases htrace
    · rw [List.mem_singleton.mp htrace]
      exact Dictionary.survives c.traceContext levels

/-- A negotiation as its text is read. -/
def Negotiation.reread (n : Negotiation) : Negotiation :=
  { n with
    offers := n.offers.map Offer.reread
    agreement := n.agreement.map Agreement.reread }

/-- A negotiation whose rules survive, where they are nested: those of an offer are on the sixth
level, those of the agreement on the fifth. -/
def Negotiation.Survives (n : Negotiation) : Prop :=
  (∀ o ∈ n.offers, o.policy.Survives 123) ∧ ∀ a ∈ n.agreement, a.policy.Survives 124

theorem Negotiation.reread_toJson {n : Negotiation} (hn : n.IsWritable) :
    Json.reread n.toJson = n.reread.toJson := by
  have hmembers : (n.toLifecycle.toMembers.map fun e => (e.1, Json.reread e.2))
      = n.toLifecycle.toMembers := by
    refine (List.map_congr_left fun e he => ?_).trans (List.map_id _)
    rw [(Lifecycle.survives hn.lifecycle 0 e he).same]
    rfl
  unfold Negotiation.toJson
  rw [reread_object, List.map_append, hmembers]
  simp [reread_ofOption Agreement.reread_toJson, reread_ofList Offer.reread_toJson,
    Negotiation.reread, Role.toJson]

theorem Negotiation.isLegible_toJson {n : Negotiation} (hn : n.IsWritable) :
    Json.isLegible n.toJson 128 = ((n.offers.all fun o => Json.isLegible o.toJson 126)
      && n.agreement.all fun a => Json.isLegible a.toJson 127) := by
  have hnodup : (Lifecycle.keys ++ Negotiation.keys).Nodup := by decide
  have hmembers : (n.toLifecycle.toMembers.all fun e => Json.isLegible e.2 127) = true :=
    List.all_eq_true.mpr fun e he => (Lifecycle.survives hn.lifecycle 125 e he).legible
  have hoffers : Json.isLegible (.ofList Offer.toJson n.offers) 127
      = n.offers.all fun o => Json.isLegible o.toJson 126 := isLegible_ofList n.offers
  have hagreement : Json.isLegible (.ofOption Agreement.toJson n.agreement) 127
      = n.agreement.all fun a => Json.isLegible a.toJson 127 :=
    isLegible_ofOption (fun _ => rfl) n.agreement
  unfold Negotiation.toJson
  refine (isLegible_object ?_ 126).trans ?_
  · exact Lifecycle.nodup_toMembers rfl hnodup
  · rw [List.all_append, hmembers]
    simp only [List.all_cons, List.all_nil, Role.toJson, isLegible_text, isLegible_ofText, hoffers,
      hagreement, Bool.true_and, Bool.and_true]

theorem Negotiation.survives_iff {n : Negotiation} (hn : n.IsWritable) :
    n.Survives ↔ Json.isLegible n.toJson 128 = true ∧ n.reread = n := by
  have hsame : n.reread = n
      ↔ (∀ o ∈ n.offers, o.reread = o) ∧ ∀ a ∈ n.agreement, a.reread = a := by
    obtain ⟨lifecycle, role, correlation, party, address, protocol, offers, agreement⟩ := n
    simp [Negotiation.reread, map_eq_self, option_map_eq_self]
  rw [hsame, Negotiation.isLegible_toJson hn, Bool.and_eq_true, List.all_eq_true, Option.all_eq_true]
  constructor
  · rintro ⟨hoffers, hagreement⟩
    exact ⟨⟨fun o ho => ((o.survives_iff 122).mp (hoffers o ho)).1,
        fun a ha => ((a.survives_iff 123).mp (hagreement a ha)).1⟩,
      fun o ho => ((o.survives_iff 122).mp (hoffers o ho)).2,
      fun a ha => ((a.survives_iff 123).mp (hagreement a ha)).2⟩
  · rintro ⟨⟨hoffers, hagreement⟩, hoffers', hagreement'⟩
    exact ⟨fun o ho => (o.survives_iff 122).mpr ⟨hoffers o ho, hoffers' o ho⟩,
      fun a ha => (a.survives_iff 123).mpr ⟨hagreement a ha, hagreement' a ha⟩⟩

/-! ## §4. Messages. -/

/-- A payload as its text is read. -/
def Payload.reread : Payload → Payload
  | .contractRequest offer callbackAddress consumerId =>
    .contractRequest offer.reread callbackAddress consumerId
  | .contractOffer offer => .contractOffer offer.reread
  | .contractAgreement agreement => .contractAgreement agreement.reread
  | .termination reason policy => .termination reason (policy.map Policy.reread)
  | payload => payload

/-- A payload whose rules survive, where they are nested in a message. -/
def Payload.Survives : Payload → Prop
  | .contractRequest offer _ _ | .contractOffer offer => offer.policy.Survives 123
  | .contractAgreement agreement => agreement.policy.Survives 123
  | .termination _ policy => ∀ p ∈ policy, p.Survives 124
  | .negotiationEvent _ | .agreementVerification => True

theorem Payload.reread_toJson (p : Payload) : Json.reread p.toJson = p.reread.toJson := by
  cases p <;> unfold Payload.toJson <;> rw [reread_object] <;>
    simp [Payload.reread, Offer.reread_toJson, Agreement.reread_toJson,
      reread_ofOption Policy.reread_toJson]

theorem Payload.isLegible_toJson (p : Payload) : Json.isLegible p.toJson 127
    = match p with
      | .contractRequest offer _ _ | .contractOffer offer => Json.isLegible offer.toJson 126
      | .contractAgreement agreement => Json.isLegible agreement.toJson 126
      | .termination _ policy => policy.all fun p => Json.isLegible p.toJson 126
      | .negotiationEvent _ | .agreementVerification => true := by
  have hpolicy (policy : Option Policy) : Json.isLegible (.ofOption Policy.toJson policy) 126
      = policy.all fun p => Json.isLegible p.toJson 126 := isLegible_ofOption (fun _ => rfl) policy
  cases p <;> unfold Payload.toJson <;> rw [isLegible_object (by simp)] <;> simp [hpolicy]

theorem Payload.survives_iff (p : Payload) :
    p.Survives ↔ Json.isLegible p.toJson 127 = true ∧ p.reread = p := by
  rw [Payload.isLegible_toJson]
  cases p with
  | contractRequest offer callbackAddress consumerId =>
    exact (offer.survives_iff 122).trans (and_congr_right' (by simp [Payload.reread]))
  | contractOffer offer =>
    exact (offer.survives_iff 122).trans (and_congr_right' (by simp [Payload.reread]))
  | contractAgreement agreement =>
    exact (agreement.survives_iff 122).trans (and_congr_right' (by simp [Payload.reread]))
  | termination reason policy =>
    cases policy with
    | none => exact ⟨fun _ => ⟨rfl, rfl⟩, fun _ => nofun⟩
    | some p =>
      have hone : Payload.Survives (.termination reason (some p)) ↔ p.Survives 124 :=
        ⟨fun h => h p rfl, fun h q hq => Option.some.inj hq ▸ h⟩
      simp only [Option.all_some]
      exact hone.trans ((p.survives_iff 123).trans (and_congr_right' (by simp [Payload.reread])))
  | negotiationEvent event => exact ⟨fun _ => ⟨rfl, rfl⟩, fun _ => trivial⟩
  | agreementVerification => exact ⟨fun _ => ⟨rfl, rfl⟩, fun _ => trivial⟩

/-- A message as its text is read. -/
def Envelope.reread (e : Envelope) : Envelope :=
  { e with payload := e.payload.reread }

/-- A message whose rules survive. -/
def Envelope.Survives (e : Envelope) : Prop :=
  e.payload.Survives

theorem Envelope.reread_toJson (e : Envelope) : Json.reread e.toJson = e.reread.toJson := by
  unfold Envelope.toJson
  rw [reread_object]
  simp [Envelope.reread, Payload.reread_toJson]

theorem Envelope.survives_iff (e : Envelope) :
    e.Survives ↔ Json.isLegible e.toJson 128 = true ∧ e.reread = e := by
  have hlegible : Json.isLegible e.toJson 128 = Json.isLegible e.payload.toJson 127 := by
    unfold Envelope.toJson
    rw [isLegible_object (by simp)]
    simp
  have hsame : e.reread = e ↔ e.payload.reread = e.payload := by
    obtain ⟨⟨protocol, address, consumer, provider, payload⟩, id⟩ := e
    simp [Envelope.reread]
  rw [hlegible, hsame]
  exact e.payload.survives_iff

/-! ## §5. What is written reads back. -/

namespace Json

/-- What the text of a value is read as. -/
def ofText? (read : Json → Option α) (s : String) : Option α :=
  (read? s).bind read

variable {write : α → Json} {read : Json → Option α} {P : α → Prop}

/-- What is written as text of values with a property reads back as it was exactly if the value
survives that.  So different values that survive are written differently; and what is written of
anything that was read and survives, however it was written before, reads back as it was read. -/
structure TextRoundTrips (write : α → Json) (read : Json → Option α) (P Survives : α → Prop) :
    Prop where
  restored : ∀ a, P a → (ofText? read (render (write a)) = some a ↔ Survives a)
  distinct : ∀ a b, P a → P b → Survives a → Survives b →
    render (write a) = render (write b) → a = b
  settled : ∀ s a, ofText? read s = some a → Survives a → ofText? read (render (write a)) = some a

/-- A text is read as what its numbers make of it, or not at all. -/
theorem Fits.ofText?_render (h : Fits write read P) {a b : α} (hsame : reread (write a) = write b)
    (hb : P b) : ofText? read (render (write a))
      = if isLegible (write a) 128 then some b else none := by
  unfold ofText?
  rw [read?_render, hsame]
  cases isLegible (write a) 128 with
  | false => rfl
  | true => exact h.restores b hb

theorem Fits.textRoundTrips (h : Fits write read P) {again : α → α} {Survives : α → Prop}
    (hkeeps : ∀ a, P a → P (again a)) (hsame : ∀ a, P a → reread (write a) = write (again a))
    (hsurvives : ∀ a, P a → (Survives a ↔ isLegible (write a) 128 = true ∧ again a = a)) :
    TextRoundTrips write read P Survives := by
  have hrestored (a : α) (ha : P a) :
      ofText? read (render (write a)) = some a ↔ Survives a := by
    rw [h.ofText?_render (hsame a ha) (hkeeps a ha), hsurvives a ha]
    cases isLegible (write a) 128 <;> simp
  refine ⟨hrestored, fun a b ha hb hsa hsb heq => ?_, fun s a hread hsa => ?_⟩
  · have hread := (hrestored a ha).mpr hsa
    rw [heq, (hrestored b hb).mpr hsb] at hread
    exact (Option.some.inj hread).symm
  · obtain ⟨j, _, hj⟩ := Option.bind_eq_some_iff.mp hread
    exact (hrestored a (h.sound j a hj)).mpr hsa

end Json

theorem Negotiation.isWritable_reread {n : Negotiation} (hn : n.IsWritable) :
    n.reread.IsWritable where
  lifecycle := hn.lifecycle
  agreement a ha := by
    obtain ⟨b, hb, rfl⟩ := Option.map_eq_some_iff.mp ha
    exact hn.agreement b hb

theorem Envelope.isWritable_reread {e : Envelope} (he : e.IsWritable) : e.reread.IsWritable := by
  obtain ⟨⟨protocol, address, consumer, provider, payload⟩, id⟩ := e
  cases payload <;> exact he

/-- Negotiations and messages of all kinds, whatever their optional parts, rules and dates, come back
from their data as they were; and from their texts exactly if their rules survive that. -/
theorem forms_restore :
    (RoundTrips Negotiation.toJson Negotiation.ofJson? Negotiation.IsWritable
      ∧ RoundTrips Envelope.toJson Envelope.ofJson? Envelope.IsWritable)
    ∧ TextRoundTrips Negotiation.toJson Negotiation.ofJson? Negotiation.IsWritable
      Negotiation.Survives
    ∧ TextRoundTrips Envelope.toJson Envelope.ofJson? Envelope.IsWritable Envelope.Survives :=
  ⟨⟨Negotiation.fits.roundTrips, Envelope.fits.roundTrips⟩,
    Negotiation.fits.textRoundTrips (fun _ => Negotiation.isWritable_reread)
      (fun _ => Negotiation.reread_toJson) fun _ => Negotiation.survives_iff,
    Envelope.fits.textRoundTrips (fun _ => Envelope.isWritable_reread)
      (fun e _ => e.reread_toJson) fun e _ => e.survives_iff⟩

/-- A moment in the leap second at the end of 2016. -/
def leapMoment : Instant := ⟨1483228800500000000, true⟩

theorem isDated_leapMoment : leapMoment.IsDated := ⟨by decide, fun _ => by decide⟩

/-- An agreement that was signed in a leap second, with rules of its own. -/
def leapAgreement : Agreement where
  id := "agreement"
  providerId := "provider"
  consumerId := "consumer"
  assetId := "asset"
  policy := {
    uid := some "policy"
    permissions := [object [("use", .array [.int 1, .null])]]
    obligations := [.float (.ofDecimal false 1 (-1))] }
  signingDate := leapMoment

/-- A leased negotiation with everything that it may have. -/
def fullNegotiation : Negotiation where
  id := "negotiation"
  state := -825
  stateCount := 4294967295
  stateTimestamp := ⟨-1, false⟩
  pending := true
  errorDetail := some ""
  lease := some ⟨"worker", ⟨-62167219200000000000, false⟩, -5⟩
  createdAt := ⟨253402300799000000001, false⟩
  updatedAt := leapMoment
  traceContext := Dictionary.ofList [("span", "2"), ("trace", "1")]
  role := .provider
  correlationId := some "correlation"
  counterPartyId := "consumer"
  counterPartyAddress := "address"
  protocol := "protocol"
  offers := [⟨"offer", "asset", "provider", {}⟩]
  agreement := some leapAgreement

theorem isWritable_fullNegotiation : fullNegotiation.IsWritable := by
  refine ⟨⟨by decide, by decide, ?_, ?_, ?_, isDated_leapMoment⟩, ?_⟩
  · exact ⟨by decide, by decide⟩
  · rintro l ⟨⟩
    exact ⟨⟨by decide, by decide⟩, by decide⟩
  · exact ⟨by decide, by decide⟩
  · rintro a ⟨⟩
    exact isDated_leapMoment

/-- The agreement as it is sent. -/
def leapMessage : Envelope :=
  ⟨⟨"protocol", "address", "consumer", none, .contractAgreement leapAgreement⟩, "message"⟩

/-- From the first to the last second of four digits, and in a leap second; as data and as text. -/
theorem full_negotiation_restored :
    Negotiation.ofJson? fullNegotiation.toJson = some fullNegotiation
      ∧ Envelope.ofJson? leapMessage.toJson = some leapMessage
      ∧ ofText? Negotiation.ofJson? (render fullNegotiation.toJson) = some fullNegotiation
      ∧ ofText? Envelope.ofJson? (render leapMessage.toJson) = some leapMessage := by
  have hagreement (levels : Nat) (hlevels : levels = 123 ∨ levels = 124) :
      leapAgreement.policy.Survives levels := by
    rcases hlevels with rfl | rfl <;> decide +kernel
  have hmessage : leapMessage.IsWritable := isDated_leapMoment
  refine ⟨forms_restore.1.1.restored _ isWritable_fullNegotiation,
    forms_restore.1.2.restored _ hmessage,
    (forms_restore.2.1.restored _ isWritable_fullNegotiation).mpr ⟨?_, ?_⟩,
    (forms_restore.2.2.restored _ hmessage).mpr (hagreement 123 (.inl rfl))⟩
  · intro o ho
    rw [List.mem_singleton.mp ho]
    decide
  · rintro a ⟨⟩
    exact hagreement 124 (.inr rfl)

/-- A negotiation over an offer with one rule. -/
def ruledNegotiation (rule : Json) : Negotiation :=
  { fullNegotiation with offers := [⟨"offer", "asset", "provider", { permissions := [rule] }⟩] }

/-- Brackets in brackets. -/
def brackets : Nat → Json
  | 0 => .array []
  | depth + 1 => .array [brackets depth]

/-- A number just below a hundred comes back from its text as a hundred, and a rule that is nested
too deep does not come back. -/
theorem rule_read_as_neighbour :
    (ruledNegotiation (.float (.ofDecimal false 9999999999999999 (-14)))).IsWritable
      ∧ ofText? Negotiation.ofJson?
          (render (ruledNegotiation (.float (.ofDecimal false 9999999999999999 (-14)))).toJson)
        = some (ruledNegotiation (.float (.ofInt 100)))
      ∧ ruledNegotiation (.float (.ofDecimal false 9999999999999999 (-14)))
        ≠ ruledNegotiation (.float (.ofInt 100))
      ∧ (ruledNegotiation (brackets 122)).IsWritable
      ∧ ofText? Negotiation.ofJson? (render (ruledNegotiation (brackets 122)).toJson) = none := by
  have hwritable (rule : Json) : (ruledNegotiation rule).IsWritable :=
    ⟨isWritable_fullNegotiation.lifecycle, isWritable_fullNegotiation.agreement⟩
  have hread (rule : Json) := Negotiation.fits.ofText?_render
    (Negotiation.reread_toJson (hwritable rule)) (Negotiation.isWritable_reread (hwritable rule))
  have hhundred : (ruledNegotiation (.float (.ofDecimal false 9999999999999999 (-14)))).reread
      = ruledNegotiation (.float (.ofInt 100)) := by decide +kernel
  refine ⟨hwritable _, ?_, by decide +kernel, hwritable _, ?_⟩
  · rw [hread, Negotiation.isLegible_toJson (hwritable _), if_pos (by decide +kernel), hhundred]
  · rw [hread, Negotiation.isLegible_toJson (hwritable _), if_neg (by decide +kernel)]

end Parley
