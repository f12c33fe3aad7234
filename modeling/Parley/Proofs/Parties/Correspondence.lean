/-
  Parley.Proofs.Parties.Correspondence
  ────────────────────────────────
  **WHICH RECORDS BELONG TOGETHER.**

  In a meeting the first party is the consumer of every negotiation and the
  second the provider.  A provider's record names the consumer's record that it
  is about, from the start and for ever.  Throughout a run (`Corresponds`):

      role     the first party's records are a consumer's, the second's a provider's
      single   no two records of the provider name the same record
      known    what a provider's record names is a record of the consumer
      named    a consumer's record names, if any, the record that names it

  However messages fare, handling a record keeps this (`Corresponds.handle`).
-/
import Parley.Proofs.Ledger.Names
import Parley.Proofs.Parties.Ticks

namespace Parley

/-! ## §1. Names. -/

namespace Ledger

/-- The counter party's name for the negotiation that the record of an id is about. -/
def nameFor (l : Ledger) (id : String) : Option String :=
  (l.content id).bind (·.correlationId)

theorem nameFor_of_content {l : Ledger} {id : String} {n : Negotiation}
    (h : l.content id = some n) : l.nameFor id = n.correlationId := by
  rw [nameFor, h]
  rfl

theorem content_of_nameFor {l : Ledger} {id name : String} (h : l.nameFor id = some name) :
    ∃ n, l.content id = some n ∧ n.correlationId = some name :=
  Option.bind_eq_some_iff.mp h

/-- Among the records of a provider a consumer's request is looked for by its name. -/
theorem knownRequest?_eq_none {l : Ledger} {name : String}
    (hroles : ∀ id n, l.content id = some n → n.role = .provider)
    (h : Engine.knownRequest? name l = none) (id : String) : l.nameFor id ≠ some name := by
  intro hname
  obtain ⟨n, hn, hcorrelated⟩ := content_of_nameFor hname
  obtain ⟨other, c, hc⟩ := hasNamed_of_unknown ⟨id, n, hn, hroles id n hn, hcorrelated⟩ h
  have hrole := hroles other c hc.content
  rw [hc.role] at hrole
  cases hrole

theorem knownRequest?_eq_some {l : Ledger} {name : String} {n : Negotiation}
    (h : Engine.knownRequest? name l = some n) :
    l.content n.id = some (n.withLease none) ∧ n.correlationId = some name := by
  have hlookup := l.lookup name
  rw [h] at hlookup
  cases hlookup with
  | provider _ hfound => exact ⟨hfound.content, hfound.named⟩

end Ledger

namespace World

variable {w w' : World}

/-- A record that takes the place of another and keeps its name. -/
theorem Puts.nameFor {n n' : Negotiation} (h : w.Puts w' n')
    (hn : w.ledger.content n'.id = some n) (hname : n'.correlationId = n.correlationId)
    (id : String) : w'.ledger.nameFor id = w.ledger.nameFor id := by
  by_cases hid : n'.id = id
  · rw [← hid, Ledger.nameFor_of_content hn, Ledger.nameFor_of_content h.content_self]
    exact hname
  · rw [Ledger.nameFor, h.content_of_ne hid]
    rfl

theorem Bears.nameFor {n : Negotiation} (h : w.Bears w' n) (id : String) :
    w'.ledger.nameFor id = if n.id = id then n.correlationId else w.ledger.nameFor id := by
  rw [Ledger.nameFor, h.content]
  split <;> rfl

end World

/-- The role that a party plays. -/
def Party.role : Party → Role
  | first => .consumer
  | second => .provider

/-! ## §2. Corresponding records. -/

namespace Meeting

/-- The first party's records and the second party's belong together. -/
structure Corresponds (m : Meeting) (parties : Party → Engine) : Prop where
  orderly : m.IsOrderly parties
  role : ∀ q id n, (m.ledger q).content id = some n → n.role = q.role
  single : ∀ pid pid' cid, (m.ledger .second).nameFor pid = some cid →
    (m.ledger .second).nameFor pid' = some cid → pid = pid'
  known : ∀ pid cid, (m.ledger .second).nameFor pid = some cid →
    ∃ c, (m.ledger .first).content cid = some c
  named : ∀ cid pid, (m.ledger .first).nameFor cid = some pid →
    (m.ledger .second).nameFor pid = some cid

variable {parties : Party → Engine} {luck : Luck} {m m' : Meeting} {q : Party}

/-- The world of one party changes, and that of the other only by the ids that are drawn. -/
theorem IsOrderly.setWorld (h : m.IsOrderly parties) {w : World}
    (hw : w.IsOrderly (parties q).handle.holder) (hsupply : m.supply.Precedes w.supply) :
    (m.setWorld q w).IsOrderly parties := by
  intro p
  rcases Party.eq_or_other p q with rfl | rfl
  · rw [world_setWorld_self]
    exact hw
  · exact
      { held := by
          rw [ledger_world, ledger_setWorld_other_self]
          exact (h p).held
        numbered := by
          rw [ledger_world, ledger_setWorld_other_self, supply_world, supply_setWorld]
          exact (h p).numbered.mono hsupply
        sound := by
          rw [ledger_world, ledger_setWorld_other_self]
          exact (h p).sound }

theorem IsFresh.corresponds (hm : m.IsFresh) (parties : Party → Engine) :
    m.Corresponds parties where
  orderly q := World.IsOrderly.of_empty (hm.ledger q) _
  role q id n hn := by
    rw [hm.ledger q] at hn
    cases hn
  single pid pid' cid hname := by
    rw [hm.ledger] at hname
    cases hname
  known pid cid hname := by
    rw [hm.ledger] at hname
    cases hname
  named cid pid hname := by
    rw [hm.ledger] at hname
    cases hname

namespace Corresponds

/-- Correspondence is about what the ledgers say. -/
theorem congr (h : m.Corresponds parties)
    (hheld : ∀ q, (m'.ledger q).HeldBy (parties q).handle.holder)
    (hcontent : ∀ q id, (m'.ledger q).content id = (m.ledger q).content id)
    (hsupply : m'.supply = m.supply) : m'.Corresponds parties := by
  have hname (q : Party) (id : String) :
      (m'.ledger q).nameFor id = (m.ledger q).nameFor id := by
    rw [Ledger.nameFor, hcontent]
    rfl
  exact
    { orderly := fun q => (h.orderly q).quiet (hheld q) (hcontent q) hsupply
      role := fun q id n hn => h.role q id n ((hcontent q id).symm.trans hn)
      single := fun pid pid' cid hp hp' =>
        h.single pid pid' cid ((hname _ _).symm.trans hp) ((hname _ _).symm.trans hp')
      known := fun pid cid hp => by
        rw [hcontent]
        exact h.known pid cid ((hname _ _).symm.trans hp)
      named := fun cid pid hc => by
        rw [hname]
        exact h.named cid pid ((hname _ _).symm.trans hc) }

/-- What happened so far and the time do not matter. -/
theorem elsewhere (h : m.Corresponds parties) (hledger : ∀ q, m'.ledger q = m.ledger q)
    (hsupply : m'.supply = m.supply) : m'.Corresponds parties := by
  refine h.congr (fun q => ?_) (fun q id => ?_) hsupply
  · rw [hledger]
    exact (h.orderly q).held
  · rw [hledger]

/-- Nothing is written. -/
theorem quiet (h : m.Corresponds parties) {w : World}
    (hheld : w.ledger.HeldBy (parties q).handle.holder)
    (hcontent : ∀ id, w.ledger.content id = (m.ledger q).content id)
    (hsupply : w.supply = m.supply) : (m.setWorld q w).Corresponds parties := by
  refine h.congr (fun p => ?_) (fun p id => ?_) ((supply_setWorld m q w).trans hsupply)
  · cases p <;> cases q <;> first
      | exact hheld
      | exact (h.orderly .first).held
      | exact (h.orderly .second).held
  · cases p <;> cases q <;> first | exact hcontent id | rfl

/-- Nothing but leases may have ended. -/
theorem same (h : m.Corresponds parties) {w : World}
    (hheld : w.ledger.HeldBy (parties q).handle.holder) (hw : (m.world q).Same w) :
    (m.setWorld q w).Corresponds parties :=
  h.quiet hheld hw.content hw.supply

/-- A record takes the place of another; a consumer's record may learn the name of the record that
names it. -/
theorem puts (h : m.Corresponds parties) {w : World}
    (hheld : w.ledger.HeldBy (parties q).handle.holder) {n n' : Negotiation}
    (hn : (m.ledger q).content n.id = some n) (hsound : n'.IsSound) (hkeeps : n.Keeps n')
    (hlearns : ∀ pid, n'.correlationId = some pid → n.correlationId = some pid
      ∨ (m.ledger .second).nameFor pid = some n.id)
    (hw : (m.world q).Puts w n') : (m.setWorld q w).Corresponds parties := by
  have hn' : (m.world q).ledger.content n'.id = some n := by rw [hkeeps.id]; exact hn
  have horderly := h.orderly.setWorld ((h.orderly q).puts hheld hn' hsound hw)
    (IdSupply.precedes_of_eq hw.supply)
  have hrole : n'.role = q.role := hkeeps.role.trans (h.role q n.id n hn)
  have hroles (p : Party) (id : String) (k : Negotiation)
      (hk : ((m.setWorld q w).ledger p).content id = some k) : k.role = p.role := by
    rcases Party.eq_or_other p q with rfl | rfl
    · rw [ledger_setWorld_self, hw.content] at hk
      split at hk
      · cases hk
        exact hrole
      · exact h.role _ id k hk
    · rw [ledger_setWorld_other_self] at hk
      exact h.role p id k hk
  cases q with
  | first =>
    refine ⟨horderly, hroles, h.single, fun pid cid hp => ?_, fun cid pid hc => ?_⟩
    · obtain ⟨c, hc⟩ := h.known pid cid hp
      by_cases hid : n'.id = cid
      · exact ⟨_, hid ▸ hw.content_self⟩
      · exact ⟨c, (hw.content_of_ne hid).trans hc⟩
    · show (m.ledger .second).nameFor pid = some cid
      have hc' : w.ledger.nameFor cid = some pid := hc
      by_cases hid : n'.id = cid
      · -- The record that was written: what it names it named before, or names it.
        rw [← hid, Ledger.nameFor_of_content hw.content_self] at hc'
        rw [hkeeps.id] at hid
        rcases hlearns pid hc' with hbefore | hnames
        · rw [← hid]
          exact h.named n.id pid ((Ledger.nameFor_of_content hn).trans hbefore)
        · rw [← hid]
          exact hnames
      · refine h.named cid pid ?_
        rw [Ledger.nameFor, hw.content_of_ne hid] at hc'
        exact hc'
  -- A provider's record keeps its name, so nothing changes for the consumer.
  | second =>
    have hprovider : n.role = .provider := h.role .second n.id n hn
    have hname : ∀ id, w.ledger.nameFor id = (m.ledger .second).nameFor id :=
      hw.nameFor hn' (hkeeps.correlationId hprovider)
    exact
      { orderly := horderly
        role := hroles
        single := fun pid pid' cid hp hp' =>
          h.single pid pid' cid ((hname pid).symm.trans hp) ((hname pid').symm.trans hp')
        known := fun pid cid hp => h.known pid cid ((hname pid).symm.trans hp)
        named := fun cid pid hc => (hname pid).trans (h.named cid pid hc) }

/-- The consumer begins a negotiation. -/
theorem begun (h : m.Corresponds parties) {w : World}
    (hheld : w.ledger.HeldBy (parties .first).handle.holder) {n : Negotiation} (hsound : n.IsSound)
    (hrole : n.role = .consumer) (hname : n.correlationId = none)
    (hw : (m.world .first).Bears w n) : (m.setWorld .first w).Corresponds parties where
  orderly := h.orderly.setWorld ((h.orderly .first).bears hheld hsound hw)
    (hw.supply ▸ IdSupply.precedes_draw _)
  role p id k hk := by
    cases p with
    | first =>
      have hk' : w.ledger.content id = some k := hk
      rw [hw.content] at hk'
      split at hk'
      · cases hk'
        exact hrole
      · exact h.role .first id k hk'
    | second => exact h.role .second id k hk
  single := h.single
  known pid cid hp := by
    show ∃ c, w.ledger.content cid = some c
    obtain ⟨c, hc⟩ := h.known pid cid hp
    rw [hw.content]
    split
    · exact ⟨_, rfl⟩
    · exact ⟨c, hc⟩
  -- The new record names none.
  named cid pid hc := by
    have hc' : w.ledger.nameFor cid = some pid := hc
    rw [hw.nameFor] at hc'
    split at hc'
    · rw [hname] at hc'
      cases hc'
    · exact h.named cid pid hc'

/-- The provider opens a record for a record of the consumer that it did not know. -/
theorem opened (h : m.Corresponds parties) {w : World}
    (hheld : w.ledger.HeldBy (parties .second).handle.holder) {n : Negotiation}
    (hsound : n.IsSound) (hrole : n.role = .provider) {cid : String}
    (hname : n.correlationId = some cid) {c : Negotiation}
    (hc : (m.ledger .first).content cid = some c)
    (hnew : ∀ pid, (m.ledger .second).nameFor pid ≠ some cid)
    (hw : (m.world .second).Bears w n) : (m.setWorld .second w).Corresponds parties where
  orderly := h.orderly.setWorld ((h.orderly .second).bears hheld hsound hw)
    (hw.supply ▸ IdSupply.precedes_draw _)
  role p id k hk := by
    cases p with
    | first => exact h.role .first id k hk
    | second =>
      have hk' : w.ledger.content id = some k := hk
      rw [hw.content] at hk'
      split at hk'
      · cases hk'
        exact hrole
      · exact h.role .second id k hk'
  single pid pid' name hp hp' := by
    have hp₁ : w.ledger.nameFor pid = some name := hp
    have hp₂ : w.ledger.nameFor pid' = some name := hp'
    rw [hw.nameFor, hname] at hp₁ hp₂
    -- Each of the two is the new record or an older one, and no older one names the same.
    split at hp₁ <;> split at hp₂
    · rename_i hid hid'
      exact hid.symm.trans hid'
    · cases hp₁
      exact absurd hp₂ (hnew pid')
    · cases hp₂
      exact absurd hp₁ (hnew pid)
    · exact h.single pid pid' name hp₁ hp₂
  known pid name hp := by
    have hp' : w.ledger.nameFor pid = some name := hp
    rw [hw.nameFor, hname] at hp'
    split at hp'
    · cases hp'
      exact ⟨c, hc⟩
    · exact h.known pid name hp'
  named name pid hc' := by
    show w.ledger.nameFor pid = some name
    have hbefore := h.named name pid hc'
    -- What was named before was there before, so it is not the new record.
    have hne : n.id ≠ pid := by
      intro hid
      obtain ⟨k, hk, _⟩ := Ledger.content_of_nameFor hbefore
      have hnone := (h.orderly .second).content_nextId
      rw [← hw.id, hid, ledger_world, hk] at hnone
      cases hnone
    rw [hw.nameFor, if_neg hne]
    exact hbefore

end Corresponds

/-! ## §3. Messages. -/

/-- A message carries the name that its sender has for the receiver's record. -/
theorem processIdFor_forNegotiation {n : Negotiation} (hrole : n.role = q.role) (hsound : n.IsSound)
    (payload : Payload) :
    (Message.forNegotiation n payload).processIdFor q.other.role = n.correlationId := by
  cases q with
  | first =>
    have hconsumer : n.role = .consumer := hrole
    simp [Message.forNegotiation, Message.processIdFor, Party.other, Party.role, hconsumer]
  | second =>
    have hprovider : n.role = .provider := hrole
    obtain ⟨pid, hpid⟩ := hsound.correlated hprovider
    simp [Message.forNegotiation, Message.processIdFor, Party.other, Party.role, hprovider, hpid]

/-- Only a consumer has a request to send. -/
theorem consumer_of_request (h : Duty.send .request ∈ q.role.duties) : q = .first := by
  cases q with
  | first => rfl
  | second => exact absurd h (by decide)

namespace Corresponds

variable {n : Negotiation} {payload : Payload} {r : Handled} {w : World}

/-- A record that is stored, up to its lease, is sound and of its party's role. -/
theorem stored (h : m.Corresponds parties)
    (hn : (m.ledger q).content n.id = some (n.withLease none)) : n.IsSound ∧ n.role = q.role := by
  obtain ⟨hknown, hoffered, hcorrelated⟩ := (h.orderly q).sound n.id _ hn
  have hrole : (n.withLease none).role = q.role := h.role q n.id _ hn
  exact ⟨⟨hknown, hoffered, hcorrelated⟩, hrole⟩

/-- A message is accepted by the record that the sender's record names. -/
theorem accepted_by (h : m.Corresponds parties)
    (hn : (m.ledger q).content n.id = some (n.withLease none)) {role : Role} {k : Negotiation}
    {now : Instant} (hpid : (Message.forNegotiation n payload).processIdFor role = some k.id)
    (hk : (m.ledger q.other).content k.id = some k) {k' : Negotiation}
    (hok : (Message.forNegotiation n payload).acceptedBy role k now = .ok k') :
    n.correlationId = some k.id := by
  obtain ⟨hsound, hrole⟩ := h.stored hn
  have hreceiver : role = q.other.role :=
    (Message.acceptedBy_eq_ok_iff.mp hok).1.symm.trans (h.role q.other k.id k hk)
  rw [hreceiver, processIdFor_forNegotiation hrole hsound] at hpid
  exact hpid

/-- However a message fares, the records correspond. -/
theorem received (h : m.Corresponds parties)
    (hn : (m.ledger q).content n.id = some (n.withLease none))
    (hrequest : payload.target = .requested → q = .first)
    (hr : Engine.Receipt (parties q.other) (m.world q.other) (.forNegotiation n payload) r w)
    (hheld : w.ledger.HeldBy (parties q.other).handle.holder) :
    (m.setWorld q.other w).Corresponds parties := by
  obtain ⟨hsound, hrole⟩ := h.stored hn
  cases hr with
  | refused err hr hm hno hsame => exact h.same hheld hsame
  | known offer callbackAddress consumerId known hm hknown hr hsame =>
    subst hsame
    rw [setWorld_world]
    exact h
  | accepted role k found haddr hpid hk hok hr hid hputs =>
    have hkeeps := Call.keeps_of_accepted haddr hok
    obtain ⟨_, hedge, _, _⟩ := Message.acceptedBy_eq_ok_iff.mp hok
    have hmoves := Negotiation.moves_of_checkEdge hedge
      ((Message.forNegotiation n payload).state_outcome k m.now)
    -- A provider's record keeps its name; a consumer's may take one from the message.
    refine h.puts hheld hk (((h.orderly q.other).sound k.id k hk).of_moves hmoves hkeeps) hkeeps
      (fun pid hpid' => ?_) hputs
    cases q with
    | first =>
      have hprovider : k.role = .provider := h.role .second k.id k hk
      exact .inl ((hkeeps.correlationId hprovider).symm.trans hpid')
    | second =>
      rcases Message.correlationId_outcome hpid' with hbefore | hname
      · exact .inl hbefore
      · -- The name that the message carries is that of the sender's record, which names this one.
        have hprovider : n.role = .provider := hrole
        simp only [Message.forNegotiation, hprovider, Option.some.injEq] at hname
        rw [← hname]
        exact .inr ((Ledger.nameFor_of_content hn).trans (h.accepted_by hn hpid hk hok))
  | opened offer callbackAddress consumerId hm hunknown hr hbears =>
    have hpayload : payload = .contractRequest offer callbackAddress consumerId := hm
    have hfirst : q = .first := hrequest (by rw [hpayload]; rfl)
    subst hfirst
    have hconsumer : n.role = .consumer := hrole
    have hname : (Message.forNegotiation n payload).consumerPid = n.id := by
      simp [Message.forNegotiation, hconsumer]
    rw [hname] at hunknown
    have hlink : ((Message.forNegotiation n payload).opened offer callbackAddress consumerId
        (m.world .second).nextId m.now).correlationId = some n.id := by
      rw [← hname]
      rfl
    exact h.opened hheld (Call.isSound_opened _ _ _ _ _ _) rfl hlink hn
      (Ledger.knownRequest?_eq_none (h.role .second) hunknown) hbears

/-- The answer to a request tells the name of a record that names the sender's. -/
theorem acknowledged (h : m.Corresponds parties)
    (hn : (m.ledger .first).content n.id = some (n.withLease none)) {found : Negotiation}
    (hrequest : payload.target = .requested)
    (hr : Engine.Receipt (parties .second) (m.world .second) (.forNegotiation n payload) (.ok found)
      w) : w.ledger.nameFor found.id = some n.id := by
  have hconsumer : n.role = .consumer := (h.stored hn).2
  have hname : (Message.forNegotiation n payload).consumerPid = n.id := by
    simp [Message.forNegotiation, hconsumer]
  cases hr with
  | refused err hr hm hno hsame => exact absurd hrequest hm
  | accepted role k found haddr hpid hk hok hr hid hputs =>
    -- A request is not about a record of the receiver.
    unfold Message.addressee? at haddr
    cases hp : payload with
    | contractRequest offer callbackAddress consumerId =>
      have hm : (Message.forNegotiation n payload).payload
          = .contractRequest offer callbackAddress consumerId := hp
      rw [hm] at haddr
      cases haddr
    | negotiationEvent event =>
      rw [hp] at hrequest
      cases event <;> cases hrequest
    | _ =>
      rw [hp] at hrequest
      cases hrequest
  | known offer callbackAddress consumerId k hm hk hr hsame =>
    cases hr
    obtain ⟨hcontent, hcorrelated⟩ := Ledger.knownRequest?_eq_some hk
    rw [hsame, Ledger.nameFor_of_content hcontent]
    exact hcorrelated.trans (congrArg some hname)
  | opened offer callbackAddress consumerId hm hunknown hr hbears =>
    cases hr
    rw [Ledger.nameFor_of_content (n := Negotiation.withLease _ none)
      (by rw [hbears.content, if_pos rfl])]
    exact congrArg some hname

/-- However a message is delivered, the records correspond; and an answer to a request tells the
name of a record that names the sender's. -/
theorem delivered (h : m.Corresponds parties)
    (hn : (m.ledger q).content n.id = some (n.withLease none))
    (hrequest : payload.target = .requested → q = .first) {f : Fate} {mid : Meeting} {reply : Reply}
    (hd : Delivery parties q (.forNegotiation n payload) m f mid reply) :
    mid.Corresponds parties ∧ ∀ response pid, reply = .answered response →
      (response.get? "provider_pid").bind Json.text? = some pid →
      (mid.ledger .second).nameFor pid = some n.id := by
  cases hd with
  | undelivered why => exact ⟨h, fun response pid hreply => by cases hreply⟩
  | returned fate r w hr hheld hfate =>
    refine ⟨h.received hn hrequest hr hheld, fun response pid hreply hpid => ?_⟩
    cases r with
    | error err => cases hreply
    | ok found =>
      cases hreply
      -- Only the answer to a request tells a name.
      cases hp : payload with
      | contractRequest offer callbackAddress consumerId =>
        have hm : (Message.forNegotiation n payload).payload
            = .contractRequest offer callbackAddress consumerId := hp
        have htarget : payload.target = .requested := by rw [hp]; rfl
        rw [hm] at hpid
        have hfirst := hrequest htarget
        subst hfirst
        have hfound : some found.id = some pid := hpid
        cases hfound
        exact h.acknowledged hn htarget hr
      | _ =>
        have hm : (Message.forNegotiation n payload).payload = payload := rfl
        rw [hm, hp] at hpid
        cases hpid
  | lost why found w hr hheld =>
    -- The receiver wrote its record all the same.
    refine ⟨(h.received hn hrequest hr hheld).elsewhere (fun p => ?_) rfl,
      fun response pid hreply => by cases hreply⟩
    cases p <;> rfl

/-! ## §4. Actions. -/

/-- A record is handled up to its message. -/
theorem begins (h : m.Corresponds parties)
    (hn : (m.ledger q).content n.id = some (n.withLease none)) {duty : Duty} {b : Begun}
    (hb : Engine.Beginning (parties q) (m.world q) duty n b w)
    (hheld : w.ledger.HeldBy (parties q).handle.holder) :
    (m.setWorld q w).Corresponds parties := by
  have hsound := (h.stored hn).1
  have hkept := Negotiation.Keeps.of_withLease n none
  cases hb with
  | parked hguard hb hputs =>
    exact h.puts hheld hn (hsound.withPending true) (hkept.withPending true) (fun _ => .inl) hputs
  | decided source target hduty hedge hb hputs =>
    have hmoves : n.Moves (n.enter target.code m.now) := Negotiation.moves_of_checkEdge hedge rfl
    exact h.puts hheld hn (hsound.of_moves hmoves ((Negotiation.Keeps.refl n).enter _ _))
      (hkept.enter _ _) (fun _ => .inl) hputs
  | undecided source target hduty hedge hb hsame => exact h.same hheld hsame
  | delayed message hduty hdelay hb hsame => exact h.same hheld hsame
  | sending message payload hduty hguard hpayload hb hsame =>
    subst hsame
    rw [setWorld_world]
    exact h

/-- A record is handled from the reply on. -/
theorem lands (h : m.Corresponds parties)
    (hn : (m.ledger q).content n.id = some (n.withLease none)) {f : Flight} (hf : f.leased = n)
    (hrequest : f.sending = .request → q = .first) {reply : Reply}
    (hanswer : ∀ response pid, reply = .answered response →
      (response.get? "provider_pid").bind Json.text? = some pid →
      (m.ledger .second).nameFor pid = some n.id) {counts : Bool}
    (hl : Engine.Landing (parties q) (m.world q) f reply counts w)
    (hheld : w.ledger.HeldBy (parties q).handle.holder) :
    (m.setWorld q w).Corresponds parties := by
  subst hf
  cases hl with
  | gone hgone hsame =>
    subst hsame
    rw [setWorld_world]
    exact h
  | idle current hcurrent hup hcounts hsame => exact h.same hheld hsame
  | turned current n' kind hcurrent hup hcounts hputs =>
    have hturn := Engine.turn_of_upshot hup
    have hstored : some (f.leased.withLease none) = some current := hn.symm.trans hcurrent
    cases hstored
    obtain ⟨hsound, hrole⟩ := h.stored hn
    have hkeeps := hturn.keeps fun hsending => by
      rw [hrequest hsending] at hrole
      exact hrole
    refine h.puts hheld hn ((hsound.withLease none).of_moves hturn.moves hkeeps) hkeeps
      (fun pid hpid => ?_) hputs
    -- An answer may tell the name; a failure tells nothing.
    cases hturn with
    | onward response hedge hset =>
      rcases Engine.correlationId_gained hpid with hbefore | ⟨_, htold⟩
      · exact .inl hbefore
      · exact .inr (hanswer response pid rfl htold)
    | ended failure detail hedge hlast => exact .inl hpid
    | again failure hedge hkind hmore => exact .inl hpid

/-- A due record is of its party's role. -/
theorem role_of_isDue (h : m.Corresponds parties) {role : Role} {duty : Duty}
    (hdue : m.IsDue q role duty n) : role = q.role :=
  hdue.role.symm.trans (h.stored hdue.stored).2

/-- How a due record is handled. -/
theorem exchange (h : m.Corresponds parties) {role : Role} {duty : Duty}
    (hdue : m.IsDue q role duty n) : Exchange parties luck q duty n m
      ((parties q).handleRecord (conduct parties luck q) role duty n m).2 :=
  handle_effect (h.orderly q).held (h.orderly q.other).held role duty
    (h.stored hdue.stored).1.offered

/-- When a due record is handled, the records correspond. -/
theorem handle (h : m.Corresponds parties) {role : Role} {duty : Duty}
    (hduty : duty ∈ role.duties) (hdue : m.IsDue q role duty n) :
    (((parties q).handleRecord (conduct parties luck q) role duty n m).2).Corresponds parties := by
  have hrole := h.role_of_isDue hdue
  have hexchange : Exchange parties luck q duty n m
      ((parties q).handleRecord (conduct parties luck q) role duty n m).2 := h.exchange hdue
  cases hexchange with
  | alone handled w hb hheld hm =>
    rw [hm]
    exact h.begins hdue.stored hb hheld
  | sent message payload reply mid w counts hsend hguard hpayload hd hl hheld hm =>
    have hrequest : message = .request → q = .first := by
      rintro rfl
      rw [hsend, hrole] at hduty
      exact consumer_of_request hduty
    have htarget : payload.target = .requested → q = .first := by
      rw [Engine.target_of_payloadFor hpayload]
      intro hmessage
      refine hrequest ?_
      cases message <;> first | rfl | cases hmessage
    -- First the receiver's record is written, then the sender's.
    obtain ⟨hmid, hanswer⟩ := h.delivered hdue.stored htarget hd
    have hstored : (mid.ledger q).content n.id = some (n.withLease none) := by
      rw [hd.ledger]
      exact hdue.stored
    rw [hm]
    refine (hmid.lands hstored rfl hrequest hanswer hl hheld).elsewhere (fun p => ?_) ?_
    · cases p <;> cases q <;> rfl
    · rw [supply_setWorld, supply_setWorld]

/-- Leases do not matter. -/
theorem lend (h : m.Corresponds parties) (ids : List String) {lease : Lease}
    (hlease : lease.holder = (parties q).handle.holder) :
    (m.lendEach q ids lease).Corresponds parties :=
  h.quiet ((h.orderly q).held.leaseEach ids hlease)
    (fun id => Ledger.content_leaseEach _ ids lease id) rfl

theorem pick (h : m.Corresponds parties) : m.pick.Corresponds parties :=
  h.elsewhere (fun _ => rfl) rfl

/-- The consumer wishes to negotiate. -/
theorem initiate (h : m.Corresponds parties) (r : ContractRequest) :
    (m.act parties luck (.initiate r)).Corresponds parties := by
  obtain ⟨hbears, hheld⟩ := (parties .first).initiate_effect (h.orderly .first).held r
  rw [act_initiate (h.orderly .first).held]
  refine (h.begun hheld (Call.isSound_initiated r _ _) rfl rfl hbears).elsewhere (fun p => ?_) rfl
  cases p <;> rfl

/-- The clock goes on. -/
theorem advance (h : m.Corresponds parties) (ms : Int) :
    (m.act parties luck (.advance ms)).Corresponds parties :=
  h.elsewhere (fun q => by cases q <;> rfl) rfl

end Corresponds

end Meeting

end Parley
