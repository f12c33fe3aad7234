/-
  Parley.Proofs.Parties.Agreement
  ────────────────────────────────
  **BOTH PARTIES HOLD THE SAME AGREEMENT.**

  The provider dates an agreement anew at every try, so several agreements may
  be under way for one negotiation.  The consumer takes the first that reaches
  it and refuses the others; the provider keeps the one whose send is answered,
  and an answer means that the consumer took that very one.

  Two facts are kept by every move, and they are all it takes (`IsSettled`):

      accepted   an agreement that was accepted is held by the consumer
      provided   an agreement that a provider holds, the consumer holds
-/
import Parley.Proofs.Parties.Network

namespace Parley

/-! ## §1. Holding an agreement. -/

/-- The consumer's record of an id holds an agreement. -/
def Ledger.Holds (l : Ledger) (id : String) (a : Agreement) : Prop :=
  ∃ c, l.content id = some c ∧ c.role = .consumer ∧ c.agreement = some a

theorem Ledger.Holds.mono {l l' : Ledger} {id : String} {a : Agreement} (h : l.Holds id a)
    (hgrows : l.Grows l') : l'.Holds id a := by
  obtain ⟨c, hc, hrole, ha⟩ := h
  obtain ⟨c', hc', hkeeps⟩ := hgrows id c hc
  exact ⟨c', hc', hkeeps.role.trans hrole, hkeeps.agreement_eq ha⟩

namespace Engine

variable {e : Engine} {w : World}

/-- An agreement that is accepted is held from then on. -/
theorem holds_of_accepted (hw : w.ledger.HeldBy e.handle.holder) {m : Message} {found : Negotiation}
    {a : Agreement} (hm : m.payload = .contractAgreement a)
    (hok : (e.receive .direct m w).1 = .ok found) :
    (e.receive .direct m w).2.ledger.Holds m.consumerPid a := by
  cases (e.receive_effect hw m).1 with
  | refused err hr hp hno hsame =>
    rw [hok] at hr
    cases hr
  | known offer callbackAddress consumerId n hp hn hr hsame =>
    rw [hm] at hp
    cases hp
  | opened offer callbackAddress consumerId hp hn hr hbears =>
    rw [hm] at hp
    cases hp
  | accepted role n found' haddr hpid hn hacc hr hid hputs =>
    -- Agreements are for consumers.
    have hrole : role = .consumer := by
      unfold Message.addressee? at haddr
      rw [hm] at haddr
      exact (Option.some.inj haddr).symm
    subst hrole
    obtain ⟨hrole, _, _, _⟩ := Message.acceptedBy_eq_ok_iff.mp hacc
    have hname : m.consumerPid = n.id := Option.some.inj hpid
    have hself := hputs.content_self
    rw [Message.id_outcome] at hself
    rw [hname]
    refine ⟨_, hself, ?_, ?_⟩
    · unfold Message.outcome Message.enrich
      rw [hm]
      exact hrole
    · unfold Message.outcome Message.enrich
      rw [hm]
      rfl

/-- An answer gives a record no agreement but the one that was sent. -/
theorem agreement_gained (f : Flight) (n : Negotiation) (response : Json) :
    (gained f n response).agreement = n.agreement
      ∨ ∃ a, f.message.payload = .contractAgreement a
        ∧ (gained f n response).agreement = some a := by
  obtain ⟨sending, leased, ⟨protocol, address, consumerPid, providerPid, payload⟩⟩ := f
  cases sending with
  | request =>
    left
    show (correlate n response).agreement = n.agreement
    unfold correlate
    split <;> rfl
  | agreement =>
    cases payload with
    | contractAgreement agreement => exact .inr ⟨agreement, rfl, rfl⟩
    | _ => exact .inl rfl
  | _ => exact .inl rfl

end Engine

namespace Session

variable {s : Session} {e : Engine}

/-- A move in which the answer to an agreement's message arrives. -/
def Settles (s : Session) (move : Move) (n : Negotiation) (a : Agreement) : Prop :=
  ∃ k response r f, move = .land k (.answered response) ∧ s.round = some r
    ∧ r.airborne[k]? = some f ∧ f.leased.id = n.id ∧ f.message.payload = .contractAgreement a

/-- A provider's record comes by an agreement only when the answer to its message arrives. -/
theorem provider_agreement (h : s.IsCoherent e) (hguard : ∀ n, e.guard n = false) (move : Move)
    {id : String} {n' : Negotiation} {a : Agreement}
    (hn' : (s.step e move).world.ledger.content id = some n') (hrole : n'.role = .provider)
    (ha : n'.agreement = some a) :
    ∃ n, s.world.ledger.content id = some n ∧ n.role = .provider
      ∧ n'.correlationId = n.correlationId
      ∧ (n.agreement = some a ∨ s.Settles move n a) := by
  -- Two cases come up again and again: the record is as it was, or one record was moved.
  have hsame {w' : World} (hw : w'.ledger.content id = s.world.ledger.content id)
      (hn' : w'.ledger.content id = some n') :
      ∃ n, s.world.ledger.content id = some n ∧ n.role = .provider
        ∧ n'.correlationId = n.correlationId
        ∧ (n.agreement = some a ∨ s.Settles move n a) :=
    ⟨n', hw.symm.trans hn', hrole, rfl, .inl ha⟩
  have hmoved {n m : Negotiation} {w' : World} (hn : s.world.ledger.content n.id = some n)
      (hkeeps : n.Keeps m) (hputs : s.world.Puts w' m)
      (hn' : w'.ledger.content id = some n')
      (hsettled : n.role = .provider → m.agreement = some a → n.agreement = some a
        ∨ s.Settles move n a) :
      ∃ n, s.world.ledger.content id = some n ∧ n.role = .provider
        ∧ n'.correlationId = n.correlationId
        ∧ (n.agreement = some a ∨ s.Settles move n a) := by
    by_cases hid : m.id = id
    · have hself := hputs.content_self
      rw [hid, hn'] at hself
      cases hself
      have hprovider : n.role = .provider := hkeeps.role.symm.trans hrole
      rw [← hkeeps.id, hid] at hn
      exact ⟨n, hn, hprovider, hkeeps.correlationId hprovider, hsettled hprovider ha⟩
    · exact hsame (hputs.content_of_ne hid) hn'
  cases (step_effect h move).1 with
  | quiet hcontent hsupply => exact hsame (hcontent id) hn'
  | called c n m hmove hn hmakes hputs =>
    exact hmoved hn hmakes.keeps hputs hn' fun hprovider hm =>
      .inl ((hmakes.agreement hprovider).symm.trans hm)
  | decided r n source target hr hduty hrole hstate hn hedge hputs =>
    exact hmoved hn ((Negotiation.Keeps.refl n).enter _ _) hputs hn' fun _ hm => .inl hm
  | turned k reply r f n m kind hmove hr hk hn hid hturn hkeeps hputs =>
    refine hmoved hn hkeeps hputs hn' fun _ hm => ?_
    cases hturn with
    | onward response hedge hset =>
      rcases Engine.agreement_gained f n response with hgained | ⟨b, hb, hgained⟩
      · exact .inl (hgained.symm.trans hm)
      · have hab : some b = some a := hgained.symm.trans hm
        cases hab
        exact .inr ⟨k, response, r, f, hmove, hr, hk, hid.symm, hb⟩
    | ended failure detail hedge hlast => exact .inl hm
    | again failure hedge hkind hmore => exact .inl hm
  | born c n hmove hopens hbears =>
    by_cases hid : n.id = id
    · rw [hbears.content, if_pos hid] at hn'
      cases hn'
      have hnone : n.agreement = some a := ha
      rw [hopens.agreement] at hnone
      cases hnone
    · exact hsame (by rw [hbears.content, if_neg hid]) hn'
  | parked n hparks hputs =>
    have hheld := hparks.2.1
    rw [hguard n] at hheld
    cases hheld

end Session

/-! ## §2. Settled agreements. -/

/-- What every move of two parties keeps. -/
structure Net.IsSettled (net : Net) (parties : Party → Engine) : Prop where
  coherent : net.IsCoherent parties
  accepted : ∀ p m n a, (m, n) ∈ (net.desk p).accepted → m.payload = .contractAgreement a →
    (net.ledger p).Holds m.consumerPid a
  provided : ∀ p id n a, (net.ledger p).content id = some n → n.role = .provider →
    n.agreement = some a → ∃ pid, n.correlationId = some pid ∧ (net.ledger p.other).Holds pid a

namespace Net

variable {parties : Party → Engine} {net : Net}

theorem IsFresh.isSettled (h : net.IsFresh) (parties : Party → Engine) :
    net.IsSettled parties where
  coherent := h.isCoherent
  accepted := by
    intro p m n a hin
    rw [(h p).2] at hin
    cases hin
  provided := by
    intro p id n a hn
    rw [ledger, (h p).1.1] at hn
    cases hn

/-- The records of both parties are only added to. -/
theorem step_grows (h : net.IsCoherent parties) (hguard : ∀ p n, (parties p).guard n = false)
    (act : Party × Move) (q : Party) :
    (net.ledger q).Grows ((net.step parties act).ledger q) := by
  obtain ⟨p, move⟩ := act
  cases hp : net.permits p move with
  | false =>
    rw [step_of_not_permits hp]
    exact Ledger.Grows.refl _
  | true =>
    unfold ledger
    rcases Party.eq_or_other p q with rfl | rfl
    · rw [desk_step_self hp]
      exact Session.step_grows (h q) (hguard q) move
    · rw [desk_step_other hp]
      exact Ledger.Grows.refl _

theorem run_grows (h : net.IsCoherent parties) (hguard : ∀ p n, (parties p).guard n = false)
    (acts : List (Party × Move)) (q : Party) :
    (net.ledger q).Grows ((net.run parties acts).ledger q) := by
  induction acts generalizing net with
  | nil => exact Ledger.Grows.refl _
  | cons act acts ih => exact (step_grows h hguard act q).trans (ih (h.step act))

/-- What a move accepts is held after it. -/
theorem holds_of_accepts {s : Session} {e : Engine} (h : s.IsCoherent e) {move : Move}
    {m : Message} {n : Negotiation} {a : Agreement} (hin : (m, n) ∈ s.accepts e move)
    (hm : m.payload = .contractAgreement a) :
    (s.step e move).world.ledger.Holds m.consumerPid a := by
  cases move with
  | call c =>
    cases c with
    | notify inlet received =>
      unfold Session.accepts at hin
      simp only at hin
      split at hin
      · rename_i hopen
        have hstep : (s.step e (.call (.notify inlet received))).world
            = (e.notify .direct inlet received s.world).2 := by
          unfold Session.step
          simp only
          rw [if_pos hopen]
          rfl
        rw [hstep]
        cases hok : (e.notify .direct inlet received s.world).1 with
        | error err =>
          rw [hok] at hin
          cases hin
        | ok found =>
          rw [hok, List.mem_singleton, Prod.mk.injEq] at hin
          obtain ⟨rfl, rfl⟩ := hin
          rw [e.notify_eq] at hok ⊢
          split at hok
          · rename_i htakes
            rw [if_pos htakes]
            exact Engine.holds_of_accepted h.orderly.held hm hok
          · cases hok
      · cases hin
    | _ => cases hin
  | _ => cases hin

/-- An answer that the network permits was given to that very message. -/
theorem accepted_of_permits {p : Party} {k : Nat} {response : Json} {r : Round} {f : Flight}
    (h : net.permits p (.land k (.answered response)) = true)
    (hr : (net.desk p).session.round = some r) (hk : r.airborne[k]? = some f) :
    ∃ n, (f.message, n) ∈ (net.desk p.other).accepted := by
  unfold permits at h
  simp only [hr, hk, isAnswer, List.any_eq_true, decide_eq_true_eq] at h
  obtain ⟨⟨known, n⟩, hin, rfl, _⟩ := h
  exact ⟨n, hin⟩

/-- A move keeps agreements settled. -/
theorem IsSettled.step (h : net.IsSettled parties)
    (hguard : ∀ p n, (parties p).guard n = false) (act : Party × Move) :
    (net.step parties act).IsSettled parties := by
  have hgrows := step_grows h.coherent hguard act
  obtain ⟨p, move⟩ := act
  cases hp : net.permits p move with
  | false =>
    rw [step_of_not_permits hp]
    exact h
  | true =>
    refine ⟨h.coherent.step (p, move), ?_, ?_⟩
    -- What was accepted before is still held; what the move accepts is held now.
    · intro q m n a hin hm
      rcases Party.eq_or_other p q with rfl | rfl
      · rw [desk_step_self hp] at hin
        rcases List.mem_append.mp hin with hin | hin
        · exact (h.accepted q m n a hin hm).mono (hgrows q)
        · rw [ledger, desk_step_self hp]
          exact holds_of_accepts (h.coherent q) hin hm
      · rw [desk_step_other hp] at hin
        exact (h.accepted p.other m n a hin hm).mono (hgrows p.other)
    -- A provider's agreement was there, or its answer arrives now.
    · intro q id n' a hn' hrole ha
      rcases Party.eq_or_other p q with rfl | rfl
      · rw [ledger, desk_step_self hp] at hn'
        obtain ⟨n, hn, hprovider, hcorrelated, hheld | hsettles⟩ :=
          Session.provider_agreement (h.coherent q) (hguard q) move hn' hrole ha
        · obtain ⟨pid, hpid, hholds⟩ := h.provided q id n a hn hprovider hheld
          exact ⟨pid, hcorrelated.trans hpid, hholds.mono (hgrows q.other)⟩
        · -- The answer says that the consumer took this very agreement.
          obtain ⟨k, response, r, f, rfl, hr, hk, hid, hpayload⟩ := hsettles
          obtain ⟨found, hin⟩ := accepted_of_permits hp hr hk
          have hround := (h.coherent q).round r hr
          have hf : f ∈ r.airborne := List.mem_of_getElem? hk
          obtain ⟨hsound, _, _, current, hcurrent, hkeeps⟩ :=
            hround.leased f.leased (List.mem_append_right _ (List.mem_map_of_mem hf))
          obtain ⟨_, payload, now, hmessage, _⟩ := hround.flights f hf
          have hnid : n.id = id := Ledger.id_of_content hn
          rw [hid, hnid, hn] at hcurrent
          cases hcurrent
          have hleased : f.leased.role = .provider := hkeeps.role.symm.trans hprovider
          obtain ⟨pid, hpid⟩ := hsound.correlated hleased
          have hconsumer : f.message.consumerPid = pid := by
            rw [hmessage]
            simp [Message.forNegotiation, hleased, hpid]
          have hholds := h.accepted q.other f.message found a hin hpayload
          rw [hconsumer] at hholds
          refine ⟨pid, ?_, hholds.mono (hgrows q.other)⟩
          rw [hcorrelated, hkeeps.correlationId hleased, hpid]
      · rw [ledger, desk_step_other hp] at hn'
        obtain ⟨pid, hpid, hholds⟩ := h.provided p.other id n' a hn' hrole ha
        exact ⟨pid, hpid, hholds.mono (hgrows p.other.other)⟩

theorem IsSettled.run (h : net.IsSettled parties)
    (hguard : ∀ p n, (parties p).guard n = false) (acts : List (Party × Move)) :
    (net.run parties acts).IsSettled parties := by
  induction acts generalizing net with
  | nil => exact h
  | cons act acts ih => exact ih (h.step hguard act)

/-! ## §3. One agreement. -/

/-- Two parties without guards start with no records.  After any moves, an agreement that a
provider's record holds is the one that the consumer's record of its correlation id holds; and no
moves after that change an agreement of either party. -/
theorem agreements_are_one (parties : Party → Engine)
    (hguard : ∀ p n, (parties p).guard n = false) (net : Net) (hnet : net.IsFresh)
    (acts : List (Party × Move)) :
    (∀ p id n a, ((net.run parties acts).ledger p).content id = some n → n.role = .provider →
      n.agreement = some a → ∃ pid c, n.correlationId = some pid
        ∧ ((net.run parties acts).ledger p.other).content pid = some c
        ∧ c.role = .consumer ∧ c.agreement = some a)
    ∧ ∀ later p id n a, ((net.run parties acts).ledger p).content id = some n →
        n.agreement = some a → ∃ n',
          (((net.run parties acts).run parties later).ledger p).content id = some n'
          ∧ n'.agreement = some a := by
  have h := (hnet.isSettled parties).run hguard acts
  constructor
  · intro p id n a hn hrole ha
    obtain ⟨pid, hpid, c, hc, hconsumer, hagreement⟩ := h.provided p id n a hn hrole ha
    exact ⟨pid, c, hpid, hc, hconsumer, hagreement⟩
  · intro later p id n a hn ha
    obtain ⟨n', hn', hkeeps⟩ := run_grows h.coherent hguard later p id n hn
    exact ⟨n', hn', hkeeps.agreement_eq ha⟩

/-! ## §4. A late and a repeated agreement. -/

/-- Two parties without records. -/
def blank : Net :=
  ⟨⟨⟨⟨.empty, default, .counted, []⟩, none⟩, []⟩, ⟨⟨⟨.empty, default, .counted, []⟩, none⟩, []⟩⟩

/-- The agreement, as it is dated at an instant. -/
def dated (now : Instant) : Agreement :=
  ⟨"agreement-gen-0002", "provider", "consumer", "asset", {}, now⟩

/-- A message of the provider. -/
def toConsumer (payload : Payload) : Message :=
  ⟨"dsp", "http://consumer", "gen-0001", some "gen-0002", payload⟩

/-- A message of the consumer. -/
def toProvider (providerPid : Option String) (payload : Payload) : Message :=
  ⟨"dsp", "http://provider", "gen-0001", providerPid, payload⟩

/-- A negotiation up to its agreement.  The first agreement is sent, and the send fails; it is dated
anew and sent again, and this one is accepted; then the first arrives after all. -/
def untilAgreed : List (Party × Move) :=
  let offer : Offer := ⟨"offer", "asset", "provider", {}⟩
  let skip (p : Party) (k : Nat) : List (Party × Move) := List.replicate k (p, .next)
  let hear (p : Party) (inlet : Inlet) (m : Message) : Party × Move := (p, .call (.notify inlet m))
  let done (p : Party) : Party × Move := (p, .land 0 (.answered (.object [])))
  [(.first, .call (.initiate ⟨"provider", "http://provider", "dsp", offer⟩)),
   (.first, .start .consumer), (.first, .begin), (.first, .next), (.first, .begin),
   hear .second .requested
     (toProvider none (.contractRequest offer "http://consumer" "consumer")),
   (.first, .land 0 (.answered (.object [("provider_pid", .text "gen-0002")])))]
  ++ skip .first 6
  ++ [(.second, .start .provider), (.second, .begin), (.second, .next), (.second, .begin),
   hear .first .offered (toConsumer (.contractOffer offer)), done .second]
  ++ skip .second 6
  ++ [(.first, .start .consumer)] ++ skip .first 2
  ++ [(.first, .begin), (.first, .next), (.first, .begin),
   hear .second .accepted (toProvider (some "gen-0002") (.negotiationEvent .accepted)),
   done .first]
  ++ skip .first 4
  ++ [(.second, .start .provider)] ++ skip .second 2
  ++ [(.second, .begin), (.second, .next), (.second, .begin),
   (.second, .land 0 (.failed ⟨.retryable, "no route"⟩))] ++ skip .second 4
  ++ [(.second, .call (.advance 1000)), (.second, .start .provider)] ++ skip .second 3
  ++ [(.second, .begin),
   hear .first .agreed (toConsumer (.contractAgreement (dated (.ofMillis 1000)))), done .second,
   hear .first .agreed (toConsumer (.contractAgreement (dated (.ofMillis 0))))]

/-- Of the two agreements both parties hold the one that was accepted. -/
theorem later_agreement_is_one :
    (∃ n, ((blank.run Party.trader untilAgreed).ledger .second).content "gen-0002" = some n
      ∧ n.role = .provider ∧ n.agreement = some (dated (.ofMillis 1000)))
    ∧ ∃ c, ((blank.run Party.trader untilAgreed).ledger .first).content "gen-0001" = some c
      ∧ c.role = .consumer ∧ c.agreement = some (dated (.ofMillis 1000)) := by
  have hproviders : (((blank.run Party.trader untilAgreed).ledger .second).content "gen-0002").map
      (fun n => (n.role, n.correlationId, n.agreement))
      = some (.provider, some "gen-0001", some (dated (.ofMillis 1000))) := by decide +kernel
  obtain ⟨n, hn, heq⟩ := Option.map_eq_some_iff.mp hproviders
  simp only [Prod.mk.injEq] at heq
  obtain ⟨hrole, hcorrelated, hagreement⟩ := heq
  have hfresh : blank.IsFresh := fun p => by cases p <;> exact ⟨⟨rfl, rfl⟩, rfl⟩
  obtain ⟨pid, c, hpid, hc, hconsumer, hheld⟩ := (agreements_are_one Party.trader
    (fun p _ => by cases p <;> rfl) blank hfresh untilAgreed).1 .second "gen-0002" n _ hn hrole
    hagreement
  rw [hcorrelated] at hpid
  cases hpid
  exact ⟨⟨n, hn, hrole, hagreement⟩, c, hc, hconsumer, hheld⟩

end Net

end Parley
