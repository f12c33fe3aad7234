/-
  Parley.Proofs.Parties.Network
  ────────────────────────────────
  **TWO PARTIES AND AN UNRELIABLE NETWORK.**

  Two engines, each with a store of its own, make their moves in any order.
  Nothing is assumed of how messages come: any message can be delivered at any
  time, so those that are lost, late, repeated or out of order are all among
  them.  The one thing that the network does not do is to make up an answer: a
  send is answered only if the other party accepted that message, and then with
  the acknowledgement of what it accepted.
-/
import Parley.Engine.Loopback
import Parley.Proofs.Engine.Coherence

namespace Parley

/-! ## §1. Parties. -/

/-- One of two parties. -/
inductive Party where
  | first
  | second
deriving DecidableEq, Repr

/-- The counter party. -/
def Party.other : Party → Party
  | first => second
  | second => first

@[simp] theorem Party.other_other (p : Party) : p.other.other = p := by
  cases p <;> rfl

theorem Party.eq_or_other (p q : Party) : q = p ∨ q = p.other := by
  cases p <;> cases q <;> first | exact .inl rfl | exact .inr rfl

/-- A consumer and a provider that try each message seven times, without delay. -/
def Party.trader : Party → Engine
  | first => ⟨"consumer", "http://consumer", 10, 4, ⟨7, .immediate⟩, ⟨"consumer", 60000⟩,
      fun _ => false⟩
  | second => ⟨"provider", "http://provider", 10, 4, ⟨7, .immediate⟩, ⟨"provider", 60000⟩,
      fun _ => false⟩

/-- What a party has done so far: its session, and the messages that it accepted, each with the
record that it became part of. -/
structure Desk where
  session : Session
  accepted : List (Message × Negotiation) := []

/-- The two parties. -/
structure Net where
  first : Desk
  second : Desk

namespace Net

/-- A party's desk. -/
def desk (net : Net) : Party → Desk
  | .first => net.first
  | .second => net.second

/-- The network with another desk for a party. -/
def setDesk (net : Net) (p : Party) (d : Desk) : Net :=
  match p with
  | .first => { net with first := d }
  | .second => { net with second := d }

@[simp] theorem desk_setDesk_self (net : Net) (p : Party) (d : Desk) :
    (net.setDesk p d).desk p = d := by
  cases p <;> rfl

@[simp] theorem desk_setDesk_other (net : Net) (p : Party) (d : Desk) :
    (net.setDesk p d).desk p.other = net.desk p.other := by
  cases p <;> rfl

@[simp] theorem desk_setDesk_self_other (net : Net) (p : Party) (d : Desk) :
    (net.setDesk p.other d).desk p = net.desk p := by
  cases p <;> rfl

/-- The records of a party. -/
def ledger (net : Net) (p : Party) : Ledger :=
  (net.desk p).session.world.ledger

/-- Two parties at the start. -/
def IsFresh (net : Net) : Prop :=
  ∀ p, (net.desk p).session.IsFresh ∧ (net.desk p).accepted = []

end Net

/-! ## §2. Moves. -/

/-- The messages that a move makes an engine accept. -/
def Session.accepts (e : Engine) (s : Session) : Move → List (Message × Negotiation)
  | .call (.notify inlet m) =>
    if s.isOpen then
      match (e.notify .direct inlet m s.world).1 with
      | .ok n => [(m, n)]
      | .error _ => []
    else []
  | _ => []

/-- A session of which others draw ids from the same supply. -/
def Session.catchUp (s : Session) (drawn : Nat) : Session :=
  { s with world := { s.world with supply := s.world.supply.skipTo drawn } }

namespace Net

/-- Whether a message was accepted, and an answer is the acknowledgement of it. -/
def isAnswer (accepted : List (Message × Negotiation)) (m : Message) (response : Json) : Bool :=
  accepted.any fun (known, n) => decide (known = m ∧ response = known.payload.acknowledgement n)

/-- Whether the network lets a party make a move: an answer to a send has to be one. -/
def permits (net : Net) (p : Party) : Move → Bool
  | .land k (.answered response) =>
    match (net.desk p).session.round with
    | none => false
    | some r =>
      match r.airborne[k]? with
      | none => false
      | some f => isAnswer (net.desk p.other).accepted f.message response
  | _ => true

/-- A move of a party. -/
def step (parties : Party → Engine) (net : Net) (act : Party × Move) : Net :=
  let (p, move) := act
  if net.permits p move then
    let d := net.desk p
    let session := d.session.step (parties p) move
    let other := net.desk p.other
    (net.setDesk p ⟨session, d.accepted ++ d.session.accepts (parties p) move⟩).setDesk p.other
      { other with session := other.session.catchUp session.world.supply.drawn }
  else net

/-- A run is one move of a party after another. -/
def run (parties : Party → Engine) (net : Net) (acts : List (Party × Move)) : Net :=
  acts.foldl (step parties) net

@[simp] theorem run_nil (parties : Party → Engine) (net : Net) : net.run parties [] = net := rfl

@[simp] theorem run_cons (parties : Party → Engine) (net : Net) (act : Party × Move)
    (acts : List (Party × Move)) :
    net.run parties (act :: acts) = (net.step parties act).run parties acts := rfl

/-- A move that the network does not permit does nothing. -/
theorem step_of_not_permits {parties : Party → Engine} {net : Net} {p : Party} {move : Move}
    (h : net.permits p move = false) : net.step parties (p, move) = net := by
  unfold step
  simp [h]

variable {parties : Party → Engine} {net : Net} {p : Party} {move : Move}

theorem desk_step_self (h : net.permits p move = true) :
    (net.step parties (p, move)).desk p
      = ⟨(net.desk p).session.step (parties p) move,
          (net.desk p).accepted ++ (net.desk p).session.accepts (parties p) move⟩ := by
  unfold step
  simp [h]

theorem desk_step_other (h : net.permits p move = true) :
    (net.step parties (p, move)).desk p.other
      = { net.desk p.other with
          session := (net.desk p.other).session.catchUp
            ((net.desk p).session.step (parties p) move).world.supply.drawn } := by
  unfold step
  simp [h]

end Net

/-! ## §3. Growth. -/

/-- Records are only added to. -/
def Ledger.Grows (l l' : Ledger) : Prop :=
  ∀ id n, l.content id = some n → ∃ n', l'.content id = some n' ∧ n.Keeps n'

namespace Ledger

theorem Grows.refl (l : Ledger) : l.Grows l :=
  fun _ n hn => ⟨n, hn, Negotiation.Keeps.refl n⟩

theorem Grows.trans {l l' l'' : Ledger} (h : l.Grows l') (h' : l'.Grows l'') : l.Grows l'' := by
  intro id n hn
  obtain ⟨n', hn', hkeeps⟩ := h id n hn
  obtain ⟨n'', hn'', hkeeps'⟩ := h' id n' hn'
  exact ⟨n'', hn'', hkeeps.trans hkeeps'⟩

end Ledger

namespace Session

variable {s : Session} {e : Engine}

/-- While nothing is parked, records are only added to. -/
theorem step_grows (h : s.IsCoherent e) (hguard : ∀ n, e.guard n = false) (move : Move) :
    s.world.ledger.Grows (s.step e move).world.ledger := by
  intro id n hn
  rcases (step_effect h move).1.kinds with ⟨hcontent, _⟩ | ⟨m, m', hm, _, hkeeps, hputs⟩
    | ⟨m, _, _, hbears⟩ | ⟨m, ⟨_, hheld, _⟩, _⟩
  · exact ⟨n, (hcontent id).trans hn, Negotiation.Keeps.refl n⟩
  · by_cases hid : m'.id = id
    · have hself := hputs.content_self
      rw [hid] at hself
      have hmn : m = n := by
        rw [← hkeeps.id, hid, hn] at hm
        exact (Option.some.inj hm).symm
      rw [hmn] at hkeeps
      exact ⟨_, hself, hkeeps.withLease none⟩
    · exact ⟨n, (hputs.content_of_ne hid).trans hn, Negotiation.Keeps.refl n⟩
  · have hne : m.id ≠ id := by
      intro hid
      rw [← hid, hbears.id, h.orderly.content_nextId] at hn
      cases hn
    exact ⟨n, by rw [hbears.content, if_neg hne, hn], Negotiation.Keeps.refl n⟩
  · rw [hguard m] at hheld
    cases hheld

/-- A session stays coherent when ids are drawn elsewhere. -/
theorem IsCoherent.catchUp (h : s.IsCoherent e) (drawn : Nat) :
    (s.catchUp drawn).IsCoherent e where
  orderly :=
    { held := h.orderly.held
      numbered := h.orderly.numbered.mono (IdSupply.precedes_skipTo _ _)
      sound := h.orderly.sound }
  round := h.round

end Session

namespace Net

variable {parties : Party → Engine} {net : Net}

/-- Both parties' sessions are coherent. -/
def IsCoherent (net : Net) (parties : Party → Engine) : Prop :=
  ∀ p, (net.desk p).session.IsCoherent (parties p)

theorem IsFresh.isCoherent (h : net.IsFresh) : net.IsCoherent parties :=
  fun p => (h p).1.isCoherent (parties p)

/-- A move keeps both parties coherent. -/
theorem IsCoherent.step (h : net.IsCoherent parties) (act : Party × Move) :
    (net.step parties act).IsCoherent parties := by
  obtain ⟨p, move⟩ := act
  cases hp : net.permits p move with
  | false =>
    rw [step_of_not_permits hp]
    exact h
  | true =>
    have hself : ((net.step parties (p, move)).desk p).session.IsCoherent (parties p) := by
      rw [desk_step_self hp]
      exact (Session.step_effect (h p) move).2
    have hother : ((net.step parties (p, move)).desk p.other).session.IsCoherent
        (parties p.other) := by
      rw [desk_step_other hp]
      exact (h p.other).catchUp _
    intro q
    rcases Party.eq_or_other p q with rfl | rfl
    · exact hself
    · exact hother

end Net

end Parley
