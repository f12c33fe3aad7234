/-
  Parley.Proofs.Parties.Meeting
  ────────────────────────────────
  **TWO PARTIES THAT TALK DIRECTLY.**

  Two engines meet: each has a store of its own, the clock and the supply of ids
  are shared, and a message is handed to the other party while it is sent.  The
  k-th send has one of three fates:

      undelivered   the message does not arrive, and the send may be tried again
      returned      what the other party makes of the message is the reply
      answerLost    the same, but an acknowledgement is lost on its way back, and
                    the send may be tried again

  The records of a batch come up for handling so many at a time, and any of those
  that have come up may be next (`Meeting.inTurns`).

  A meeting keeps a record of the replies, of the messages whose
  acknowledgements were lost, and of the wishes that were made.  How a party
  reaches its world is left open; directly, nothing breaks down.
-/
import Parley.Engine.Loopback
import Parley.Proofs.Engine.Effects
import Parley.Proofs.Engine.Passage
import Parley.Proofs.Parties.Network

namespace Parley

/-! ## §1. Meetings. -/

/-- What a party has to itself. -/
structure Post where
  ledger : Ledger
  announced : List Announcement := []

/-- Two parties, the clock, the number of ids drawn, and what happened so far: the numbers of messages
sent and of records picked from a batch, and what came of the messages. -/
structure Meeting where
  now : Instant
  supply : IdSupply := .counted
  first : Post
  second : Post
  sent : Nat := 0
  picked : Nat := 0
  lost : List Message := []
  replies : List Reply := []
  wishes : List (String × ContractRequest) := []

namespace Meeting

/-- What a party has to itself. -/
def post (m : Meeting) : Party → Post
  | .first => m.first
  | .second => m.second

/-- The world of a party. -/
def world (m : Meeting) (q : Party) : World :=
  ⟨(m.post q).ledger, m.now, m.supply, (m.post q).announced⟩

/-- The meeting with another world for a party. -/
def setWorld (m : Meeting) (q : Party) (w : World) : Meeting :=
  match q with
  | .first => { m with now := w.now, supply := w.supply, first := ⟨w.ledger, w.announced⟩ }
  | .second => { m with now := w.now, supply := w.supply, second := ⟨w.ledger, w.announced⟩ }

@[simp] theorem world_setWorld_self (m : Meeting) (q : Party) (w : World) :
    (m.setWorld q w).world q = w := by
  cases q <;> rfl

@[simp] theorem setWorld_world (m : Meeting) (q : Party) : m.setWorld q (m.world q) = m := by
  cases q <;> rfl

@[simp] theorem setWorld_setWorld (m : Meeting) (q : Party) (w w' : World) :
    (m.setWorld q w).setWorld q w' = m.setWorld q w' := by
  cases q <;> rfl

/-- The records of a party. -/
def ledger (m : Meeting) (q : Party) : Ledger :=
  (m.post q).ledger

@[simp] theorem ledger_world (m : Meeting) (q : Party) : (m.world q).ledger = m.ledger q := rfl
@[simp] theorem now_world (m : Meeting) (q : Party) : (m.world q).now = m.now := rfl
@[simp] theorem supply_world (m : Meeting) (q : Party) : (m.world q).supply = m.supply := rfl

@[simp] theorem ledger_setWorld_self (m : Meeting) (q : Party) (w : World) :
    (m.setWorld q w).ledger q = w.ledger := by
  cases q <;> rfl

@[simp] theorem ledger_setWorld_other (m : Meeting) (q : Party) (w : World) :
    (m.setWorld q w).ledger q.other = m.ledger q.other := by
  cases q <;> rfl

@[simp] theorem ledger_setWorld_other_self (m : Meeting) (q : Party) (w : World) :
    (m.setWorld q.other w).ledger q = m.ledger q := by
  cases q <;> rfl

@[simp] theorem supply_setWorld (m : Meeting) (q : Party) (w : World) :
    (m.setWorld q w).supply = w.supply := by
  cases q <;> rfl

@[simp] theorem now_setWorld (m : Meeting) (q : Party) (w : World) :
    (m.setWorld q w).now = w.now := by
  cases q <;> rfl

@[simp] theorem sent_setWorld (m : Meeting) (q : Party) (w : World) :
    (m.setWorld q w).sent = m.sent := by
  cases q <;> rfl

@[simp] theorem lost_setWorld (m : Meeting) (q : Party) (w : World) :
    (m.setWorld q w).lost = m.lost := by
  cases q <;> rfl

@[simp] theorem replies_setWorld (m : Meeting) (q : Party) (w : World) :
    (m.setWorld q w).replies = m.replies := by
  cases q <;> rfl

@[simp] theorem wishes_setWorld (m : Meeting) (q : Party) (w : World) :
    (m.setWorld q w).wishes = m.wishes := by
  cases q <;> rfl

/-! ## §2. A party's access. -/

/-- Do something in a party's world. -/
def within (q : Party) (x : StateM World α) : StateM Meeting α := fun m =>
  ((x (m.world q)).1, m.setWorld q (x (m.world q)).2)

/-- A party gets at its own world. -/
def seat (q : Party) : Access (StateM Meeting) where
  now := within q Access.direct.now
  advance ms := within q (Access.direct.advance ms)
  drawId := within q Access.direct.drawId
  read f := within q (Access.direct.read f)
  use judged f := within q (Access.direct.use judged f)
  announce news := within q (Access.direct.announce news)

/-- What a party does in its own world it does in the meeting. -/
def entry (q : Party) (h : Handle) : Pairing Access.direct (seat q) h where
  rel x y := within q x = y
  given x := by
    funext m
    show (x, m.setWorld q (m.world q)) = (x, m)
    rw [setWorld_world]
  andThen := by
    rintro _ _ x _ f g rfl hg
    funext m
    show within q (x >>= f) m = g (x (m.world q)).1 (m.setWorld q (x (m.world q)).2)
    rw [← hg]
    unfold within
    rw [world_setWorld_self, setWorld_setWorld]
    rfl
  now := rfl
  drawId := rfl
  read _ := rfl
  save _ := rfl
  findAndLease _ := rfl
  breakLease _ := rfl
  nextNotLeased max criteria := by
    unfold Access.nextNotLeased
    cases Query.validate criteria with
    | error err =>
      funext m
      show (_, m.setWorld q (m.world q)) = (_, m)
      rw [setWorld_world]
      rfl
    | ok _ => rfl
  announce _ := rfl

/-! ## §3. Sends. -/

/-- What becomes of a send. -/
inductive Fate where
  | undelivered (why : String)
  | returned
  | answerLost (why : String)
deriving DecidableEq, Repr

/-- What is left open in a run: what becomes of each send, and which of the records that have come up
is handled next. -/
structure Luck where
  fate : Nat → Fate
  turn : Nat → Nat

section Conduct

variable {M : Type → Type} [Monad M] [MonadStateOf Meeting M] (seats : Party → Access M)
  (parties : Party → Engine)

/-- Hand a message to the other party, and say whether its acknowledgement is lost. -/
def deliverBy (q : Party) (m : Message) : Fate → M Reply
  | .undelivered why => return .failed ⟨.retryable, why⟩
  | .returned => (parties q.other).answer (seats q.other) m
  | .answerLost why => do
    match ← (parties q.other).answer (seats q.other) m with
    | .answered _ =>
      modify fun meeting => { meeting with lost := meeting.lost ++ [m] }
      return .failed ⟨.retryable, why⟩
    | reply => return reply

/-- A send, and its record. -/
def sendBy (luck : Luck) (q : Party) (f : Flight) : M Reply := do
  let reply ← deliverBy seats parties q f.message (luck.fate (← get).sent)
  modify fun meeting =>
    { meeting with sent := meeting.sent + 1, replies := meeting.replies ++ [reply] }
  return reply

/-- Handle so many records, each to its end: one of the first that have come up, then the others. -/
def inTurns (turn : Nat → Nat) (most : Nat) : Nat → List (M Bool) → M Nat
  | 0, _ => return 0
  | count + 1, members => do
    let here := turn (← get).picked % min (max 1 most) members.length
    modify fun meeting => { meeting with picked := meeting.picked + 1 }
    let handled ← members.getD here (return false)
    let others ← inTurns turn most count (members.eraseIdx here)
    return others + if handled then 1 else 0

/-- How a party carries out its ticks. -/
def conductBy (luck : Luck) (q : Party) : Conduct M where
  toAccess := seats q
  send := sendBy seats parties luck q
  gather most members := inTurns luck.turn most members.length members

end Conduct

/-- Hand over a message directly. -/
def deliver (parties : Party → Engine) (q : Party) (m : Message) (fate : Fate) :
    StateM Meeting Reply :=
  deliverBy seat parties q m fate

/-- Send a message directly. -/
def send (parties : Party → Engine) (luck : Luck) (q : Party) (f : Flight) :
    StateM Meeting Reply :=
  sendBy seat parties luck q f

/-- How a party carries out its ticks directly. -/
def conduct (parties : Party → Engine) (luck : Luck) (q : Party) : Conduct (StateM Meeting) :=
  conductBy seat parties luck q

/-! ## §4. Runs. -/

/-- What happens in a meeting: the first party wishes to negotiate, a party's engine ticks for a
role, or the clock goes on. -/
inductive Action where
  | initiate (r : ContractRequest)
  | tick (q : Party) (role : Role)
  | advance (ms : Int)
deriving DecidableEq, Repr

/-- Carry out an action. -/
def act (parties : Party → Engine) (luck : Luck) (m : Meeting) : Action → Meeting
  | .initiate r =>
    match (parties .first).initiate (seat .first) r m with
    | (.ok n, m) => { m with wishes := m.wishes ++ [(n.id, r)] }
    | (.error _, m) => m
  | .tick q role => ((parties q).runRole (conduct parties luck q) role m).2
  | .advance ms => { m with now := m.now.addMillis ms }

/-- A run is one action after another. -/
def run (parties : Party → Engine) (luck : Luck) (m : Meeting) (acts : List Action) :
    Meeting :=
  acts.foldl (act parties luck) m

/-- A round: both engines tick for both roles, the first party's first. -/
def round (parties : Party → Engine) (luck : Luck) (m : Meeting) : Meeting :=
  let m := ((parties .first).runOnce (conduct parties luck .first) m).2
  ((parties .second).runOnce (conduct parties luck .second) m).2

/-- Rounds, with a pause before each. -/
def rounds (parties : Party → Engine) (luck : Luck) (m : Meeting) (pauses : List Int) :
    Meeting :=
  pauses.foldl (fun m ms => (m.act parties luck (.advance ms)).round parties luck) m

theorem rounds_cons (parties : Party → Engine) (luck : Luck) (m : Meeting) (ms : Int)
    (rest : List Int) : m.rounds parties luck (ms :: rest)
      = ((m.act parties luck (.advance ms)).round parties luck).rounds parties luck rest := by
  unfold rounds
  rw [List.foldl_cons]

/-- A meeting at its start. -/
structure IsFresh (m : Meeting) : Prop where
  ledger : ∀ q, m.ledger q = .empty
  lost : m.lost = []
  replies : m.replies = []
  wishes : m.wishes = []

/-- Two parties without records. -/
def blank : Meeting :=
  { now := default, first := ⟨.empty, []⟩, second := ⟨.empty, []⟩ }

theorem isFresh_blank : blank.IsFresh :=
  ⟨fun q => by cases q <;> rfl, rfl, rfl, rfl⟩

end Meeting

end Parley
