/-
  Parley.Negotiation.State
  ────────────────────────────────
  **THE PROTOCOL GRAPH.**

  A negotiation moves through fifteen states.  A state in "-ing" means that a
  decision was taken here and its message is not yet confirmed; the state in
  "-ed" that it was sent, or that such a message was received.  An edge of the
  graph re-enters a state, moves forward, or ends the negotiation:

      INITIAL → REQUESTING → REQUESTED → OFFERING → OFFERED → ACCEPTING → ACCEPTED
        → AGREEING → AGREED → VERIFYING → VERIFIED → FINALIZING → FINALIZED

  with a short cut past each "-ing" state, back from OFFERED to OFFERING, and
  from every state that is not final to TERMINATING and TERMINATED.
-/

namespace Parley

/-! ## §1. States. -/

/-- A protocol state, shared by both roles. -/
inductive State where
  | initial
  | requesting
  | requested
  | offering
  | offered
  | accepting
  | accepted
  | agreeing
  | agreed
  | verifying
  | verified
  | finalizing
  | finalized
  | terminating
  | terminated
deriving DecidableEq, Repr, Inhabited

namespace State

/-- All states, in protocol order. -/
def all : List State :=
  [initial, requesting, requested, offering, offered, accepting, accepted, agreeing, agreed,
   verifying, verified, finalizing, finalized, terminating, terminated]

/-- The code a state is stored under. -/
def code : State → Int
  | initial => 50
  | requesting => 100
  | requested => 200
  | offering => 300
  | offered => 400
  | accepting => 700
  | accepted => 800
  | agreeing => 825
  | agreed => 850
  | verifying => 1050
  | verified => 1100
  | finalizing => 1150
  | finalized => 1200
  | terminating => 1300
  | terminated => 1400

/-- The state stored under a code. -/
def ofCode? (n : Int) : Option State :=
  all.find? fun s => s.code = n

/-- The name of a state. -/
def name : State → String
  | initial => "INITIAL"
  | requesting => "REQUESTING"
  | requested => "REQUESTED"
  | offering => "OFFERING"
  | offered => "OFFERED"
  | accepting => "ACCEPTING"
  | accepted => "ACCEPTED"
  | agreeing => "AGREEING"
  | agreed => "AGREED"
  | verifying => "VERIFYING"
  | verified => "VERIFIED"
  | finalizing => "FINALIZING"
  | finalized => "FINALIZED"
  | terminating => "TERMINATING"
  | terminated => "TERMINATED"

/-- The state of a name. -/
def ofName? (s : String) : Option State :=
  all.find? fun t => t.name = s

/-! ## §2. The graph. -/

/-- Final states are never left, not even for themselves. -/
def isFinal : State → Bool
  | finalized | terminated => true
  | _ => false

/-- The states one step ahead, leaving out re-entry and the two ends by termination. -/
def successors : State → List State
  | initial => [requesting, requested]
  | requesting => [requested]
  | requested => [offering, offered]
  | offering => [offered]
  | offered => [offering, accepting, accepted]
  | accepting => [accepted]
  | accepted => [agreeing, agreed]
  | agreeing => [agreed]
  | agreed => [verifying, verified]
  | verifying => [verified]
  | verified => [finalizing, finalized]
  | finalizing => [finalized]
  | terminating => [terminated]
  | finalized | terminated => []

/-- Whether there is an edge from one state to another. -/
def canMoveTo (s t : State) : Bool :=
  !s.isFinal && (s == t || t == terminating || t == terminated || s.successors.contains t)

/-! ## §3. Codes and names. -/

theorem mem_all (s : State) : s ∈ all := by
  cases s <;> decide

theorem ofCode?_code (s : State) : ofCode? s.code = some s := by
  cases s <;> decide

theorem code_injective {s t : State} (h : s.code = t.code) : s = t := by
  have hs := ofCode?_code s
  rw [h, ofCode?_code] at hs
  exact (Option.some.inj hs).symm

theorem code_of_ofCode? {n : Int} {s : State} (h : ofCode? n = some s) : s.code = n := by
  have := List.find?_some h
  simpa using this

theorem ofName?_name (s : State) : ofName? s.name = some s := by
  cases s <;> decide

end State

/-! ## §4. Roles. -/

/-- The side of a negotiation that a record belongs to. -/
inductive Role where
  | consumer
  | provider
deriving DecidableEq, Repr, Inhabited

namespace Role

/-- The role as a record's type. -/
def tag : Role → String
  | consumer => "CONSUMER"
  | provider => "PROVIDER"

/-- The role in running text. -/
def name : Role → String
  | consumer => "consumer"
  | provider => "provider"

/-- The role of a record's type. -/
def ofTag? : String → Option Role
  | "CONSUMER" => some consumer
  | "PROVIDER" => some provider
  | _ => none

theorem ofTag?_tag (r : Role) : ofTag? r.tag = some r := by
  cases r <;> rfl

end Role

end Parley
