/-
  Parley.Proofs.Negotiation.History
  ────────────────────────────────
  **WHAT A RECORD TELLS OF ITS PAST.**

  A record is changed in place, field by field, and a command may be refused
  after some of its steps (`InPlace`).  Nothing is lost by that: every check comes
  before the first field is touched, so the commands do what `moveTo` and
  `agreeOn` say (`run_moveTo`, `run_agreeOn`).

  Whatever a new record is commanded, its fields can be read off the commands
  that were granted (`record_of_history`):

      state            the end of a path through the graph, from INITIAL
      state count      how many moves there were since the state last changed
      time of state    the latest of the times of all moves, and of the creation
      agreement        that of the first command to set one
-/
import Parley.Proofs.Negotiation.Progress
import Mathlib.Data.List.Chain

namespace Parley

namespace Negotiation

/-! ## §1. Changes in place. -/

/-- A change of a record in place.  What is done before it is refused stays done. -/
abbrev InPlace := ExceptT TransitionError (StateM Negotiation)

namespace InPlace

/-- Enter a state. -/
def enter (state : Int) (now : Instant) : InPlace Unit := do
  modify fun n => { n with stateCount := if n.state = state then n.stateCount + 1 else 0 }
  modify fun n => { n with state := state }
  modify fun n => { n with stateTimestamp := n.stateTimestamp.later now }
  modify fun n => { n with updatedAt := now }

/-- Move along an edge of the graph. -/
def moveTo (target : State) (now : Instant) : InPlace Unit := do
  match (← get).protocolState with
  | .error e => throw e
  | .ok source =>
    if source.canMoveTo target then
      enter target.code now
    else
      throw (.illegal (← get).id source target)

/-- Move to AGREED, and set the agreement. -/
def agreeOn (agreement : Agreement) (now : Instant) : InPlace Unit := do
  if (← get).agreement.isSome then
    throw (.agreementAlreadySet (← get).id)
  else
    moveTo .agreed now
    modify fun n => { n with agreement := some agreement }

end InPlace

/-! ## §2. Commands. -/

/-- What a record can be told to do. -/
inductive Command where
  | move (target : State) (now : Instant)
  | agree (agreement : Agreement) (now : Instant)
  | offer (added : Offer)
  | pending (held : Bool)
  | errorDetail (detail : String)
deriving DecidableEq, Repr

namespace Command

/-- What is done to the record. -/
def inPlace : Command → InPlace Unit
  | move target now => .moveTo target now
  | agree agreement now => .agreeOn agreement now
  | offer added => modify (·.addOffer added)
  | pending held => modify (·.withPending held)
  | errorDetail detail => modify (·.withErrorDetail detail)

/-- The answer to a command, and the record then. -/
def run (c : Command) (n : Negotiation) : Except TransitionError Unit × Negotiation :=
  c.inPlace.run.run n

end Command

/-- What a change that succeeds or fails as a whole leaves of a record. -/
def settle (n : Negotiation) :
    Except TransitionError Negotiation → Except TransitionError Unit × Negotiation
  | .error e => (.error e, n)
  | .ok m => (.ok (), m)

/-- One change after another. -/
theorem run_bind (first : InPlace α) (next : α → InPlace β) (n : Negotiation) :
    (first >>= next).run.run n = match first.run.run n with
      | (.error e, m) => (.error e, m)
      | (.ok a, m) => (next a).run.run m := by
  rw [ExceptT.run_bind, StateT.run_bind]
  cases first.run.run n with
  | mk r m => cases r <;> rfl

theorem run_get_bind (next : Negotiation → InPlace α) (n : Negotiation) :
    (get >>= next).run.run n = (next n).run.run n := rfl

/-- Nothing is touched before a move is allowed. -/
theorem run_moveTo (n : Negotiation) (target : State) (now : Instant) :
    (InPlace.moveTo target now).run.run n = n.settle (n.moveTo target now) := by
  unfold InPlace.moveTo Negotiation.moveTo checkEdge
  rw [run_get_bind]
  cases n.protocolState with
  | error e => rfl
  | ok source =>
    simp only
    split
    · rfl
    · rfl

/-- Nor is anything touched before an agreement is accepted. -/
theorem run_agreeOn (n : Negotiation) (agreement : Agreement) (now : Instant) :
    (InPlace.agreeOn agreement now).run.run n = n.settle (n.agreeOn agreement now) := by
  unfold InPlace.agreeOn Negotiation.agreeOn
  rw [run_get_bind]
  split
  · rfl
  · rw [run_bind, run_moveTo]
    cases n.moveTo .agreed now <;> rfl

/-! ## §3. Episodes. -/

/-- A command, what was answered, and the record before and after. -/
structure Episode where
  before : Negotiation
  command : Command
  answer : Except TransitionError Unit
  after : Negotiation

namespace Episode

/-- A command to a record. -/
def of (n : Negotiation) (c : Command) : Episode :=
  ⟨n, c, (c.run n).1, (c.run n).2⟩

/-- The state that was entered, and when, if the command was to enter one and was granted. -/
def entered? (e : Episode) : Option (State × Instant) :=
  match e.answer, e.command with
  | .ok _, .move target now => some (target, now)
  | .ok _, .agree _ now => some (.agreed, now)
  | _, _ => none

/-- The agreement that was set. -/
def agreed? (e : Episode) : Option Agreement :=
  match e.answer, e.command with
  | .ok _, .agree agreement _ => some agreement
  | _, _ => none

/-- Whether the state is the same as before. -/
def stays (e : Episode) : Bool :=
  e.before.state = e.after.state

/-- How an episode goes: the command is refused and the record is as it was, or what it changes is
not told by the history, or a state is entered. -/
inductive Outcome (e : Episode) : Prop
  | refused (err : TransitionError) (hanswer : e.answer = .error err) (hafter : e.after = e.before)
  | noted (hanswer : e.answer = .ok ()) (hentered : e.entered? = none) (hagreed : e.agreed? = none)
      (hstate : e.after.state = e.before.state) (hcount : e.after.stateCount = e.before.stateCount)
      (hstamp : e.after.stateTimestamp = e.before.stateTimestamp)
      (hagreement : e.after.agreement = e.before.agreement)
  | moved (source target : State) (now : Instant) (hanswer : e.answer = .ok ())
      (hentered : e.entered? = some (target, now)) (hsource : e.before.state = source.code)
      (hedge : source.canMoveTo target = true) (hstate : e.after.state = target.code)
      (hcount : e.after.stateCount
        = if e.before.state = target.code then e.before.stateCount + 1 else 0)
      (hstamp : e.after.stateTimestamp = e.before.stateTimestamp.later now)
      (hagreement : e.after.agreement = e.before.agreement.or e.agreed?)

/-- An episode of a change that succeeds or fails as a whole. -/
theorem of_settle {n : Negotiation} {c : Command} {r : Except TransitionError Negotiation}
    (h : c.run n = n.settle r) :
    (∃ err, r = .error err ∧ of n c = ⟨n, c, .error err, n⟩)
      ∨ ∃ m, r = .ok m ∧ of n c = ⟨n, c, .ok (), m⟩ := by
  unfold of
  rw [h]
  cases r with
  | error err => exact .inl ⟨err, rfl, rfl⟩
  | ok m => exact .inr ⟨m, rfl, rfl⟩

/-- Every command goes one of the three ways. -/
theorem outcome (n : Negotiation) (c : Command) : (of n c).Outcome := by
  cases c with
  | move target now =>
    obtain ⟨err, -, he⟩ | ⟨m, hm, he⟩ := of_settle (c := .move target now) (n.run_moveTo target now)
    · rw [he]
      exact .refused err rfl rfl
    · rw [he]
      obtain ⟨hcheck, rfl⟩ := moveTo_eq_ok hm
      obtain ⟨source, hsource, hedge⟩ := checkEdge_eq_ok_iff.mp hcheck
      exact .moved source target now rfl rfl hsource hedge rfl rfl rfl Option.or_none.symm
  | agree agreement now =>
    obtain ⟨err, -, he⟩ | ⟨m, hm, he⟩ :=
      of_settle (c := .agree agreement now) (n.run_agreeOn agreement now)
    · rw [he]
      exact .refused err rfl rfl
    · rw [he]
      obtain ⟨hnone, hcheck, rfl⟩ := agreeOn_eq_ok hm
      obtain ⟨source, hsource, hedge⟩ := checkEdge_eq_ok_iff.mp hcheck
      refine .moved source .agreed now rfl rfl hsource hedge rfl rfl rfl ?_
      show some agreement = n.agreement.or (some agreement)
      rw [hnone]
      rfl
  | offer added => exact .noted rfl rfl rfl rfl rfl rfl rfl
  | pending held => exact .noted rfl rfl rfl rfl rfl rfl rfl
  | errorDetail detail => exact .noted rfl rfl rfl rfl rfl rfl rfl

end Episode

/-! ## §4. Histories. -/

/-- What becomes of a record by some commands. -/
def follow (n : Negotiation) (cs : List Command) : Negotiation :=
  cs.foldl (fun n c => (c.run n).2) n

/-- The episodes of some commands to a record, oldest first. -/
def history (n : Negotiation) : List Command → List Episode
  | [] => []
  | c :: rest => .of n c :: history (c.run n).2 rest

/-- The states that were entered. -/
def entered (log : List Episode) : List State :=
  log.filterMap fun e => e.entered?.map (·.1)

/-- When they were entered. -/
def times (log : List Episode) : List Instant :=
  log.filterMap fun e => e.entered?.map (·.2)

/-- The number of moves since the state last changed. -/
def reentries (log : List Episode) : Nat :=
  ((log.filter fun e => e.entered?.isSome).reverse.takeWhile Episode.stays).length

theorem follow_append (n : Negotiation) (cs more : List Command) :
    n.follow (cs ++ more) = (n.follow cs).follow more :=
  List.foldl_append

theorem history_append (n : Negotiation) (cs more : List Command) :
    n.history (cs ++ more) = n.history cs ++ (n.follow cs).history more := by
  induction cs generalizing n with
  | nil => rfl
  | cons c rest ih => exact congrArg (Episode.of n c :: ·) (ih (c.run n).2)

/-- A history tells the fields of a record that was in INITIAL when it was created. -/
structure Tells (created : Instant) (log : List Episode) (n : Negotiation) : Prop where
  path : (State.initial :: entered log).IsChain fun s t => s.canMoveTo t = true
  state : ∃ last, (State.initial :: entered log).getLast? = some last ∧ n.state = last.code
  count : n.stateCount = reentries log
  stamp : n.stateTimestamp ∈ created :: times log
  latest : ∀ t ∈ created :: times log, t ≤ n.stateTimestamp
  agreement : n.agreement = (log.filterMap (·.agreed?)).head?

/-- A new record has no history. -/
theorem tells_new (id : String) (role : Role) (counterPartyId counterPartyAddress protocol : String)
    (created : Instant) :
    Tells created [] (.new id role counterPartyId counterPartyAddress protocol created) where
  path := List.isChain_singleton _
  state := ⟨.initial, rfl, rfl⟩
  count := rfl
  stamp := List.mem_cons_self
  latest t ht := by
    rw [List.mem_singleton.mp ht]
    exact Int.le_refl _
  agreement := rfl

section Next

variable {created : Instant} {log : List Episode} {e : Episode}

/-- An episode in which no state is entered adds nothing to what is told. -/
theorem Tells.unmoved (h : Tells created log e.before) (hentered : e.entered? = none)
    (hagreed : e.agreed? = none) (hstate : e.after.state = e.before.state)
    (hcount : e.after.stateCount = e.before.stateCount)
    (hstamp : e.after.stateTimestamp = e.before.stateTimestamp)
    (hagreement : e.after.agreement = e.before.agreement) : Tells created (log ++ [e]) e.after := by
  have hpath : entered (log ++ [e]) = entered log := by simp [entered, hentered]
  have htimes : times (log ++ [e]) = times log := by simp [times, hentered]
  have hcounted : reentries (log ++ [e]) = reentries log := by simp [reentries, hentered]
  have hset : (log ++ [e]).filterMap (·.agreed?) = log.filterMap (·.agreed?) := by simp [hagreed]
  constructor
  · rw [hpath]
    exact h.path
  · rw [hpath, hstate]
    exact h.state
  · rw [hcounted, hcount]
    exact h.count
  · rw [htimes, hstamp]
    exact h.stamp
  · rw [htimes, hstamp]
    exact h.latest
  · rw [hset, hagreement]
    exact h.agreement

/-- A move makes the path longer by one edge. -/
theorem Tells.moved (h : Tells created log e.before) {source target : State} {now : Instant}
    (hentered : e.entered? = some (target, now)) (hsource : e.before.state = source.code)
    (hedge : source.canMoveTo target = true) (hstate : e.after.state = target.code)
    (hcount : e.after.stateCount
      = if e.before.state = target.code then e.before.stateCount + 1 else 0)
    (hstamp : e.after.stateTimestamp = e.before.stateTimestamp.later now)
    (hagreement : e.after.agreement = e.before.agreement.or e.agreed?) :
    Tells created (log ++ [e]) e.after := by
  have hpath : entered (log ++ [e]) = entered log ++ [target] := by simp [entered, hentered]
  have htimes : times (log ++ [e]) = times log ++ [now] := by simp [times, hentered]
  have hcounted : reentries (log ++ [e]) = if e.stays then reentries log + 1 else 0 := by
    simp only [reentries, List.filter_append, List.filter_cons, hentered, Option.isSome_some,
      if_true, List.filter_nil, List.reverse_append, List.reverse_singleton, List.singleton_append,
      List.takeWhile_cons]
    split <;> rfl
  obtain ⟨last, hlast, hcode⟩ := h.state
  obtain rfl : last = source := State.code_injective (hcode.symm.trans hsource)
  constructor
  · rw [hpath, ← List.cons_append, List.isChain_append]
    refine ⟨h.path, List.isChain_singleton _, ?_⟩
    rintro s hs t ⟨⟩
    rw [hlast] at hs
    cases hs
    exact hedge
  · exact ⟨target, by rw [hpath, ← List.cons_append, List.getLast?_concat], hstate⟩
  · rw [hcounted, hcount, h.count]
    unfold Episode.stays
    rw [hstate]
    simp only [decide_eq_true_eq]
  · rw [htimes, hstamp, ← List.cons_append, List.mem_append, List.mem_singleton]
    unfold Instant.later
    split
    · exact .inl h.stamp
    · exact .inr rfl
  · intro t ht
    rw [htimes, ← List.cons_append, List.mem_append, List.mem_singleton] at ht
    rw [hstamp, Instant.le_def, Instant.rank_later]
    rcases ht with hold | rfl
    · exact Int.le_trans (h.latest t hold) (Int.le_max_left _ _)
    · exact Int.le_max_right _ _
  · rw [hagreement, h.agreement, List.filterMap_append, List.head?_append]
    cases hset : e.agreed? <;> simp [hset]

/-- One more episode is told as well. -/
theorem Tells.next (h : Tells created log e.before) (he : e.Outcome) :
    Tells created (log ++ [e]) e.after := by
  cases he with
  | refused err hanswer hafter =>
    have hentered : e.entered? = none := by
      unfold Episode.entered?
      rw [hanswer]
    have hagreed : e.agreed? = none := by
      unfold Episode.agreed?
      rw [hanswer]
    exact h.unmoved hentered hagreed (by rw [hafter]) (by rw [hafter]) (by rw [hafter])
      (by rw [hafter])
  | noted _ hentered hagreed hstate hcount hstamp hagreement =>
    exact h.unmoved hentered hagreed hstate hcount hstamp hagreement
  | moved source target now _ hentered hsource hedge hstate hcount hstamp hagreement =>
    exact h.moved hentered hsource hedge hstate hcount hstamp hagreement

end Next

/-! ## §5. Any commands. -/

section Commands

variable (n : Negotiation) (cs : List Command)

theorem length_history : (n.history cs).length = cs.length := by
  induction cs generalizing n with
  | nil => rfl
  | cons c rest ih => exact congrArg (· + 1) (ih (c.run n).2)

theorem outcome_of_mem_history {e : Episode} (he : e ∈ n.history cs) : e.Outcome := by
  induction cs generalizing n with
  | nil => exact absurd he List.not_mem_nil
  | cons c rest ih =>
    rcases List.mem_cons.mp he with rfl | hlater
    · exact Episode.outcome n c
    · exact ih _ hlater

/-- A refusal leaves the record as it was. -/
theorem Episode.Outcome.after_of_error {e : Episode} (h : e.Outcome) {err : TransitionError}
    (herr : e.answer = .error err) : e.after = e.before := by
  cases h with
  | refused _ _ hafter => exact hafter
  | noted hok | moved _ _ _ hok =>
    rw [hok] at herr
    cases herr

/-- The history of a new record tells its fields. -/
theorem tells_history (id : String) (role : Role)
    (counterPartyId counterPartyAddress protocol : String) (created : Instant)
    (cs : List Command) :
    let n := Negotiation.new id role counterPartyId counterPartyAddress protocol created
    Tells created (n.history cs) (n.follow cs) := by
  intro n
  induction cs using List.reverseRecOn with
  | nil => exact tells_new id role counterPartyId counterPartyAddress protocol created
  | append_singleton cs c ih =>
    rw [history_append, follow_append]
    exact ih.next (Episode.outcome _ c)

end Commands

/-- There is no way on from a final state. -/
theorem eq_nil_of_isFinal {before later : List State} {s : State}
    (h : (before ++ s :: later).IsChain fun s t => s.canMoveTo t = true) (hs : s.isFinal = true) :
    later = [] := by
  cases later with
  | nil => rfl
  | cons t rest =>
    have hstep := (List.isChain_append.mp h).2.1
    have hedge := (List.isChain_cons_cons.mp hstep).1
    rw [State.canMoveTo_of_isFinal hs] at hedge
    cases hedge

theorem reentries_le (log : List Episode) : reentries log ≤ log.length :=
  calc reentries log ≤ (log.filter fun e => e.entered?.isSome).reverse.length :=
        (List.takeWhile_sublist _).length_le
    _ = (log.filter fun e => e.entered?.isSome).length := List.length_reverse
    _ ≤ log.length := List.length_filter_le _ _

/-- For every new record and all commands to it, at whatever times:

    • a command that is refused leaves the record as it was;
    • the states that are entered make a path through the graph, from INITIAL to the record's state,
      so once a final one is entered no other is;
    • the agreement is that of the first command to set one, and no later command changes it;
    • the state count is the number of moves since the state last changed, and no greater than the
      number of commands;
    • the time of the state is the latest of the times of the creation and of all moves. -/
theorem record_of_history (id : String) (role : Role)
    (counterPartyId counterPartyAddress protocol : String) (created : Instant)
    (cs : List Command) :
    let n := Negotiation.new id role counterPartyId counterPartyAddress protocol created
    let log := n.history cs
    let m := n.follow cs
    (∀ e ∈ log, ∀ err, e.answer = .error err → e.after = e.before)
      ∧ (State.initial :: entered log).IsChain (fun s t => s.canMoveTo t = true)
      ∧ (∃ last, (State.initial :: entered log).getLast? = some last ∧ m.state = last.code)
      ∧ (∀ earlier e later s now, log = earlier ++ e :: later → e.entered? = some (s, now) →
          s.isFinal = true → ∀ e' ∈ later, e'.entered? = none)
      ∧ m.agreement = (log.filterMap (·.agreed?)).head?
      ∧ (∀ agreement more, m.agreement = some agreement →
          (n.follow (cs ++ more)).agreement = some agreement)
      ∧ m.stateCount = reentries log ∧ m.stateCount ≤ cs.length
      ∧ m.stateTimestamp ∈ created :: times log
      ∧ ∀ t ∈ created :: times log, t ≤ m.stateTimestamp := by
  intro n log m
  have htells : Tells created log m :=
    tells_history id role counterPartyId counterPartyAddress protocol created cs
  have hfinal : ∀ earlier e later s now, log = earlier ++ e :: later →
      e.entered? = some (s, now) → s.isFinal = true → ∀ e' ∈ later, e'.entered? = none := by
    intro earlier e later s now hlog hentered hs e' he'
    have hpath : State.initial :: entered log
        = (State.initial :: entered earlier) ++ s :: entered later := by
      simp [hlog, entered, hentered]
    have hnil : entered later = [] := eq_nil_of_isFinal (hpath ▸ htells.path) hs
    exact Option.map_eq_none_iff.mp (List.filterMap_eq_nil_iff.mp hnil e' he')
  have hkept : ∀ agreement more, m.agreement = some agreement →
      (n.follow (cs ++ more)).agreement = some agreement := by
    intro agreement more hset
    have hlater := (tells_history id role counterPartyId counterPartyAddress protocol created
      (cs ++ more)).agreement
    rw [history_append, List.filterMap_append, List.head?_append, ← htells.agreement, hset] at hlater
    exact hlater
  have hcount : m.stateCount ≤ cs.length := by
    rw [htells.count, ← length_history n cs]
    exact reentries_le log
  exact ⟨fun e he _ herr => (outcome_of_mem_history n cs he).after_of_error herr, htells.path,
    htells.state, hfinal, htells.agreement, hkept, htells.count, hcount, htells.stamp, htells.latest⟩

/-- Two re-entries, a refusal, and a clock that runs backwards. -/
example :
    let n := Negotiation.new "n-1" .consumer "provider" "http://provider" "dsp" (.ofMillis 7)
    let m := n.follow [.move .requesting (.ofMillis 5), .move .requesting (.ofMillis 9),
      .move .agreed (.ofMillis 20), .move .requesting (.ofMillis 3)]
    (m.state, m.stateCount, m.stateTimestamp) = (State.requesting.code, 2, .ofMillis 9) := by
  decide +kernel

end Negotiation

end Parley
