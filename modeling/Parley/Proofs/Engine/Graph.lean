/-
  Parley.Proofs.Engine.Graph
  ────────────────────────────────
  **STORED STATES FOLLOW THE PROTOCOL GRAPH, BUT FOR PARKING.**

  Every message, reply, decision and wish to terminate changes a stored state
  along an edge of the graph.  A record that the guard holds back is the
  exception: it is stored as it was leased, so a termination that came in while
  another record of the batch was sent for is undone.  This is the only way off
  the graph (`state_changes_along_edges`); FINALIZED is never left.
-/
import Parley.Proofs.Engine.Coherence

namespace Parley

/-! ## §1. Stored states. -/

namespace Ledger

/-- The state that is stored for an id. -/
def state? (l : Ledger) (id : String) : Option State :=
  (l.find? id).bind fun n => State.ofCode? n.state

theorem state?_eq_some_iff {l : Ledger} {id : String} {a : State} :
    l.state? id = some a ↔ ∃ n, l.content id = some n ∧ n.state = a.code := by
  unfold state? content
  cases l.find? id with
  | none => simp
  | some n =>
    simp only [Option.bind_some, Option.map_some, Option.some.injEq, exists_eq_left']
    constructor
    · intro h
      exact (State.code_of_ofCode? h).symm
    · intro h
      have hcode : n.state = a.code := h
      rw [hcode, State.ofCode?_code]

end Ledger

/-! ## §2. Parking. -/

namespace Session

variable {s : Session} {e : Engine}

/-- What parking stores. -/
theorem Parks.puts (h : s.IsCoherent e) {move : Move} {n : Negotiation}
    (hparks : s.Parks e move n) : s.world.Puts (s.step e move).world (n.withPending true) := by
  obtain ⟨rfl, hguard, r, rest, hr, hahead, hroom⟩ := hparks
  have hstep : s.step e .begin = beginOne e s.world r n rest := by
    simp only [step, hr, stepRound, hahead]
    rw [if_pos hroom]
  rw [hstep, beginOne, Engine.begin_direct h.orderly.held, if_pos hguard]
  exact World.puts_park s.world (n.withPending true)

/-- A message's state is not reached from the two ends. -/
theorem not_canMoveTo_source {a : State} {message : Sending}
    (ha : a = .terminating ∨ a = .terminated) (hne : a ≠ message.source) :
    a.canMoveTo message.source = false := by
  rcases ha with rfl | rfl
  · cases message <;> first
      | rfl
      | exact absurd rfl hne
  · exact State.canMoveTo_of_isFinal rfl _

/-- A record is parked in the state that it has, or termination has been decided or taken place and
it is put back into the state in which its message was due. -/
theorem Parks.states (h : s.IsCoherent e) {move : Move} {n : Negotiation}
    (hparks : s.Parks e move n) {a b : State} (ha : s.world.ledger.state? n.id = some a)
    (hb : (s.step e move).world.ledger.state? n.id = some b) :
    a = b ∨ ((a = .terminating ∨ a = .terminated) ∧ ∃ message : Sending, b = message.source) := by
  obtain ⟨before, hbefore, hacode⟩ := Ledger.state?_eq_some_iff.mp ha
  obtain ⟨after, hafter, hbcode⟩ := Ledger.state?_eq_some_iff.mp hb
  have hself := (hparks.puts h).content_self
  have hid : (n.withPending true).id = n.id := rfl
  rw [hid, hafter] at hself
  cases hself
  have hncode : n.state = b.code := hbcode
  obtain ⟨_, _, r, rest, hr, hahead, _⟩ := hparks
  have hround := h.round r hr
  have hin : n ∈ r.ahead := hahead ▸ List.mem_cons_self
  have hstate := (hround.leased n (List.mem_append_left _ hin)).state
  cases hduty : r.duty with
  | decide source target =>
    -- A record that is to be decided on is stored as it was leased.
    rw [hround.fresh source target hduty n hin] at hbefore
    cases hbefore
    have hcode : n.state = a.code := hacode
    exact .inl (State.code_injective (hcode.symm.trans hncode))
  | send message =>
    rw [hduty] at hstate
    have hsource : b = message.source := State.code_injective (hncode.symm.trans hstate)
    have hawaits := hround.awaiting message hduty n hin before hbefore
    rw [Negotiation.Awaits, hacode] at hawaits
    rcases hawaits with hcode | hcode | hcode
    · exact .inl ((State.code_injective hcode).trans hsource.symm)
    · exact .inr ⟨.inl (State.code_injective hcode), message, hsource⟩
    · exact .inr ⟨.inr (State.code_injective hcode), message, hsource⟩

/-! ## §3. Every other change. -/

/-- A stored state stays or changes along an edge, unless the record is parked. -/
theorem step_state (h : s.IsCoherent e) (move : Move) {id : String} {a : State}
    (ha : s.world.ledger.state? id = some a) :
    ∃ b, (s.step e move).world.ledger.state? id = some b
      ∧ (a = b ∨ a.canMoveTo b = true ∨ ∃ n, s.Parks e move n ∧ n.id = id) := by
  obtain ⟨n, hn, hcode⟩ := Ledger.state?_eq_some_iff.mp ha
  have hsame {w' : World} (hw : w'.ledger.content id = s.world.ledger.content id) :
      w'.ledger.state? id = some a :=
    Ledger.state?_eq_some_iff.mpr ⟨n, hw.trans hn, hcode⟩
  obtain ⟨heffect, hcoherent⟩ := step_effect h move
  rcases heffect.kinds with ⟨hcontent, _⟩ | ⟨m, m', hm, hmoves, hkeeps, hputs⟩
    | ⟨m, _, _, hbears⟩ | ⟨m, hparks, hputs⟩
  · exact ⟨a, hsame (hcontent id), .inl rfl⟩
  -- A record was moved: this one or another.
  · by_cases hid : m'.id = id
    · obtain ⟨s₁, s₂, hs₁, hs₂, hedge⟩ := hmoves
      have hmn : m = n := by
        rw [← hkeeps.id, hid, hn] at hm
        exact (Option.some.inj hm).symm
      have has : a = s₁ := State.code_injective (by rw [← hcode, ← hs₁, hmn])
      have hself := hputs.content_self
      rw [hid] at hself
      refine ⟨s₂, Ledger.state?_eq_some_iff.mpr ⟨_, hself, hs₂⟩, .inr (.inl ?_)⟩
      rw [has]
      exact hedge
    · exact ⟨a, hsame (hputs.content_of_ne hid), .inl rfl⟩
  -- A record was added, and its id was free.
  · have hne : m.id ≠ id := by
      intro hid
      rw [← hid, hbears.id, h.orderly.content_nextId] at hn
      cases hn
    exact ⟨a, hsame (by rw [hbears.content, if_neg hne]), .inl rfl⟩
  -- A record was parked: this one or another.
  · by_cases hid : m.id = id
    · have hself := hputs.content_self
      have hname : (m.withPending true).id = id := hid
      rw [hname] at hself
      obtain ⟨b, hb⟩ := (hcoherent.orderly.sound _ _ hself).known
      exact ⟨b, Ledger.state?_eq_some_iff.mpr ⟨_, hself, hb⟩, .inr (.inr ⟨m, hparks, hid⟩)⟩
    · exact ⟨a, hsame (hputs.content_of_ne hid), .inl rfl⟩

/-- FINALIZED is not left. -/
theorem step_finalized (h : s.IsCoherent e) (move : Move) {id : String}
    (ha : s.world.ledger.state? id = some .finalized) :
    (s.step e move).world.ledger.state? id = some .finalized := by
  obtain ⟨b, hb, rfl | hedge | ⟨n, hparks, rfl⟩⟩ := step_state h move ha
  · exact hb
  · rw [State.canMoveTo_of_isFinal rfl] at hedge
    cases hedge
  · rcases hparks.states h ha hb with rfl | ⟨hends, _⟩
    · exact hb
    · rcases hends with hend | hend <;> cases hend

theorem run_finalized (h : s.IsCoherent e) (moves : List Move) {id : String}
    (ha : s.world.ledger.state? id = some .finalized) :
    (s.run e moves).world.ledger.state? id = some .finalized := by
  induction moves generalizing s with
  | nil => exact ha
  | cons move moves ih => exact ih (step_effect h move).2 (step_finalized h move ha)

/-! ## §4. The graph. -/

/-- In every run from a world without records, a stored state never disappears, and a change of it
follows an edge of the graph exactly if it is not by parking the record.  FINALIZED is never left,
and TERMINATED by parking only. -/
theorem state_changes_along_edges (e : Engine) (s : Session) (hs : s.IsFresh)
    (moves : List Move) :
    (∀ move id a, (s.run e moves).world.ledger.state? id = some a →
      ∃ b, ((s.run e moves).step e move).world.ledger.state? id = some b
        ∧ (a ≠ b → (a.canMoveTo b = true
            ↔ ¬ ∃ n, (s.run e moves).Parks e move n ∧ n.id = id))
        ∧ (a = .terminated → b = .terminated
            ∨ ∃ n, (s.run e moves).Parks e move n ∧ n.id = id))
    ∧ ∀ later id, (s.run e moves).world.ledger.state? id = some .finalized →
        ((s.run e moves).run e later).world.ledger.state? id = some .finalized := by
  have h := (hs.isCoherent e).run moves
  refine ⟨fun move id a ha => ?_, fun later id ha => run_finalized h later ha⟩
  obtain ⟨b, hb, hcases⟩ := step_state h move ha
  refine ⟨b, hb, fun hab => ⟨?_, fun hnot => ?_⟩, fun hterminated => ?_⟩
  -- Parking leads back to where a message is due, and from the ends no edge does.
  · rintro hedge ⟨n, hparks, rfl⟩
    rcases hparks.states h ha hb with rfl | ⟨hends, message, rfl⟩
    · exact hab rfl
    · rw [not_canMoveTo_source hends hab] at hedge
      cases hedge
  · rcases hcases with rfl | hedge | hparks
    · exact absurd rfl hab
    · exact hedge
    · exact absurd hparks hnot
  · rcases hcases with rfl | hedge | hparks
    · exact .inl hterminated
    · rw [hterminated, State.canMoveTo_of_isFinal rfl] at hedge
      cases hedge
    · exact .inr hparks

/-! ## §5. A termination undone. -/

/-- An engine that holds back its second negotiation. -/
def holdingBack : Engine where
  participantId := "consumer"
  callbackAddress := "http://consumer"
  batchSize := 10
  maxConcurrent := 1
  retry := ⟨7, .immediate⟩
  handle := ⟨"consumer", 60000⟩
  guard n := n.id = "gen-0002"

/-- Two negotiations are to be terminated.  While the counter party is told about the first, it
terminates the second. -/
def untilParking : List Move :=
  let offer : Offer := ⟨"offer", "asset", "provider", {}⟩
  let wish : ContractRequest := ⟨"provider", "http://provider", "dsp", offer⟩
  let gone : Message :=
    ⟨"dsp", "http://consumer", "gen-0002", none, .termination (some "gone") none⟩
  [.call (.initiate wish), .call (.initiate wish),
   .call (.terminate "gen-0001" "stop"), .call (.terminate "gen-0002" "stop"),
   .start .consumer, .next, .next, .next, .next, .next, .next, .begin,
   .call (.notify .terminated gone), .land 0 (.answered (.object []))]

/-- A session in an empty world. -/
def blank : Session :=
  ⟨⟨.empty, default, .counted, []⟩, none⟩

/-- The second negotiation, TERMINATED by then, is parked as TERMINATING. -/
theorem terminated_parked_as_terminating :
    (blank.run holdingBack untilParking).world.ledger.state? "gen-0002" = some .terminated
      ∧ ((blank.run holdingBack untilParking).step holdingBack .begin).world.ledger.state?
          "gen-0002" = some .terminating
      ∧ ∃ n, (blank.run holdingBack untilParking).Parks holdingBack .begin n
          ∧ n.id = "gen-0002" := by
  have hbefore : (blank.run holdingBack untilParking).world.ledger.state? "gen-0002"
      = some .terminated := by decide +kernel
  have hafter : ((blank.run holdingBack untilParking).step holdingBack .begin).world.ledger.state?
      "gen-0002" = some .terminating := by decide +kernel
  obtain ⟨b, hb, _, hparks⟩ := (state_changes_along_edges holdingBack blank ⟨rfl, rfl⟩
    untilParking).1 .begin "gen-0002" .terminated hbefore
  rw [hafter] at hb
  cases hb
  rcases hparks rfl with hb | hparks
  · cases hb
  · exact ⟨hbefore, hafter, hparks⟩

end Session

end Parley
