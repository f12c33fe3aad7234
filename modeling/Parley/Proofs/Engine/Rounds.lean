/-
  Parley.Proofs.Engine.Rounds
  ────────────────────────────────
  **A TICK IS A SEQUENCE OF MOVES.**

  A tick handles record after record, with what the sending of a message does to
  the world in between.  Seen as moves it leads from a session without a round
  to another one (`leads_runRole`), and it counts the moves that end a record's
  handling and count.

  If the world changes by calls to the engine only, the tick is a run: what holds
  after every sequence of moves holds after every tick (`runRole_eq_run`).
-/
import Parley.Proofs.Engine.Session

namespace Parley

open Parley.Batch

/-- A way to send messages during which others may call the engine. -/
def Dispatch.IsCalls (send : Dispatch) (e : Engine) : Prop :=
  ∀ f w, ∃ calls : List Call, (send f w).2 = calls.foldl (Call.run e) w

/-- A way to send messages during which others change the world in no other way than allowed. -/
def Dispatch.Makes (send : Dispatch) (meanwhile : World → World → Prop) : Prop :=
  ∀ f w, meanwhile w (send f w).2

/-- Whether the handling of a record ends as handled without a reply. -/
def Begun.counts : Begun → Nat
  | .done handled => handled.toNat
  | .sending _ => 0

namespace Session

/-! ## §1. Moves that count. -/

/-- Whether a move ends the handling of a record, and that counts. -/
def counts (e : Engine) (s : Session) (move : Move) : Nat :=
  match s.round, move with
  | some r, .begin =>
    match r.ahead with
    | n :: _ =>
      if r.airborne.length < e.maxConcurrent then
        (e.begin .direct r.role r.duty n s.world).1.counts
      else 0
    | [] => 0
  | some r, .land k reply =>
    match r.airborne[k]? with
    | some f => (e.land .direct r.role f reply s.world).1.toNat
    | none => 0
  | _, _ => 0

/-- What a move of the engine itself is, and what it counts. -/
inductive Work (e : Engine) (s : Session) : Nat → Session → Prop
  | idle : Work e s 0 s
  | started (role : Role) (hr : s.round = none) :
      Work e s 0 (lookAfter e s.world role role.duties)
  | begun (r : Round) (n : Negotiation) (rest : List Negotiation) (hr : s.round = some r)
      (hahead : r.ahead = n :: rest) :
      Work e s (e.begin .direct r.role r.duty n s.world).1.counts (beginOne e s.world r n rest)
  | landed (r : Round) (k : Nat) (f : Flight) (reply : Reply) (hr : s.round = some r)
      (hk : r.airborne[k]? = some f) :
      Work e s (e.land .direct r.role f reply s.world).1.toNat (landOne e s.world r k reply)
  | next (r : Round) (hr : s.round = some r) : Work e s 0 (lookAfter e s.world r.role r.later)

theorem work (e : Engine) (s : Session) {move : Move} (hmove : ∀ c, move ≠ .call c) :
    Work e s (s.counts e move) (s.step e move) := by
  obtain ⟨w, round⟩ := s
  cases move with
  | call c => exact absurd rfl (hmove c)
  | start role =>
    cases round with
    | none => exact .started role rfl
    | some r => exact .idle
  | begin =>
    cases round with
    | none => exact .idle
    | some r =>
      obtain ⟨role, duty, ahead, airborne, later⟩ := r
      cases ahead with
      | nil => exact .idle
      | cons n rest =>
        -- Whether there is room for another message decides what is done and what is counted.
        simp only [counts, step, stepRound]
        split
        · exact .begun ⟨role, duty, n :: rest, airborne, later⟩ n rest rfl rfl
        · exact .idle
  | land k reply =>
    cases round with
    | none => exact .idle
    | some r =>
      cases hk : r.airborne[k]? with
      | none =>
        have hstep : step e ⟨w, some r⟩ (.land k reply) = ⟨w, some r⟩ := by
          simp only [step, stepRound, landOne, hk]
        have hcounts : counts e ⟨w, some r⟩ (.land k reply) = 0 := by
          simp only [counts, hk]
        rw [hstep, hcounts]
        exact .idle
      | some f =>
        have hcounts : counts e ⟨w, some r⟩ (.land k reply)
            = (e.land .direct r.role f reply w).1.toNat := by
          simp only [counts, hk]
        rw [hcounts]
        exact .landed r k f reply rfl hk
  | next =>
    cases round with
    | none => exact .idle
    | some r =>
      simp only [counts, step, stepRound]
      split
      · exact .next r rfl
      · exact .idle

/-- The moves of an engine lead from one session to another, and so many of them count.  In between,
whenever others can act, they change the world in a way that is allowed. -/
inductive Leads (e : Engine) (meanwhile : World → World → Prop) : Session → Nat → Session → Prop
  | refl (s : Session) : Leads e meanwhile s 0 s
  | others {s s' : Session} {w : World} {count : Nat} (hopen : s.isOpen = true)
      (hw : meanwhile s.world w) (hrest : Leads e meanwhile ⟨w, s.round⟩ count s') :
      Leads e meanwhile s count s'
  | move {s s' : Session} {count : Nat} (move : Move) (hmove : ∀ c, move ≠ .call c)
      (hrest : Leads e meanwhile (s.step e move) count s') :
      Leads e meanwhile s (s.counts e move + count) s'

variable {e : Engine} {meanwhile : World → World → Prop} {send : Dispatch} {w : World} {r : Round}
  {s s' s'' : Session} {i j : Nat}

namespace Leads

theorem trans (h : Leads e meanwhile s i s') (h' : Leads e meanwhile s' j s'') :
    Leads e meanwhile s (i + j) s'' := by
  induction h with
  | refl s => rwa [Nat.zero_add]
  | others hopen hw hrest ih => exact .others hopen hw (ih h')
  | move move hmove hrest ih =>
    rw [Nat.add_assoc]
    exact .move move hmove (ih h')

theorem step (s : Session) (move : Move) (hmove : ∀ c, move ≠ .call c) :
    Leads e meanwhile s (s.counts e move) (s.step e move) :=
  .move move hmove (.refl _)

/-- What others do while a message is on its way. -/
theorem during {w' : World} (hopen : r.airborne ≠ []) (hw : meanwhile w w') :
    Leads e meanwhile ⟨w, some r⟩ 0 ⟨w', some r⟩ := by
  refine .others ?_ hw (.refl _)
  simp [isOpen, hopen]

/-- What others do between two ticks. -/
theorem between {w' : World} (hw : meanwhile w w') :
    Leads e meanwhile ⟨w, none⟩ 0 ⟨w', none⟩ :=
  .others rfl hw (.refl _)

end Leads

/-! ## §2. A tick. -/

/-- Handling a record is beginning it and, if a message goes out, dealing with the reply. -/
theorem leads_handleRecord (hsend : send.Makes meanwhile) (hroom : 0 < e.maxConcurrent)
    (role : Role) (duty : Duty) (n : Negotiation) (rest : List Negotiation) (later : List Duty)
    (w : World) :
    Leads e meanwhile ⟨w, some ⟨role, duty, n :: rest, [], later⟩⟩
      (e.handleRecord (.oneByOne send) role duty n w).1.toNat
      ⟨(e.handleRecord (.oneByOne send) role duty n w).2, some ⟨role, duty, rest, [], later⟩⟩ := by
  have hbegin : step e ⟨w, some ⟨role, duty, n :: rest, [], later⟩⟩ .begin
      = beginOne e w ⟨role, duty, n :: rest, [], later⟩ n rest := if_pos hroom
  have hcounts : counts e ⟨w, some ⟨role, duty, n :: rest, [], later⟩⟩ .begin
      = (e.begin .direct role duty n w).1.counts := if_pos hroom
  have hfirst : Leads e meanwhile _ _ _ := .step
    ⟨w, some ⟨role, duty, n :: rest, [], later⟩⟩ .begin fun _ => Move.noConfusion
  rw [hbegin, hcounts] at hfirst
  unfold beginOne at hfirst
  simp only at hfirst
  have haccess : (Conduct.oneByOne send).toAccess = .direct := rfl
  unfold Engine.handleRecord
  rw [run_bind, haccess]
  generalize e.begin .direct role duty n w = begun at hfirst ⊢
  obtain ⟨begun, w'⟩ := begun
  cases begun with
  | done handled => exact hfirst
  | sending f =>
    have hmeanwhile := Leads.during (e := e) (r := ⟨role, duty, rest, [] ++ [f], later⟩)
      (List.cons_ne_nil f []) (hsend f w')
    have hland : Leads e meanwhile _ _ _ := .step
      ⟨(send f w').2, some ⟨role, duty, rest, [] ++ [f], later⟩⟩ (.land 0 (send f w').1)
      fun _ => Move.noConfusion
    have hall := (hfirst.trans hmeanwhile).trans hland
    have hcount : (Begun.sending f).counts + 0
        + counts e ⟨(send f w').2, some ⟨role, duty, rest, [] ++ [f], later⟩⟩
            (.land 0 (send f w').1)
        = (e.land .direct role f (send f w').1 (send f w').2).1.toNat := Nat.zero_add _
    rw [hcount] at hall
    exact hall

/-- Handling the records of a batch in order. -/
theorem leads_inOrder (hsend : send.Makes meanwhile) (hroom : 0 < e.maxConcurrent) (role : Role)
    (duty : Duty) (batch : List Negotiation) (later : List Duty) (w : World) :
    Leads e meanwhile ⟨w, some ⟨role, duty, batch, [], later⟩⟩
      (inOrder (batch.map (e.handleRecord (.oneByOne send) role duty)) w).1
      ⟨(inOrder (batch.map (e.handleRecord (.oneByOne send) role duty)) w).2,
        some ⟨role, duty, [], [], later⟩⟩ := by
  -- Over the batch: the moves for its first record, then those for the rest.
  induction batch generalizing w with
  | nil => exact .refl _
  | cons n rest ih =>
    have hboth := (leads_handleRecord hsend hroom role duty n rest later w).trans
      (ih (e.handleRecord (.oneByOne send) role duty n w).2)
    have hcount : (e.handleRecord (.oneByOne send) role duty n w).1.toNat
        + (inOrder (rest.map (e.handleRecord (.oneByOne send) role duty))
            (e.handleRecord (.oneByOne send) role duty n w).2).1
        = (inOrder ((n :: rest).map (e.handleRecord (.oneByOne send) role duty)) w).1 := by
      show _ = _ + if (e.handleRecord (.oneByOne send) role duty n w).1 then 1 else 0
      rw [Nat.add_comm]
      cases (e.handleRecord (.oneByOne send) role duty n w).1 <;> rfl
    rw [hcount] at hboth
    exact hboth

/-- When a batch is done the next duty is looked after. -/
theorem leads_next (role : Role) (duty : Duty) (later : List Duty) (w : World) :
    Leads e meanwhile ⟨w, some ⟨role, duty, [], [], later⟩⟩ 0 (lookAfter e w role later) :=
  .step _ .next fun _ => Move.noConfusion

/-- Looking after one duty. -/
theorem leads_lookAfter (hsend : send.Makes meanwhile) (hroom : 0 < e.maxConcurrent) (role : Role)
    (duty : Duty) (later : List Duty) (w : World) :
    Leads e meanwhile (lookAfter e w role (duty :: later))
      (e.lookAfter (.oneByOne send) role duty w).1
      (lookAfter e (e.lookAfter (.oneByOne send) role duty w).2 role later) := by
  have hbatch := leads_inOrder hsend hroom role duty ((e.job role duty).lease .direct w).1 later
    ((e.job role duty).lease .direct w).2
  have hall := hbatch.trans (leads_next role duty later _)
  rw [Nat.add_zero] at hall
  exact hall

/-- Looking after duties in order. -/
theorem leads_lookAfterAll (hsend : send.Makes meanwhile) (hroom : 0 < e.maxConcurrent)
    (role : Role) (duties : List Duty) (w : World) :
    Leads e meanwhile (lookAfter e w role duties)
      (e.lookAfterAll (.oneByOne send) role duties w).1
      ⟨(e.lookAfterAll (.oneByOne send) role duties w).2, none⟩ := by
  induction duties generalizing w with
  | nil => exact .refl _
  | cons duty later ih =>
    have hall : e.lookAfterAll (.oneByOne send) role (duty :: later) w
        = ((e.lookAfter (.oneByOne send) role duty w).1
            + (e.lookAfterAll (.oneByOne send) role later
                (e.lookAfter (.oneByOne send) role duty w).2).1,
          (e.lookAfterAll (.oneByOne send) role later
            (e.lookAfter (.oneByOne send) role duty w).2).2) := rfl
    rw [hall]
    exact (leads_lookAfter hsend hroom role duty later w).trans
      (ih (e.lookAfter (.oneByOne send) role duty w).2)

/-- A tick is a run of a session: between the moves of the engine others act as they do while its
messages are sent, and the tick counts the moves that do. -/
theorem leads_runRole (hsend : send.Makes meanwhile) (hroom : 0 < e.maxConcurrent) (role : Role)
    (w : World) :
    Leads e meanwhile ⟨w, none⟩ (e.runRole (.oneByOne send) role w).1
      ⟨(e.runRole (.oneByOne send) role w).2, none⟩ := by
  have hstart : Leads e meanwhile _ _ _ :=
    .step ⟨w, none⟩ (.start role) fun _ => Move.noConfusion
  have htick := hstart.trans (leads_lookAfterAll hsend hroom role role.duties w)
  have hcount : counts e ⟨w, none⟩ (.start role)
      + (e.lookAfterAll (.oneByOne send) role role.duties w).1
      = (e.runRole (.oneByOne send) role w).1 := Nat.zero_add _
  rw [hcount] at htick
  exact htick

/-! ## §3. A tick as a run. -/

/-- Calls lead from one world to another. -/
def CallsLead (e : Engine) (w w' : World) : Prop :=
  ∃ calls : List Call, w' = calls.foldl (Call.run e) w

theorem run_calls {s : Session} (hopen : s.isOpen = true) (calls : List Call) :
    s.run e (calls.map .call) = ⟨calls.foldl (Call.run e) s.world, s.round⟩ := by
  induction calls generalizing s with
  | nil => rfl
  | cons c calls ih =>
    have hstep : s.step e (.call c) = ⟨c.run e s.world, s.round⟩ := if_pos hopen
    have hopen' : (s.step e (.call c)).isOpen = true := by
      rw [hstep]
      exact hopen
    rw [List.map_cons, run_cons, ih hopen', hstep]
    rfl

/-- If others do no more than to make calls, all of it is a run. -/
theorem Leads.exists_run (h : Leads e (CallsLead e) s i s') : ∃ moves, s.run e moves = s' := by
  induction h with
  | refl s => exact ⟨[], rfl⟩
  | others hopen hw hrest ih =>
    obtain ⟨calls, rfl⟩ := hw
    obtain ⟨moves, hmoves⟩ := ih
    refine ⟨calls.map .call ++ moves, ?_⟩
    rw [run_append, run_calls hopen, hmoves]
  | move move hmove hrest ih =>
    obtain ⟨moves, hmoves⟩ := ih
    exact ⟨move :: moves, hmoves⟩

theorem runRole_eq_run (hsend : send.IsCalls e) (hroom : 0 < e.maxConcurrent) (role : Role)
    (w : World) : ∃ moves, run e ⟨w, none⟩ moves
      = ⟨(e.runRole (.oneByOne send) role w).2, none⟩ := by
  have hmakes : send.Makes (CallsLead e) := hsend
  exact (leads_runRole hmakes hroom role w).exists_run

end Session

end Parley
