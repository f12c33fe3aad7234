/-
  Parley.Proofs.Engine.Office
  ────────────────────────────────
  **AN ENGINE AS A WHOLE.**

  An engine has a loop for each role, and the two go on side by side: while a
  tick of one role is under way a tick of the other may be, and each of its
  moves is a move of its own session.  Others call while no tick is under way,
  or while every tick that is waits for a reply.

  The messages that were sent and the replies to them are kept
  (`Office.log`), so that what a record says can be traced to what was said.

      Office.IsCoherent   each session is as it would be alone
      Preserves           what holds of records when they are opened, and is
                          kept by everything that is done with them
      run_preserves       such a thing holds of every stored record, and of
                          every record that a tick works with
      run_of_runRole      a tick is a run of an office
-/
import Parley.Proofs.Engine.Rounds
import Parley.Proofs.Engine.Writing

namespace Parley

/-! ## §1. Two sessions in one world. -/

/-- What holds throughout the run of a session. -/
structure Session.IsSteady (s : Session) (e : Engine) : Prop where
  coherent : s.IsCoherent e
  awaited : s.IsAwaited
  matched : s.IsMatched

/-- The message whose reply a move deals with, and the reply. -/
def Session.settled (s : Session) (move : Move) : List (Flight × Reply) :=
  match move, s.round with
  | .land k reply, some r => (r.airborne[k]?).toList.map fun f => (f, reply)
  | _, _ => []

/-- What is to be done next in a tick. -/
inductive Chore where
  | start
  | begin
  | land (k : Nat) (reply : Reply)
  | next
deriving DecidableEq, Repr

/-- The move of a role's session. -/
def Chore.move (role : Role) : Chore → Move
  | start => .start role
  | begin => .begin
  | land k reply => .land k reply
  | next => .next

theorem Chore.move_ne_call (role : Role) (chore : Chore) (c : Call) :
    chore.move role ≠ .call c := by
  cases chore <;> exact Move.noConfusion

/-- What an engine does next: it is called, or goes on with the tick of a role. -/
inductive Office.Act where
  | call (c : Call)
  | work (role : Role) (chore : Chore)
deriving DecidableEq, Repr

/-- An engine's world, the tick of each role that is under way in it, and the messages that were
sent and replied to. -/
structure Office where
  world : World
  round : Role → Option Round := fun _ => none
  log : List (Flight × Reply) := []

namespace Office

/-- The session of a role. -/
def session (o : Office) (role : Role) : Session :=
  ⟨o.world, o.round role⟩

/-- An office in a world without records. -/
def blank (now : Instant) (supply : IdSupply := .counted) : Office :=
  ⟨⟨.empty, now, supply, []⟩, fun _ => none, []⟩

/-- Whether others can act. -/
def isOpen (o : Office) : Bool :=
  (o.session .consumer).isOpen && (o.session .provider).isOpen

/-- A move of the session of a role. -/
def work (e : Engine) (o : Office) (role : Role) (move : Move) : Office :=
  let s := (o.session role).step e move
  { world := s.world
    round := fun other => if other = role then s.round else o.round other
    log := o.log ++ (o.session role).settled move }

/-- What an engine does next. -/
def step (e : Engine) (o : Office) : Act → Office
  | .call c => if o.isOpen then { o with world := c.run e o.world } else o
  | .work role chore => o.work e role (chore.move role)

/-- A run is one act after another. -/
def run (e : Engine) (o : Office) (acts : List Act) : Office :=
  acts.foldl (step e) o

@[simp] theorem run_nil (e : Engine) (o : Office) : o.run e [] = o := rfl

@[simp] theorem run_cons (e : Engine) (o : Office) (act : Act) (acts : List Act) :
    o.run e (act :: acts) = (o.step e act).run e acts := rfl

theorem run_append (e : Engine) (o : Office) (acts acts' : List Act) :
    o.run e (acts ++ acts') = (o.run e acts).run e acts' :=
  List.foldl_append

variable {e : Engine} {o : Office}

theorem session_work_self (role : Role) (move : Move) :
    (o.work e role move).session role = (o.session role).step e move := by
  unfold work session
  simp only [if_pos]

theorem round_work_other {role other : Role} (hne : other ≠ role) (move : Move) :
    (o.work e role move).round other = o.round other :=
  if_neg hne

/-- A call is a call in each of the two sessions. -/
theorem session_call (hopen : o.isOpen = true) (c : Call) (role : Role) :
    ({ o with world := c.run e o.world } : Office).session role
      = (o.session role).step e (.call c) := by
  unfold isOpen at hopen
  rw [Bool.and_eq_true] at hopen
  have hrole : (o.session role).isOpen = true := by
    cases role with
    | consumer => exact hopen.1
    | provider => exact hopen.2
  show _ = if (o.session role).isOpen then _ else _
  rw [if_pos hrole]
  rfl

end Office

/-! ## §2. What one session leaves alone. -/

namespace Session

variable {s : Session} {e : Engine}

theorem IsSteady.step (h : s.IsSteady e) (move : Move) : (s.step e move).IsSteady e where
  coherent := (step_effect h.coherent move).2
  awaited := step_isAwaited h.coherent h.awaited move
  matched := step_isMatched h.coherent h.awaited h.matched move

theorem IsSteady.becomes (h : s.IsSteady e) (move : Move) (id : String) :
    Becomes e s move id :=
  step_becomes h.coherent h.awaited h.matched move id

/-- A session stays as it is where the records that it works with stay. -/
theorem IsSteady.congr (h : s.IsSteady e) {w : World} (hw : w.IsOrderly e.handle.holder)
    (hcontent : ∀ r, s.round = some r → ∀ n ∈ r.members,
      w.ledger.content n.id = s.world.ledger.content n.id) :
    ({ s with world := w } : Session).IsSteady e where
  coherent := ⟨hw, fun r hr => (h.coherent.round r hr).congr (hcontent r hr)⟩
  awaited := by
    intro r hr f hf current hcurrent
    have hin : f.leased ∈ r.members := List.mem_append_right _ (List.mem_map_of_mem hf)
    exact h.awaited r hr f hf current ((hcontent r hr f.leased hin).symm.trans hcurrent)
  matched := by
    intro r hr n hn current hcurrent
    exact h.matched r hr n hn current ((hcontent r hr n hn).symm.trans hcurrent)

/-- A move of a tick writes records of the tick's role only. -/
theorem Rewrites.role {move : Move} {n n' : Negotiation} (h : Rewrites e s move n n')
    (hmove : ∀ c, move ≠ .call c) : ∃ r, s.round = some r ∧ n.role = r.role := by
  cases h with
  | called c hcall hmakes => exact (hmove c hcall).elim
  | decided r source target hr hrole hduty hstate hn' => exact ⟨r, hr, hrole⟩
  | turned k reply r f kind hland hr hk hrole hduty hawaits hleased hmessage hturn hkeeps =>
    exact ⟨r, hr, hrole⟩
  | parked r m hr hrole hm hmatter hn' => exact ⟨r, hr, hrole⟩

/-- A move that is not a call leaves a record alone whose role is not the tick's. -/
theorem IsSteady.content_of_role (h : s.IsSteady e) {move : Move} (hmove : ∀ c, move ≠ .call c)
    {id : String} {n : Negotiation} (hn : s.world.ledger.content id = some n)
    (hrole : ∀ r, s.round = some r → n.role ≠ r.role) :
    (s.step e move).world.ledger.content id = s.world.ledger.content id := by
  cases h.becomes move id with
  | kept hcontent => exact hcontent
  | rewritten m m' hm hm' hrewrites =>
    cases hm.symm.trans hn
    obtain ⟨r, hr, hsame⟩ := hrewrites.role hmove
    exact (hrole r hr hsame).elim
  | opened c m hcall hnone hm hopens => exact (hmove c hcall).elim

/-- A tick under way keeps its role. -/
theorem step_role (h : s.IsCoherent e) (move : Move) {r' : Round}
    (hr' : (s.step e move).round = some r') :
    (∃ r, s.round = some r ∧ r'.role = r.role) ∨ move = .start r'.role := by
  have hstep := step_cases e s move
  generalize s.step e move = s' at hstep hr'
  cases hstep with
  | idle => exact .inl ⟨r', hr', rfl⟩
  | called c hmove hopen => exact .inl ⟨r', hr', rfl⟩
  | started role hmove hr =>
    rw [(lookAfter_members h.orderly role role.duties hr').1]
    exact .inr hmove
  | worked r s' hr hround =>
    refine .inl ⟨r, hr, ?_⟩
    cases hround with
    | idle => cases hr'; rfl
    | begun n rest hmove hahead hroom => exact (beginOne_members h hr hahead hr').1
    | landed k reply hmove => exact (landOne_members h hr k reply hr').1
    | next hmove hdone => exact (lookAfter_members h.orderly r.role r.later hr').1

end Session

namespace Office

variable {e : Engine} {o : Office}

/-- What holds throughout a run. -/
structure IsCoherent (o : Office) (e : Engine) : Prop where
  steady : ∀ role, (o.session role).IsSteady e
  role : ∀ role r, o.round role = some r → r.role = role

theorem isCoherent_blank (e : Engine) (now : Instant) (supply : IdSupply) :
    (blank now supply).IsCoherent e where
  steady role :=
    { coherent := Session.IsFresh.isCoherent ⟨rfl, rfl⟩ e
      awaited := Session.IsFresh.isAwaited ⟨rfl, rfl⟩
      matched := fun r hr => by cases hr }
  role := fun role r hr => by cases hr

/-- The tick of one role does not disturb the other's. -/
theorem IsCoherent.work (h : o.IsCoherent e) (role : Role) (chore : Chore) :
    (o.work e role (chore.move role)).IsCoherent e where
  steady other := by
    by_cases hother : other = role
    · subst hother
      rw [session_work_self]
      exact (h.steady other).step _
    · have hround := round_work_other (e := e) (o := o) hother (chore.move role)
      have hsession : (o.work e role (chore.move role)).session other
          = { o.session other with world := ((o.session role).step e (chore.move role)).world } :=
        congrArg (Session.mk _) hround
      rw [hsession]
      refine (h.steady other).congr ((h.steady role).step _).coherent.orderly fun r hr n hn => ?_
      -- What the other tick works with is of its own role.
      obtain ⟨_, _, hrole, current, hcurrent, hkeeps⟩ :=
        ((h.steady other).coherent.round r hr).leased n hn
      refine (h.steady role).content_of_role (chore.move_ne_call role) hcurrent fun r' hr' => ?_
      rw [hkeeps.role, hrole, h.role other r hr, h.role role r' hr']
      exact hother
  role := by
    intro other r hr
    by_cases hother : other = role
    · subst hother
      have hr' : ((o.session other).step e (chore.move other)).round = some r := by
        rw [← session_work_self]
        exact hr
      rcases Session.step_role (h.steady other).coherent _ hr' with ⟨r₀, hr₀, hrole⟩ | hstart
      · rw [hrole]
        exact h.role other r₀ hr₀
      · cases chore with
        | start => exact (Move.start.inj hstart).symm
        | _ => cases hstart
    · rw [round_work_other hother] at hr
      exact h.role other r hr

theorem IsCoherent.step (h : o.IsCoherent e) (act : Act) : (o.step e act).IsCoherent e := by
  cases act with
  | work role chore => exact h.work role chore
  | call c =>
    unfold Office.step
    simp only
    split
    · rename_i hopen
      refine ⟨fun role => ?_, fun role r hr => h.role role r hr⟩
      rw [session_call hopen]
      exact (h.steady role).step _
    · exact h

theorem IsCoherent.run (h : o.IsCoherent e) (acts : List Act) : (o.run e acts).IsCoherent e := by
  induction acts generalizing o with
  | nil => exact h
  | cons act acts ih => exact ih (h.step act)

/-! ## §3. What an act makes of the records. -/

/-- What an act makes of what is stored for an id. -/
inductive Becomes (e : Engine) (o : Office) (act : Act) (id : String) : Prop
  | kept (hcontent : (o.step e act).world.ledger.content id = o.world.ledger.content id)
  | rewritten (role : Role) (move : Move) (n n' : Negotiation)
      (hlog : (o.step e act).log = o.log ++ (o.session role).settled move)
      (hn : o.world.ledger.content id = some n)
      (hn' : (o.step e act).world.ledger.content id = some (n'.withLease none))
      (hrewrites : (o.session role).Rewrites e move n n')
  | opened (n : Negotiation) (hnone : o.world.ledger.content id = none)
      (hn : (o.step e act).world.ledger.content id = some (n.withLease none))
      (hopens : Call.Opens o.world n)

theorem Becomes.of_session {act : Act} {id : String} (role : Role) {move : Move}
    (hworld : (o.step e act).world = ((o.session role).step e move).world)
    (hlog : (o.step e act).log = o.log ++ (o.session role).settled move)
    (h : (o.session role).Becomes e move id) : o.Becomes e act id := by
  cases h with
  | kept hcontent => exact .kept (by rw [hworld]; exact hcontent)
  | rewritten n n' hn hn' hrewrites =>
    exact .rewritten role move n n' hlog hn (by rw [hworld]; exact hn') hrewrites
  | opened c n hmove hnone hn hopens => exact .opened n hnone (by rw [hworld]; exact hn) hopens

theorem IsCoherent.becomes (h : o.IsCoherent e) (act : Act) (id : String) :
    o.Becomes e act id := by
  cases act with
  | work role chore => exact .of_session role rfl rfl ((h.steady role).becomes _ id)
  | call c =>
    by_cases hopen : o.isOpen = true
    · have hstep : o.step e (.call c) = { o with world := c.run e o.world } := if_pos hopen
      -- A call is the same in either session.
      have hworld : (o.step e (.call c)).world
          = ((o.session .consumer).step e (.call c)).world := by
        rw [hstep, ← session_call hopen]
        rfl
      have hlog : (o.step e (.call c)).log
          = o.log ++ (o.session .consumer).settled (.call c) := by
        rw [hstep]
        exact (List.append_nil o.log).symm
      exact .of_session .consumer hworld hlog ((h.steady .consumer).becomes _ id)
    · have hstep : o.step e (.call c) = o := if_neg hopen
      exact .kept (by rw [hstep])

/-- A record that a tick works with after an act was just leased, or the tick had it before. -/
theorem IsCoherent.members (h : o.IsCoherent e) (act : Act) {role : Role} {r' : Round}
    (hr' : (o.step e act).round role = some r') {n : Negotiation} (hn : n ∈ r'.members) :
    (o.step e act).world.ledger.content n.id = some (n.withLease none)
      ∨ ∃ r, o.round role = some r ∧ n ∈ r.members := by
  cases act with
  | call c =>
    have hround : o.round role = some r' := by
      unfold Office.step at hr'
      simp only at hr'
      split at hr' <;> exact hr'
    exact .inr ⟨r', hround, hn⟩
  | work worker chore =>
    by_cases hrole : role = worker
    · subst hrole
      have hself : ((o.session role).step e (chore.move role)).round = some r' := by
        rw [← session_work_self]
        exact hr'
      cases Session.step_retains (h.steady role).coherent _ hself hn with
      | leased hleased => exact .inl hleased
      | held r hr hrole hin hcontent => exact .inr ⟨r, hr, hin⟩
      | touched r before after hr hrole hin hair hbefore hafter hmakes => exact .inr ⟨r, hr, hin⟩
    · have hround : o.round role = some r' :=
        (round_work_other hrole (chore.move worker)).symm.trans hr'
      exact .inr ⟨r', hround, hn⟩

theorem log_step (e : Engine) (o : Office) (act : Act) :
    ∃ more, (o.step e act).log = o.log ++ more := by
  cases act with
  | work role chore => exact ⟨_, rfl⟩
  | call c =>
    refine ⟨[], ?_⟩
    unfold step
    simp only
    split <;> exact (List.append_nil o.log).symm

end Office

theorem Session.mem_settled {s : Session} {k : Nat} {reply : Reply} {r : Round} {f : Flight}
    (hr : s.round = some r) (hk : r.airborne[k]? = some f) :
    (f, reply) ∈ s.settled (.land k reply) := by
  unfold Session.settled
  rw [hr]
  simp [hk]

/-! ## §4. What is kept throughout a run. -/

/-- What holds of every record that is opened, and is kept by all that is done with records.  It may
refer to the messages that were replied to. -/
structure Preserves (e : Engine) (P : List (Flight × Reply) → Negotiation → Prop) : Prop where
  mono : ∀ {log n} more, P log n → P (log ++ more) n
  withLease : ∀ {log n} lease, P log n → P log (n.withLease lease)
  withPending : ∀ {log n} pending, P log n → P log (n.withPending pending)
  opened : ∀ {log w n}, Call.Opens w n → P log n
  called : ∀ {log w n n'}, Call.Makes w n n' → P log n → P log n'
  decided : ∀ {log n source target} now, Duty.decide source target ∈ n.role.duties →
    n.state = source.code → P log n → P log (n.enter target.code now)
  turned : ∀ {log f reply n n' kind now}, (f, reply) ∈ log →
    Duty.send f.sending ∈ n.role.duties → n.Awaits f.sending → f.leased.Keeps n →
    (∃ payload now, f.message = .forNegotiation f.leased payload
      ∧ e.payloadFor f.sending f.leased now = .ok payload) →
    Engine.Turn e f n now reply kind n' → n.Keeps n' → P log n → P log n'

/-- Something holds of every record that is stored or that a tick works with. -/
structure Office.Holds (o : Office) (P : List (Flight × Reply) → Negotiation → Prop) : Prop where
  stored : ∀ id n, o.world.ledger.content id = some n → P o.log n
  leased : ∀ role r, o.round role = some r → ∀ n ∈ r.members, P o.log n

namespace Office

variable {e : Engine} {o : Office} {P : List (Flight × Reply) → Negotiation → Prop}

theorem Holds.step (hP : Preserves e P) (h : o.IsCoherent e) (ho : o.Holds P) (act : Act) :
    (o.step e act).Holds P := by
  obtain ⟨more, hmore⟩ := log_step e o act
  have hmono {n : Negotiation} (hn : P o.log n) : P (o.step e act).log n := by
    rw [hmore]
    exact hP.mono more hn
  have hstored : ∀ id n, (o.step e act).world.ledger.content id = some n →
      P (o.step e act).log n := by
    intro id m hm
    cases h.becomes act id with
    | kept hcontent =>
      rw [hcontent] at hm
      exact hmono (ho.stored id m hm)
    | opened n hnone hn hopens =>
      cases hn.symm.trans hm
      exact hP.withLease none (hP.opened hopens)
    | rewritten role move n n' hlog hn hn' hrewrites =>
      cases hn'.symm.trans hm
      have hbefore := hmono (ho.stored id n hn)
      refine hP.withLease none ?_
      cases hrewrites with
      | called c hmove hmakes => exact hP.called hmakes hbefore
      | decided r source target hr hrole hduty hstate hn' =>
        subst hn'
        exact hP.decided _ hduty hstate hbefore
      | turned k reply r f kind hmove hr hk hrole hduty hawaits hleased hmessage hturn hkeeps =>
        have hin : (f, reply) ∈ (o.step e act).log := by
          rw [hlog, hmove]
          exact List.mem_append_right _ (Session.mem_settled hr hk)
        exact hP.turned hin hduty hawaits hleased hmessage hturn hkeeps hbefore
      -- The guard has the record stored as it was leased.
      | parked r snapshot hr hrole hin hmatter hn' =>
        subst hn'
        exact hP.withPending true (hmono (ho.leased role r hr snapshot hin))
  refine ⟨hstored, fun role r' hr' n hn => ?_⟩
  rcases h.members act hr' hn with hleased | ⟨r, hr, hin⟩
  · have hbare : P (o.step e act).log ((n.withLease none).withLease n.lease) :=
      hP.withLease n.lease (hstored n.id _ hleased)
    exact hbare
  · exact hmono (ho.leased role r hr n hin)

/-- What is preserved holds of all records throughout a run. -/
theorem run_preserves (hP : Preserves e P) (now : Instant) (supply : IdSupply) (acts : List Act) :
    ((blank now supply).run e acts).Holds P := by
  have hrun (o : Office) (h : o.IsCoherent e) (ho : o.Holds P) : (o.run e acts).Holds P := by
    induction acts generalizing o with
    | nil => exact ho
    | cons act acts ih => exact ih _ (h.step act) (ho.step hP h act)
  refine hrun (blank now supply) (isCoherent_blank e now supply)
    ⟨fun id n hn => ?_, fun role r hr => ?_⟩
  · cases hn
  · cases hr

/-! ## §5. One tick at a time. -/

/-- No tick is under way but one of a role, and that is the one of a session. -/
structure Mirrors (o : Office) (role : Role) (s : Session) : Prop where
  session : o.session role = s
  alone : ∀ other, other ≠ role → o.round other = none

variable {role : Role} {s : Session}

theorem Mirrors.isOpen (h : o.Mirrors role s) : o.isOpen = s.isOpen := by
  have hfree (other : Role) (hne : other ≠ role) : (o.session other).isOpen = true := by
    unfold Office.session Session.isOpen
    rw [h.alone other hne]
  unfold Office.isOpen
  cases role with
  | consumer => rw [h.session, hfree .provider Role.noConfusion, Bool.and_true]
  | provider => rw [h.session, hfree .consumer Role.noConfusion, Bool.true_and]

theorem Mirrors.work (h : o.Mirrors role s) (chore : Chore) :
    (o.step e (.work role chore)).Mirrors role (s.step e (chore.move role)) where
  session := (session_work_self role _).trans (by rw [h.session])
  alone other hne := (round_work_other hne _).trans (h.alone other hne)

/-- While no tick is under way, the next can be one of either role. -/
theorem Mirrors.of_idle (h : o.Mirrors role s) (hs : s.round = none) (other : Role) :
    o.Mirrors other s := by
  have hround (third : Role) : o.round third = none := by
    by_cases hthird : third = role
    · rw [hthird, ← hs, ← h.session]
      rfl
    · exact h.alone third hthird
  refine ⟨?_, fun third _ => hround third⟩
  rw [← h.session]
  unfold Office.session
  rw [hround other, hround role]

theorem Mirrors.step (h : o.Mirrors role s) (move : Move) :
    ∃ act next, (o.step e act).Mirrors next (s.step e move) := by
  cases move with
  | begin => exact ⟨_, role, h.work .begin⟩
  | land k reply => exact ⟨_, role, h.work (.land k reply)⟩
  | next => exact ⟨_, role, h.work .next⟩
  | start other =>
    cases hs : s.round with
    | none => exact ⟨_, other, (h.of_idle hs other).work .start⟩
    | some r =>
      -- A tick that is under way is not begun again, of whatever role.
      have hidle : s.step e (.start other) = s.step e (.start role) := by
        unfold Session.step
        simp only [hs]
      rw [hidle]
      exact ⟨_, role, h.work .start⟩
  | call c =>
    refine ⟨.call c, role, ?_⟩
    by_cases hopen : o.isOpen = true
    · have hstep : o.step e (.call c) = { o with world := c.run e o.world } := if_pos hopen
      rw [hstep]
      exact ⟨by rw [session_call hopen, h.session], h.alone⟩
    · have hstep : o.step e (.call c) = o := if_neg hopen
      have hclosed : s.step e (.call c) = s := if_neg (by rw [← h.isOpen]; exact hopen)
      rw [hstep, hclosed]
      exact h

theorem Mirrors.run (h : o.Mirrors role s) (moves : List Move) :
    ∃ acts last, (o.run e acts).Mirrors last (s.run e moves) := by
  induction moves generalizing o role s with
  | nil => exact ⟨[], role, h⟩
  | cons move moves ih =>
    obtain ⟨act, next, hstep⟩ := h.step (e := e) move
    obtain ⟨acts, last, hrest⟩ := ih hstep
    exact ⟨act :: acts, last, hrest⟩

/-- A tick as it is run is a run of an office: what holds after every run holds after every tick. -/
theorem run_of_runRole {send : Dispatch} (hsend : send.IsCalls e)
    (hroom : 0 < e.maxConcurrent) (hidle : ∀ other, o.round other = none) (role : Role) :
    ∃ acts, (o.run e acts).world = (e.runRole (.oneByOne send) role o.world).2
      ∧ ∀ other, (o.run e acts).round other = none := by
  obtain ⟨moves, hmoves⟩ := Session.runRole_eq_run hsend hroom role o.world
  have hstart : o.Mirrors role ⟨o.world, none⟩ :=
    ⟨congrArg (Session.mk o.world) (hidle role), fun other _ => hidle other⟩
  obtain ⟨acts, last, hrun⟩ := hstart.run (e := e) moves
  rw [hmoves] at hrun
  refine ⟨acts, congrArg Session.world hrun.session, fun other => ?_⟩
  by_cases hother : other = last
  · rw [hother]
    exact congrArg Session.round hrun.session
  · exact hrun.alone other hother

end Office

end Parley
