/-
  Parley.Proofs.Crew.Exclusion
  ────────────────────────────────
  **ENGINES THAT SHARE A STORE.**

  Any number of engines work in one store, each in a name of its own.  Each may
  have several ticks under way; calls to any of them and moves of any tick come
  in any order, and so also while a message is on its way.

  A tick has the records of its batch to itself because they are leased in the
  name of its engine.  Other engines cannot touch them, whatever they are called
  for (`exclusive_unless_disturbed`).  The engine itself can: a message about the
  record that comes to that engine, or the wish to end the negotiation, takes the
  same lease in the same name and ends it, even if it is refused.  Then the tick
  goes on without a lease, and another engine may send as well
  (`two_sends_after_refusal`).
-/
import Parley.Proofs.Engine.Reach
import Parley.Proofs.World.Ids

namespace Parley

/-! ## §1. The records of a round. -/

/-- The ids of the records that a round has leased and not yet dealt with. -/
def Round.ids (r : Round) : List String :=
  r.members.map (·.id)

namespace Session

/-- The ids of the records that the round of a session has to itself. -/
def ids (s : Session) : List String :=
  match s.round with
  | none => []
  | some r => r.ids

/-- What a move of a round does to the records that it has to itself: it keeps them and changes
nothing, is done with one of them, or takes a batch of free ones. -/
inductive Claims (h : Handle) (w : World) (ids : List String) (s : Session) : Prop
  | kept (hids : s.ids.Perm ids) (hw : s.world = w)
  | dealt (id : String) (hids : (id :: s.ids).Perm ids) (hw : w.Reach h id s.world)
  | taken (hids : ids = []) (hnodup : s.ids.Nodup)
      (hfree : ∀ id ∈ s.ids, ∃ n, w.ledger.find? id = some n ∧ Ledger.isFree w.now n = true)
      (hledger : s.world.ledger = w.ledger.leaseEach s.ids (h.leaseAt w.now))
      (hsupply : s.world.supply = w.supply)

variable {e : Engine} {w : World} {r : Round}

theorem lookAfter_claims (e : Engine) (w : World) (role : Role) (duties : List Duty) :
    Claims e.handle w [] (lookAfter e w role duties) := by
  cases duties with
  | nil => exact .kept (List.Perm.refl _) rfl
  | cons duty later =>
    rcases e.lease_cases role duty w with hlease | ⟨batch, l, hnext, hlease⟩
    · simp only [lookAfter, hlease]
      exact .kept (List.Perm.refl _) rfl
    · simp only [lookAfter, hlease]
      obtain ⟨hledger, hnodup, hfree⟩ := Ledger.nextNotLeased_eq_ok hnext
      have hids : ids ⟨w.withLedger l, some ⟨role, duty, batch, [], later⟩⟩ = batch.map (·.id) := by
        simp [ids, Round.ids, Round.members]
      refine .taken rfl (hids ▸ hnodup) (fun id hid => ?_) (hids ▸ hledger) rfl
      rw [hids] at hid
      obtain ⟨m, hm, rfl⟩ := List.mem_map.mp hid
      obtain ⟨stored, hstored, hisFree, _⟩ := hfree m hm
      exact ⟨stored, hstored, hisFree⟩

theorem beginOne_claims {n : Negotiation} {rest : List Negotiation} (hahead : r.ahead = n :: rest) :
    Claims e.handle w r.ids (beginOne e w r n rest) := by
  unfold beginOne
  have hbegin := e.begin_reach r.role r.duty n w
  generalize e.begin .direct r.role r.duty n w = result at hbegin ⊢
  cases hbegin with
  | done handled w' hw =>
    refine .dealt n.id ?_ hw
    simp only [ids, Round.ids, Round.members, hahead]
    exact List.Perm.refl _
  | sending f hf =>
    refine .kept ?_ rfl
    -- The record is still a member, but further behind.
    simp only [ids, Round.ids, Round.members, hahead, List.map_append, List.map_cons,
      List.map_nil, hf]
    rw [← List.append_assoc]
    exact List.perm_append_singleton _ _

theorem landOne_claims (e : Engine) (w : World) (r : Round) (k : Nat) (reply : Reply) :
    Claims e.handle w r.ids (landOne e w r k reply) := by
  unfold landOne
  cases hk : r.airborne[k]? with
  | none => exact .kept (List.Perm.refl _) rfl
  | some f =>
    refine .dealt f.leased.id ?_ (Confined.land r.role f reply w).1
    exact (Round.members_perm hk).map (·.id)

/-- Whatever a round does, it reaches no more than the records that it has to itself and free
ones. -/
theorem stepRound_claims (e : Engine) (w : World) (r : Round) (move : Move) :
    Claims e.handle w r.ids (stepRound e w r move) := by
  have hstep := roundStep e w r move
  generalize stepRound e w r move = s at hstep ⊢
  cases hstep with
  | idle => exact .kept (List.Perm.refl _) rfl
  | begun n rest hmove hahead hroom => exact beginOne_claims hahead
  | landed k reply hmove => exact landOne_claims e w r k reply
  | next hmove hdone =>
    have hids : r.ids = [] := by simp [Round.ids, hdone]
    rw [hids]
    exact lookAfter_claims e w r.role r.later

end Session

/-! ## §2. Crews. -/

/-- A tick under way, and the engine whose it is. -/
structure Tick (ι : Type) where
  worker : ι
  round : Round
deriving DecidableEq

/-- The store that engines share, and their ticks under way. -/
structure Crew (ι : Type) where
  world : World
  ticks : List (Tick ι) := []

/-- Something that happens in a crew: an engine is called, begins a tick of a role, or a tick moves
on. -/
inductive Crew.Move (ι : Type) where
  | call (i : ι) (c : Call)
  | start (i : ι) (role : Role)
  | work (k : Nat) (move : Parley.Move)
deriving DecidableEq

/-- What goes on in a session, as a tick of an engine. -/
def Session.ticks (s : Session) (i : ι) : List (Tick ι) :=
  match s.round with
  | none => []
  | some r => [⟨i, r⟩]

namespace Crew

variable {ι : Type}

/-- A move of a crew. -/
def step (e : ι → Engine) (c : Crew ι) : Move ι → Crew ι
  | .call i call => { c with world := call.run (e i) c.world }
  | .start i role =>
    let s := Session.lookAfter (e i) c.world role role.duties
    ⟨s.world, c.ticks ++ s.ticks i⟩
  | .work k move =>
    match c.ticks[k]? with
    | none => c
    | some t =>
      let s := Session.stepRound (e t.worker) c.world t.round move
      ⟨s.world, c.ticks.take k ++ s.ticks t.worker ++ c.ticks.drop (k + 1)⟩

/-- A run is one move after another. -/
def run (e : ι → Engine) (c : Crew ι) (moves : List (Move ι)) : Crew ι :=
  moves.foldl (step e) c

@[simp] theorem run_nil (e : ι → Engine) (c : Crew ι) : c.run e [] = c := rfl

@[simp] theorem run_cons (e : ι → Engine) (c : Crew ι) (move : Move ι) (moves : List (Move ι)) :
    c.run e (move :: moves) = (c.step e move).run e moves := rfl

/-- How many messages about the record of an id are on their way. -/
def sends (c : Crew ι) (id : String) : Nat :=
  (c.ticks.flatMap fun t => t.round.airborne.map (·.leased.id)).count id

/-- Whether a tick of an engine has the record of an id to itself. -/
def Holds (c : Crew ι) (i : ι) (id : String) : Prop :=
  ∃ t ∈ c.ticks, t.worker = i ∧ id ∈ t.round.ids

/-- Whether the lease on a record that a tick has to itself has run out. -/
def Overdue (c : Crew ι) (id : String) : Prop :=
  (∃ t ∈ c.ticks, id ∈ t.round.ids) ∧ c.world.ledger.IsLapsed id c.world.now

/-- Whether an engine is called about a record that a tick of its own has to itself. -/
def Disturbs (c : Crew ι) (id : String) : Move ι → Prop
  | .call i call => c.Holds i id ∧ call.subject? c.world = some id
  | _ => False

/-- Whether in a run no lease on the record of an id runs out while a tick has the record to itself,
and its engine is not called about it. -/
def IsCalm (e : ι → Engine) (id : String) : Crew ι → List (Move ι) → Prop
  | c, [] => ¬ c.Overdue id
  | c, move :: moves => ¬ c.Overdue id ∧ ¬ c.Disturbs id move ∧ IsCalm e id (c.step e move) moves

instance (c : Crew ι) (id : String) : Decidable (c.Overdue id) :=
  inferInstanceAs (Decidable (_ ∧ _))

instance [DecidableEq ι] (c : Crew ι) (i : ι) (id : String) : Decidable (c.Holds i id) :=
  inferInstanceAs (Decidable (∃ t ∈ c.ticks, t.worker = i ∧ id ∈ t.round.ids))

instance [DecidableEq ι] (c : Crew ι) (id : String) :
    (move : Move ι) → Decidable (c.Disturbs id move)
  | .call i call => inferInstanceAs (Decidable (c.Holds i id ∧ call.subject? c.world = some id))
  | .start .. | .work .. => .isFalse False.elim

instance decidableIsCalm [DecidableEq ι] (e : ι → Engine) (id : String) :
    (c : Crew ι) → (moves : List (Move ι)) → Decidable (IsCalm e id c moves)
  | c, [] => inferInstanceAs (Decidable (¬ c.Overdue id))
  | c, move :: moves =>
    have := decidableIsCalm e id (c.step e move) moves
    inferInstanceAs (Decidable (_ ∧ _ ∧ _))

/-- An engine's exclusive right to a record: at most one message about it is on its way; while a
tick has it, it is leased in the engine's name, no call to another engine touches it, and no engine
is handed it. -/
structure IsExclusive (e : ι → Engine) (c : Crew ι) (id : String) : Prop where
  single : c.sends id ≤ 1
  leased : ∀ i, c.Holds i id → c.world.ledger.IsLeasedBy id (e i).handle.holder
  untouched : ∀ i, c.Holds i id → ∀ j, j ≠ i → ∀ call : Call,
    (call.run (e j) c.world).ledger.find? id = c.world.ledger.find? id
  unavailable : ∀ i, c.Holds i id → ∀ j role duties,
    id ∉ (Session.lookAfter (e j) c.world role duties).ids

/-! ## §3. Who has a record. -/

/-- The records that ticks have to themselves. -/
def claims (ticks : List (Tick ι)) : List String :=
  ticks.flatMap (·.round.ids)

theorem mem_claims {ticks : List (Tick ι)} {id : String} :
    id ∈ claims ticks ↔ ∃ t ∈ ticks, id ∈ t.round.ids :=
  List.mem_flatMap

theorem Holds.mem_claims {c : Crew ι} {i : ι} {id : String} (h : c.Holds i id) :
    id ∈ claims c.ticks := by
  obtain ⟨t, ht, _, hid⟩ := h
  exact Crew.mem_claims.mpr ⟨t, ht, hid⟩

theorem Holds.overdue {c : Crew ι} {i : ι} {id : String} (h : c.Holds i id)
    (hlapsed : c.world.ledger.IsLapsed id c.world.now) : c.Overdue id := by
  obtain ⟨t, ht, _, hid⟩ := h
  exact ⟨⟨t, ht, hid⟩, hlapsed⟩

@[simp] theorem claims_append (ticks ticks' : List (Tick ι)) :
    claims (ticks ++ ticks') = claims ticks ++ claims ticks' :=
  List.flatMap_append

@[simp] theorem claims_ticks (s : Session) (i : ι) : claims (s.ticks i) = s.ids := by
  unfold claims Session.ticks Session.ids
  cases s.round <;> simp

theorem worker_of_mem_ticks {s : Session} {i : ι} {t : Tick ι} (h : t ∈ s.ticks i) :
    t.worker = i := by
  unfold Session.ticks at h
  cases hr : s.round with
  | none =>
    rw [hr] at h
    cases h
  | some r =>
    rw [hr] at h
    rw [List.mem_singleton.mp h]

/-- A message that is on its way is about a record that its tick has to itself. -/
theorem sends_le_count (c : Crew ι) (id : String) : c.sends id ≤ (claims c.ticks).count id := by
  unfold sends claims
  induction c.ticks with
  | nil => exact Nat.le_refl _
  | cons t ticks ih =>
    have ht : (t.round.airborne.map (·.leased.id)).count id ≤ t.round.ids.count id := by
      unfold Round.ids Round.members
      rw [List.map_append, List.map_map, List.count_append]
      exact Nat.le_add_left _ _
    rw [List.flatMap_cons, List.flatMap_cons, List.count_append, List.count_append]
    exact Nat.add_le_add ht ih

end Crew

/-! ## §4. Ids that are not drawn yet. -/

namespace World

variable {w w' : World} {h : Handle} {id other : String}

/-- An id that is stored will not be drawn. -/
def Knows (w : World) (id : String) : Prop :=
  ∀ n, w.ledger.find? id = some n → ∀ k, w.supply.drawn < k → id ≠ w.supply.name k

theorem Knows.ne_nextId {n : Negotiation} (hk : w.Knows id) (hn : w.ledger.find? id = some n) :
    id ≠ w.nextId :=
  hk n hn (w.supply.drawn + 1) (Nat.lt_succ_self _)

theorem Knows.congr (hk : w.Knows id) (hfind : w'.ledger.find? id = w.ledger.find? id)
    (hsupply : w'.supply = w.supply) : w'.Knows id := by
  intro n hn k hlt
  rw [hfind] at hn
  rw [hsupply] at hlt ⊢
  exact hk n hn k hlt

theorem Knows.reach (hk : w.Knows id) (hw : w.Reach h other w')
    (hother : ∃ n, w.ledger.find? other = some n) : w'.Knows id := by
  by_cases hid : id = other
  · subst hid
    obtain ⟨m, hm⟩ := hother
    intro n hn k hlt
    rw [hw.supply] at hlt ⊢
    exact hk m hm k hlt
  · exact hk.congr (hw.others id hid) hw.supply

/-- The id that was drawn will not be drawn again. -/
theorem Knows.draw (hk : w.Knows id) (hw : w.draw.Reach h w.nextId w') : w'.Knows id := by
  intro n hn k hlt
  rw [hw.supply, supply_draw, IdSupply.drawn_draw] at hlt
  rw [hw.supply, supply_draw, IdSupply.name_draw]
  by_cases hid : id = w.nextId
  · rw [hid]
    intro hsame
    have := w.supply.distinct hsame
    omega
  · rw [hw.others id hid, ledger_draw] at hn
    exact hk n hn k (by omega)

theorem Knows.call (hk : w.Knows id) (e : Engine) (c : Call) : (c.run e w).Knows id := by
  cases Call.contact e w c with
  | nothing hledger hsupply => exact hk.congr (by rw [hledger]) hsupply
  | subject other n hid hn hw => exact hk.reach hw ⟨n, hn⟩
  | drawn hw => exact hk.draw hw

/-- A record that another engine has leased, or that a call is not about, stays as it is. -/
theorem Knows.find?_call {e : Engine} {c : Call} {holder : String} (hk : w.Knows id)
    (hl : w.ledger.IsLeasedBy id holder) (hlive : ¬ w.ledger.IsLapsed id w.now)
    (hcall : e.handle.holder ≠ holder ∨ c.subject? w ≠ some id) :
    (c.run e w).ledger.find? id = w.ledger.find? id := by
  obtain ⟨n, hn⟩ := hl.stored
  cases Call.contact e w c with
  | nothing hledger hsupply => rw [hledger]
  | subject other m hid hm hw =>
    by_cases hsame : id = other
    · subst hsame
      exact hw.shielded (hl.shields hlive (hcall.resolve_right fun hne => hne hid))
    · exact hw.others id hsame
  | drawn hw => exact hw.others id (hk.ne_nextId hn)

end World

/-! ## §5. What every move keeps. -/

namespace Crew

variable {ι : Type} {e : ι → Engine} {c : Crew ι} {id : String}

/-- What holds throughout a calm run: a record is had by one tick at most, and leased in the name of
that tick's engine. -/
structure IsGuarded (e : ι → Engine) (c : Crew ι) (id : String) : Prop where
  once : (claims c.ticks).count id ≤ 1
  leased : ∀ i, c.Holds i id → c.world.ledger.IsLeasedBy id (e i).handle.holder
  known : c.world.Knows id

/-- A call to another engine, or one that is about another record. -/
theorem IsGuarded.call (h : c.IsGuarded e id)
    (hnames : ∀ i j, (e i).handle.holder = (e j).handle.holder → i = j)
    (hlive : ¬ c.Overdue id) {i : ι} {call : Call}
    (hcalm : ¬ c.Disturbs id (.call i call)) : (c.step e (.call i call)).IsGuarded e id where
  once := h.once
  leased := by
    intro j hj
    have hj' : c.Holds j id := hj
    have hl := h.leased j hj'
    refine hl.congr (h.known.find?_call hl (fun hlapsed => hlive (hj'.overdue hlapsed)) ?_)
    by_cases hij : i = j
    · subst hij
      exact .inr fun hsubject => hcalm ⟨hj', hsubject⟩
    · exact .inl fun hsame => hij (hnames i j hsame)
  known := h.known.call (e i) call

section Middle

/-! One tick among the others makes a move.  It is an engine's, and had some records to itself. -/

variable {i : ι} {s : Session} {before middle after : List (Tick ι)}

theorem count_claims_append (ticks ticks' ticks'' : List (Tick ι)) (id : String) :
    (claims (ticks ++ ticks' ++ ticks'')).count id
      = (claims ticks).count id + (claims ticks').count id + (claims ticks'').count id := by
  rw [claims_append, claims_append, List.count_append, List.count_append]

/-- Who has a record after the move had it before, or it is the tick's. -/
theorem holds_of_moved (hticks : c.ticks = before ++ middle ++ after) {j : ι}
    (hj : (Crew.mk s.world (before ++ s.ticks i ++ after)).Holds j id) :
    c.Holds j id ∨ id ∈ s.ids ∧ j = i := by
  obtain ⟨t, ht, hworker, hid⟩ := hj
  rcases List.mem_append.mp ht with ht | ht
  · rcases List.mem_append.mp ht with ht | ht
    · refine .inl ⟨t, ?_, hworker, hid⟩
      rw [hticks]
      exact List.mem_append_left _ (List.mem_append_left _ ht)
    · refine .inr ⟨?_, hworker.symm.trans (worker_of_mem_ticks ht)⟩
      rw [← claims_ticks s i]
      exact mem_claims.mpr ⟨t, ht, hid⟩
  · refine .inl ⟨t, ?_, hworker, hid⟩
    rw [hticks]
    exact List.mem_append_right _ ht

theorem holds_of_mem_middle (hticks : c.ticks = before ++ middle ++ after)
    (hmiddle : ∀ t ∈ middle, t.worker = i) (hid : id ∈ claims middle) : c.Holds i id := by
  obtain ⟨t, ht, hid⟩ := mem_claims.mp hid
  refine ⟨t, ?_, hmiddle t ht, hid⟩
  rw [hticks]
  exact List.mem_append_left _ (List.mem_append_right _ ht)

/-- A tick that gets no further record, and leaves this one as it is. -/
theorem IsGuarded.unmoved (h : c.IsGuarded e id) (hticks : c.ticks = before ++ middle ++ after)
    (hmiddle : ∀ t ∈ middle, t.worker = i) (hcount : s.ids.count id ≤ (claims middle).count id)
    (hfind : s.world.ledger.find? id = c.world.ledger.find? id) (hknown : s.world.Knows id) :
    (Crew.mk s.world (before ++ s.ticks i ++ after)).IsGuarded e id where
  once := by
    have honce := h.once
    rw [hticks, count_claims_append] at honce
    rw [count_claims_append, claims_ticks]
    omega
  leased := by
    intro j hj
    refine (h.leased j ?_).congr hfind
    rcases holds_of_moved hticks hj with hj | ⟨hid, rfl⟩
    · exact hj
    · have hpos := List.count_pos_iff.mpr hid
      exact holds_of_mem_middle hticks hmiddle (List.count_pos_iff.mp (by omega))
  known := hknown

/-- A tick is done with a record, and then no tick has it. -/
theorem IsGuarded.dealt (h : c.IsGuarded e id) (hticks : c.ticks = before ++ middle ++ after)
    (hmiddle : ∀ t ∈ middle, t.worker = i) (hids : (id :: s.ids).Perm (claims middle))
    (hw : c.world.Reach (e i).handle id s.world) :
    (Crew.mk s.world (before ++ s.ticks i ++ after)).IsGuarded e id := by
  have hnone : (claims (before ++ s.ticks i ++ after)).count id = 0 := by
    have honce := h.once
    rw [hticks, count_claims_append, ← hids.count_eq id, List.count_cons_self] at honce
    rw [count_claims_append, claims_ticks]
    omega
  have hmem : id ∈ claims middle := hids.mem_iff.mp List.mem_cons_self
  exact
    { once := by
        show (claims (before ++ s.ticks i ++ after)).count id ≤ 1
        omega
      leased := fun j hj => absurd hj.mem_claims (List.count_eq_zero.mp hnone)
      known := h.known.reach hw (h.leased i (holds_of_mem_middle hticks hmiddle hmem)).stored }

/-- A tick is handed a free record, so no tick had it. -/
theorem IsGuarded.taken (h : c.IsGuarded e id) (hlive : ¬ c.Overdue id)
    (hticks : c.ticks = before ++ middle ++ after) (hid : id ∈ s.ids) (hnodup : s.ids.Nodup)
    {n : Negotiation} (hn : c.world.ledger.find? id = some n)
    (hfree : Ledger.isFree c.world.now n = true)
    (hledger : s.world.ledger = c.world.ledger.leaseEach s.ids ((e i).handle.leaseAt c.world.now))
    (hsupply : s.world.supply = c.world.supply) :
    (Crew.mk s.world (before ++ s.ticks i ++ after)).IsGuarded e id := by
  have hnone : ∀ j, ¬ c.Holds j id := by
    intro j hj
    have := (h.leased j hj).not_isFree (fun hlapsed => hlive (hj.overdue hlapsed)) hn
    rw [hfree] at this
    cases this
  exact
    { once := by
        have hzero : (claims c.ticks).count id = 0 := by
          rw [List.count_eq_zero, mem_claims]
          rintro ⟨t, ht, hin⟩
          exact hnone t.worker ⟨t, ht, rfl, hin⟩
        have hone : s.ids.count id ≤ 1 := List.nodup_iff_count.mp hnodup id
        rw [hticks, count_claims_append] at hzero
        rw [count_claims_append, claims_ticks]
        omega
      leased := by
        intro j hj
        rcases holds_of_moved hticks hj with hj | ⟨_, rfl⟩
        · exact absurd hj (hnone j)
        · rw [hledger]
          exact Ledger.isLeasedBy_leaseEach hn hid _ _
      known := by
        intro m hm k hlt
        rw [hsupply] at hlt ⊢
        exact h.known n hn k hlt }

/-- Whatever the tick does, the record is guarded after it. -/
theorem IsGuarded.moved (h : c.IsGuarded e id) (hlive : ¬ c.Overdue id)
    (hticks : c.ticks = before ++ middle ++ after) (hmiddle : ∀ t ∈ middle, t.worker = i)
    (hclaims : s.Claims (e i).handle c.world (claims middle)) :
    (Crew.mk s.world (before ++ s.ticks i ++ after)).IsGuarded e id := by
  cases hclaims with
  | kept hids hw =>
    exact h.unmoved hticks hmiddle (Nat.le_of_eq (hids.count_eq id)) (by rw [hw])
      (h.known.congr (by rw [hw]) (by rw [hw]))
  | dealt other hids hw =>
    by_cases hid : id = other
    · subst hid
      exact h.dealt hticks hmiddle hids hw
    · have hfind := hw.others id hid
      have hcount : s.ids.count id = (claims middle).count id := by
        rw [← hids.count_eq id, List.count_cons_of_ne (Ne.symm hid)]
      exact h.unmoved hticks hmiddle (Nat.le_of_eq hcount) hfind (h.known.congr hfind hw.supply)
  | taken hids hnodup hfree hledger hsupply =>
    by_cases hid : id ∈ s.ids
    · obtain ⟨n, hn, hisFree⟩ := hfree id hid
      exact h.taken hlive hticks hid hnodup hn hisFree hledger hsupply
    · have hfind : s.world.ledger.find? id = c.world.ledger.find? id := by
        rw [hledger, Ledger.find?_leaseEach, if_neg hid]
      refine h.unmoved hticks hmiddle ?_ hfind (h.known.congr hfind hsupply)
      rw [List.count_eq_zero.mpr hid]
      exact Nat.zero_le _

end Middle

/-- A move that does not disturb keeps the record guarded. -/
theorem IsGuarded.step (h : c.IsGuarded e id)
    (hnames : ∀ i j, (e i).handle.holder = (e j).handle.holder → i = j)
    (hlive : ¬ c.Overdue id) {move : Move ι} (hcalm : ¬ c.Disturbs id move) :
    (c.step e move).IsGuarded e id := by
  cases move with
  | call i call => exact h.call hnames hlive hcalm
  | start i role =>
    have hticks : c.ticks = c.ticks ++ [] ++ [] := by simp
    have hmoved := h.moved hlive hticks nofun
      (Session.lookAfter_claims (e i) c.world role role.duties)
    rw [List.append_nil] at hmoved
    exact hmoved
  | work k move =>
    cases hk : c.ticks[k]? with
    | none =>
      simp only [Crew.step, hk]
      exact h
    | some t =>
      simp only [Crew.step, hk]
      obtain ⟨hlt, rfl⟩ := List.getElem?_eq_some_iff.mp hk
      have hticks : c.ticks = c.ticks.take k ++ [c.ticks[k]] ++ c.ticks.drop (k + 1) := by
        simp
      have hids : claims [c.ticks[k]] = c.ticks[k].round.ids := by simp [claims]
      refine h.moved hlive hticks (fun t ht => by rw [List.mem_singleton.mp ht]) ?_
      rw [hids]
      exact Session.stepRound_claims _ _ _ _

/-- In a calm run the record stays guarded. -/
theorem IsGuarded.run (h : c.IsGuarded e id)
    (hnames : ∀ i j, (e i).handle.holder = (e j).handle.holder → i = j) {moves : List (Move ι)}
    (hcalm : IsCalm e id c moves) :
    (c.run e moves).IsGuarded e id ∧ ¬ (c.run e moves).Overdue id := by
  induction moves generalizing c with
  | nil => exact ⟨h, hcalm⟩
  | cons move moves ih =>
    obtain ⟨hlive, hquiet, hrest⟩ := hcalm
    exact ih (h.step hnames hlive hquiet) hrest

/-- What is guarded is had exclusively. -/
theorem IsGuarded.isExclusive (h : c.IsGuarded e id)
    (hnames : ∀ i j, (e i).handle.holder = (e j).handle.holder → i = j)
    (hlive : ¬ c.Overdue id) : c.IsExclusive e id where
  single := Nat.le_trans (c.sends_le_count id) h.once
  leased := h.leased
  untouched := by
    intro i hi j hne call
    refine h.known.find?_call (h.leased i hi) (fun hlapsed => hlive (hi.overdue hlapsed)) ?_
    exact .inl fun hsame => hne (hnames j i hsame)
  unavailable := by
    intro i hi j role duties hid
    obtain ⟨n, hn⟩ := (h.leased i hi).stored
    have hbusy := (h.leased i hi).not_isFree (fun hlapsed => hlive (hi.overdue hlapsed)) hn
    -- What is handed out was free.
    cases Session.lookAfter_claims (e j) c.world role duties with
    | kept hids hw => exact absurd (hids.mem_iff.mp hid) List.not_mem_nil
    | dealt other hids hw => exact absurd (hids.mem_iff.mp List.mem_cons_self) List.not_mem_nil
    | taken hids hnodup hfree hledger hsupply =>
      obtain ⟨m, hm, hisFree⟩ := hfree id hid
      cases hn.symm.trans hm
      rw [hisFree] at hbusy
      cases hbusy

/-! ## §6. Exclusive dispatch. -/

/-- Let engines with different names share a store.  In every run in which no lease on a record runs
out while a tick has the record to itself, and no engine is called about a record that a tick of its
own has to itself, at most one message about the record is on its way at any time, and a record that
a tick has to itself is out of the reach of all other engines. -/
theorem exclusive_unless_disturbed (e : ι → Engine)
    (hnames : ∀ i j, (e i).handle.holder = (e j).handle.holder → i = j) (c : Crew ι)
    (hticks : c.ticks = []) (id : String) (hknown : c.world.Knows id) (moves : List (Move ι))
    (hcalm : IsCalm e id c moves) : (c.run e moves).IsExclusive e id := by
  have hguarded : c.IsGuarded e id :=
    { once := by
        rw [hticks]
        exact Nat.zero_le _
      leased := by
        rintro i ⟨t, ht, _⟩
        rw [hticks] at ht
        cases ht
      known := hknown }
  obtain ⟨h, hlive⟩ := hguarded.run hnames hcalm
  exact h.isExclusive hnames hlive

/-- Two engines with names of their own. -/
def pair : Bool → Engine
  | false => ⟨"a", "http://a", 10, 1, ⟨7, .immediate⟩, ⟨"a", 60000⟩, fun _ => false⟩
  | true => ⟨"b", "http://b", 10, 1, ⟨7, .immediate⟩, ⟨"b", 60000⟩, fun _ => false⟩

/-- A crew with an empty store. -/
def newCrew : Crew Bool :=
  ⟨⟨.empty, default, .counted, []⟩, []⟩

/-- The news that the first negotiation is finalized, which comes too early. -/
def tooEarly : Call :=
  .notify .finalized
    ⟨"dsp", "http://a", "gen-0001", none, .negotiationEvent .finalized⟩

/-- Engine "a" sends a request.  Meanwhile the other one gets the news, refuses it, and looks for
requests to send. -/
def untilSent : List (Move Bool) :=
  let offer : Offer := ⟨"offer", "asset", "provider", {}⟩
  [.call false (.initiate ⟨"provider", "http://provider", "dsp", offer⟩),
   .start false .consumer, .work 0 .begin, .work 0 .next, .work 0 .begin,
   .call true tooEarly, .start true .consumer, .work 1 .next]

/-- Engine "a" gets the news itself, and the other one looks for requests once more. -/
def afterRefusal : List (Move Bool) :=
  [.call false tooEarly, .start true .consumer, .work 2 .next, .work 2 .begin]

/-- The request is sent by both engines: what "a" refused ended the lease under which it sends. -/
theorem two_sends_after_refusal :
    (newCrew.run pair untilSent).IsExclusive pair "gen-0001"
      ∧ (newCrew.run pair untilSent).Holds false "gen-0001"
      ∧ (newCrew.run pair untilSent).sends "gen-0001" = 1
      ∧ (newCrew.run pair untilSent).Disturbs "gen-0001" (.call false tooEarly)
      ∧ ((newCrew.run pair untilSent).run pair afterRefusal).sends "gen-0001" = 2 := by
  have hnames : ∀ i j, (pair i).handle.holder = (pair j).handle.holder → i = j := by decide
  have hknown : newCrew.world.Knows "gen-0001" := by
    intro n hn
    rw [show newCrew.world.ledger = .empty from rfl, Ledger.find?_empty] at hn
    cases hn
  have hcalm : IsCalm pair "gen-0001" newCrew untilSent := by decide +kernel
  exact ⟨exclusive_unless_disturbed pair hnames newCrew rfl "gen-0001" hknown untilSent hcalm,
    by decide +kernel⟩

end Crew

end Parley
