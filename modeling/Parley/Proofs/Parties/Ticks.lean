/-
  Parley.Proofs.Parties.Ticks
  ────────────────────────────────
  **TICKS IN A MEETING.**

  A tick leases a batch for each duty and handles its records, in any order in
  which they may come up.  When a record's turn comes it is still stored as it was
  leased (`IsDue`), for handling the others left it alone.  So what handling one
  due record keeps, a tick keeps (`runRole_induction`).  A statement may speak of
  the ids of the records that are leased and not yet handled.
-/
import Parley.Proofs.Parties.Exchange

namespace Parley

open Parley.Batch

/-- The state that a duty leads to. -/
def Duty.target : Duty → State
  | decide _ target => target
  | send message => message.target

namespace Meeting

variable {parties : Party → Engine} {luck : Luck} {m : Meeting} {q : Party} {role : Role}
  {duty : Duty}

/-! ## §1. Batches. -/

/-- A record that is stored as it was leased for a duty. -/
structure IsDue (m : Meeting) (q : Party) (role : Role) (duty : Duty) (n : Negotiation) : Prop where
  stored : (m.ledger q).content n.id = some (n.withLease none)
  state : n.state = duty.state.code
  role : n.role = role
  pending : n.pending = false

/-- The meeting with a lease on a party's records of some ids. -/
def lendEach (m : Meeting) (q : Party) (ids : List String) (lease : Lease) : Meeting :=
  m.setWorld q ((m.world q).withLedger ((m.ledger q).leaseEach ids lease))

/-- The batch that a party leases for a duty. -/
def batch (m : Meeting) (e : Engine) (q : Party) (role : Role) (duty : Duty) : List Negotiation :=
  (m.ledger q).dutyBatch e.handle m.now e.batchSize role duty.state

@[simp] theorem content_lendEach (m : Meeting) (q p : Party) (ids : List String) (lease : Lease)
    (id : String) : ((m.lendEach q ids lease).ledger p).content id = (m.ledger p).content id := by
  rcases Party.eq_or_other q p with rfl | rfl
  · rw [lendEach, ledger_setWorld_self, World.ledger_withLedger, Ledger.content_leaseEach]
  · rw [lendEach, ledger_setWorld_other]

/-- Leases do not matter. -/
theorem IsDue.lend {n : Negotiation} {p : Party} {ids : List String} {lease : Lease}
    (h : m.IsDue q role duty n) : (m.lendEach p ids lease).IsDue q role duty n :=
  ⟨(content_lendEach m p q ids lease n.id).trans h.stored, h.state, h.role, h.pending⟩

theorem mem_batch {e : Engine} {n : Negotiation} (hn : n ∈ m.batch e q role duty) :
    m.IsDue q role duty n := by
  obtain ⟨hstored, hstate, hrole, hpending⟩ := Ledger.mem_dutyBatch hn
  exact ⟨hstored, hstate, hrole, hpending⟩

/-- Looking after a duty is handling the batch that was leased. -/
theorem lookAfter_eq (hk : (m.ledger q).IsKnown) (e : Engine) :
    e.lookAfter (conduct parties luck q) role duty m
      = (conduct parties luck q).gather e.maxConcurrent
          ((m.batch e q role duty).map (e.handleRecord (conduct parties luck q) role duty))
          (m.lendEach q ((m.batch e q role duty).map (·.id)) (e.handle.leaseAt m.now)) := by
  have hlease : (e.job role duty).lease (seat q) m = (m.batch e q role duty,
      m.lendEach q ((m.batch e q role duty).map (·.id)) (e.handle.leaseAt m.now)) := by
    have hentry : within q ((e.job role duty).lease .direct) = (e.job role duty).lease (seat q) :=
      (entry q e.handle).passage.lease role duty
    rw [← hentry]
    unfold within
    rw [Engine.lease_direct (w := m.world q) hk]
    rfl
  have hunfold : e.lookAfter (conduct parties luck q) role duty m
      = (conduct parties luck q).gather e.maxConcurrent
          (((e.job role duty).lease (seat q) m).1.map
            (e.handleRecord (conduct parties luck q) role duty))
          ((e.job role duty).lease (seat q) m).2 := rfl
  rw [hunfold, hlease]

/-- Duties are looked after in order. -/
theorem lookAfterAll_cons (e : Engine) (c : Conduct (StateM Meeting)) (role : Role) (duty : Duty)
    (rest : List Duty) (m : Meeting) : (e.lookAfterAll c role (duty :: rest) m).2
      = (e.lookAfterAll c role rest (e.lookAfter c role duty m).2).2 := by
  unfold Engine.lookAfterAll
  generalize e.lookAfter c role duty = first
  cases rest <;> rfl

/-- The consumer's duties come before the provider's. -/
theorem runOnce_eq (e : Engine) (c : Conduct (StateM Meeting)) (m : Meeting) :
    (e.runOnce c m).2 = (e.runRole c .provider (e.runRole c .consumer m).2).2 := by
  unfold Engine.runOnce
  generalize e.runRole c .consumer = consumer
  generalize e.runRole c .provider = provider
  rfl

/-! ## §2. Induction. -/

/-- The meeting when one more record was picked from a batch. -/
def pick (m : Meeting) : Meeting :=
  { m with picked := m.picked + 1 }

@[simp] theorem world_pick (m : Meeting) (q : Party) : m.pick.world q = m.world q := rfl
@[simp] theorem ledger_pick (m : Meeting) (q : Party) : m.pick.ledger q = m.ledger q := rfl

theorem IsDue.pick {n : Negotiation} (h : m.IsDue q role duty n) : m.pick.IsDue q role duty n :=
  ⟨h.stored, h.state, h.role, h.pending⟩

/-- The record that is next is handled, and then the others are. -/
theorem inTurns_succ (turn : Nat → Nat) (most count : Nat) (members : List (StateM Meeting Bool))
    (m : Meeting) : (inTurns turn most (count + 1) members m).2
      = (inTurns turn most count
          (members.eraseIdx (turn m.picked % min (max 1 most) members.length))
          (members.getD (turn m.picked % min (max 1 most) members.length) (pure false) m.pick).2).2 :=
  rfl

theorem gather_conduct (most : Nat) (members : List (StateM Meeting Bool)) :
    (conduct parties luck q).gather most members
      = inTurns luck.turn most members.length members := rfl

/-- Handling the records of a batch, in any order in which they may come up. -/
theorem inTurns_induction {motive : List String → Meeting → Prop}
    (hord : ∀ ids m, motive ids m → m.IsOrderly parties)
    (hpick : ∀ ids m, motive ids m → motive ids m.pick)
    (hhandle : ∀ n ids rest m, ids.Perm (n.id :: rest) → motive ids m → m.IsDue q role duty n →
      motive rest ((parties q).handleRecord (conduct parties luck q) role duty n m).2)
    (turn : Nat → Nat) (most : Nat) {batch : List Negotiation}
    (hnodup : (batch.map (·.id)).Nodup) (hdue : ∀ n ∈ batch, m.IsDue q role duty n)
    (h : motive (batch.map (·.id)) m) :
    motive [] (inTurns turn most batch.length
      (batch.map ((parties q).handleRecord (conduct parties luck q) role duty)) m).2 := by
  -- Over the number of records that are left.
  generalize hcount : batch.length = count
  induction count generalizing batch m with
  | zero =>
    rw [List.length_eq_zero_iff] at hcount
    subst hcount
    exact h
  | succ count ih =>
    generalize hone : (parties q).handleRecord (conduct parties luck q) role duty = one at ih ⊢
    generalize hhere : turn m.picked % min (max 1 most) (batch.map one).length = here
    have hlt : here < batch.length := by
      rw [List.length_map, hcount] at hhere
      have hmod := Nat.mod_lt (turn m.picked) (by omega : 0 < min (max 1 most) (count + 1))
      omega
    have hnext : (batch.map one).getD here (pure false) = one batch[here] := by
      rw [List.getD_eq_getElem?_getD, List.getElem?_map, List.getElem?_eq_getElem hlt]
      rfl
    rw [inTurns_succ, hhere, hnext, List.eraseIdx_map]
    subst hone
    have hperm := List.getElem_cons_eraseIdx_perm hlt
    have hids := hperm.map (·.id)
    rw [List.map_cons] at hids
    have hn := (hdue batch[here] (List.getElem_mem hlt)).pick
    have horderly := hord _ m.pick (hpick _ m h)
    have hoffers : batch[here].offers ≠ [] :=
      ((horderly q).sound batch[here].id _ hn.stored).offered
    have hexchange : Exchange parties luck q duty batch[here] m.pick
        ((parties q).handleRecord (conduct parties luck q) role duty batch[here] m.pick).2 :=
      handle_effect (horderly q).held (horderly q.other).held role duty hoffers
    have hdistinct := (hids.nodup_iff).mpr hnodup
    rw [List.nodup_cons] at hdistinct
    refine ih hdistinct.2 (fun k hk => ?_)
      (hhandle _ _ _ m.pick hids.symm (hpick _ m h) hn) (by rw [List.length_eraseIdx]; split <;> omega)
    -- The records that are left are still as they were leased.
    have hne : batch[here].id ≠ k.id := fun hid => hdistinct.1 (hid ▸ List.mem_map_of_mem hk)
    obtain ⟨hstored, hstate, hrole, hpending⟩ := hdue k ((List.eraseIdx_sublist _ _).subset hk)
    exact ⟨(hexchange.content_of_ne hne).trans hstored, hstate, hrole, hpending⟩

theorem lookAfter_induction {motive : List String → Meeting → Prop}
    (hord : ∀ ids m, motive ids m → m.IsOrderly parties)
    (hlend : ∀ m ids lease, motive [] m → lease.holder = (parties q).handle.holder →
      motive ids (m.lendEach q ids lease))
    (hpick : ∀ ids m, motive ids m → motive ids m.pick)
    (hhandle : ∀ n ids rest m, ids.Perm (n.id :: rest) → motive ids m → m.IsDue q role duty n →
      motive rest ((parties q).handleRecord (conduct parties luck q) role duty n m).2)
    (h : motive [] m) :
    motive [] ((parties q).lookAfter (conduct parties luck q) role duty m).2 := by
  rw [lookAfter_eq (hord [] m h q).isKnown]
  rw [gather_conduct, List.length_map]
  exact inTurns_induction hord hpick hhandle luck.turn _ (Ledger.nodup_dutyBatch _ _ _ _ _ _)
    (fun n hn => (mem_batch hn).lend) (hlend m _ _ h rfl)

/-- What handling a due record keeps, a tick keeps. -/
theorem runRole_induction {motive : List String → Meeting → Prop}
    (hord : ∀ ids m, motive ids m → m.IsOrderly parties)
    (hlend : ∀ m ids lease, motive [] m → lease.holder = (parties q).handle.holder →
      motive ids (m.lendEach q ids lease))
    (hpick : ∀ ids m, motive ids m → motive ids m.pick)
    (hhandle : ∀ duty ∈ role.duties, ∀ n ids rest m, ids.Perm (n.id :: rest) → motive ids m →
      m.IsDue q role duty n →
      motive rest ((parties q).handleRecord (conduct parties luck q) role duty n m).2)
    (h : motive [] m) : motive [] ((parties q).runRole (conduct parties luck q) role m).2 := by
  -- Over the duties, for any meeting.
  have hall : ∀ duties : List Duty, (∀ duty ∈ duties, duty ∈ role.duties) → ∀ m, motive [] m →
      motive [] ((parties q).lookAfterAll (conduct parties luck q) role duties m).2 := by
    intro duties
    induction duties with
    | nil => exact fun _ m h => h
    | cons duty rest ih =>
      intro hduties m h
      rw [lookAfterAll_cons]
      exact ih (fun d hd => hduties d (List.mem_cons_of_mem duty hd)) _
        (lookAfter_induction hord hlend hpick (hhandle duty (hduties duty List.mem_cons_self)) h)
  exact hall role.duties (fun _ hd => hd) m h

/-! ## §3. Runs. -/

/-- A wish to negotiate is a new record and a wish on record. -/
theorem act_initiate (hheld : (m.ledger .first).HeldBy (parties .first).handle.holder)
    (r : ContractRequest) :
    m.act parties luck (.initiate r)
      = { m.setWorld .first ((parties .first).initiate .direct r (m.world .first)).2 with
          wishes := m.wishes ++ [((m.world .first).nextId, r)] } := by
  have hseat : (parties .first).initiate (seat .first) r m
      = (.ok (r.opened (m.world .first).nextId m.now),
          m.setWorld .first ((parties .first).initiate .direct r (m.world .first)).2) := by
    have hentry : within .first ((parties .first).initiate .direct r)
        = (parties .first).initiate (seat .first) r :=
      (entry .first (parties .first).handle).passage.initiate r
    rw [← hentry]
    unfold within
    rw [Engine.initiate_direct (w := m.world .first) hheld]
    rfl
  unfold act
  simp only [hseat]
  rfl

/-- What a tick, a wish to negotiate and the passing of time keep, a run keeps. -/
theorem run_induction {motive : Meeting → Prop}
    (htick : ∀ q role m, motive m → motive ((parties q).runRole (conduct parties luck q) role m).2)
    (hinitiate : ∀ r m, motive m → motive (m.act parties luck (.initiate r)))
    (hadvance : ∀ ms m, motive m → motive (m.act parties luck (.advance ms)))
    (h : motive m) (acts : List Action) : motive (m.run parties luck acts) := by
  induction acts generalizing m with
  | nil => exact h
  | cons action rest ih =>
    have hact : motive (m.act parties luck action) := by
      cases action with
      | initiate r => exact hinitiate r m h
      | tick q role => exact htick q role m h
      | advance ms => exact hadvance ms m h
    exact ih hact

end Meeting

end Parley
