/-
  Parley.Proofs.Engine.Exhaustion
  ────────────────────────────────
  **A POLLING LOOP COMES TO REST.**

  A loop polls again at once after a tick that counted something, so a tick must
  not count for ever.  While no messages come in and nothing is to be ended, the
  ticks of either role count no more altogether than is left of the ledger, and
  that is at most the retry limit and one for each record.

  The records of the store may be of any kind, also leased by others or in
  unknown states, and they may be lost at any time.  What is lost during a send
  still counts once, and what is lost before its turn may be written again.  So
  the account is kept for a ledger in which nothing is lost (`Backs`): the store's
  is within it, and the records that a tick works with are in it as they were
  leased.

  A tick that breaks down counts nothing and leaves the loop.  None does while
  the leases of the store have ends, and so have those that are taken.
-/
import Parley.Proofs.Engine.Breakdowns
import Parley.Proofs.Engine.Remainder
import Parley.Proofs.Engine.Reach
import Parley.Polling.Poller
import Mathlib.Algebra.Order.BigOperators.Group.Finset

namespace Parley

/-! ## §1. Worlds in which nothing comes in. -/

/-- From one world to another no record is added or changed.  The clock may be moved to any time, and
records may be lost. -/
def World.Wanes (w w' : World) : Prop :=
  w'.ledger.Within w.ledger

theorem World.wanes_erase (w : World) (id : String) :
    w.Wanes (w.withLedger (w.ledger.erase id)) := by
  intro other n hn
  rw [ledger_withLedger, Ledger.find?_erase] at hn
  split at hn
  · cases hn
  · exact hn

/-! ## §2. The records of a round. -/

/-- The records that a round works with are in a ledger as they were leased, in the engine's own
name and for the round's duty. -/
structure Round.IsBackedBy (r : Round) (e : Engine) (u : Ledger) : Prop where
  duty : r.duty ∈ r.role.duties
  later : ∀ duty ∈ r.later, duty ∈ r.role.duties
  distinct : (r.members.map (·.id)).Nodup
  kept : ∀ n ∈ r.members, u.find? n.id = some n
  own : ∀ n ∈ r.members, ∀ lease, n.lease = some lease → lease.holder = e.handle.holder
  suits : ∀ n ∈ r.members, n.Suits r.role r.duty
  sent : ∀ f ∈ r.airborne, r.duty = .send f.sending

namespace Round

variable {r r' : Round} {e : Engine} {u u' : Ledger} {w : World} {n : Negotiation}

/-- The engine is not kept from a record that it works with. -/
theorem IsBackedBy.not_shields (h : r.IsBackedBy e u) (hw : w.ledger.Within u)
    (hn : n ∈ r.members) : ¬ w.ledger.Shields n.id e.handle.holder w.now := by
  rintro ⟨lease, hlease, hlive⟩
  obtain ⟨stored, hstored, hown⟩ := Ledger.find?_of_lease? hlease
  cases (hw n.id stored hstored).symm.trans (h.kept n hn)
  exact ((Lease.shieldsFrom_iff lease e.handle.holder w.now).mp hlive).2 (h.own n hn lease hown)

/-- A round goes on without one of its records. -/
structure Leaves (r : Round) (n : Negotiation) (r' : Round) : Prop where
  role : r'.role = r.role
  duty : r'.duty = r.duty
  later : r'.later = r.later
  members : (n :: r'.members).Perm r.members
  airborne : r'.airborne ⊆ r.airborne

theorem leaves_ahead {rest : List Negotiation} (hahead : r.ahead = n :: rest) :
    r.Leaves n { r with ahead := rest } := by
  refine ⟨rfl, rfl, rfl, ?_, List.Subset.refl _⟩
  simp only [members, hahead]
  exact List.Perm.refl _

theorem leaves_airborne {k : Nat} {f : Flight} (hk : r.airborne[k]? = some f) :
    r.Leaves f.leased { r with airborne := r.airborne.eraseIdx k } :=
  ⟨rfl, rfl, rfl, members_perm hk, (List.eraseIdx_sublist _ k).subset⟩

theorem Leaves.mem (h : r.Leaves n r') : n ∈ r.members :=
  h.members.subset List.mem_cons_self

/-- Whatever is written in place of the record that leaves, the others are backed as before. -/
theorem IsBackedBy.leaves (h : r.IsBackedBy e u) (hleaves : r.Leaves n r')
    (hu : ∀ id, id ≠ n.id → u'.find? id = u.find? id) : r'.IsBackedBy e u' := by
  have hsub : ∀ m ∈ r'.members, m ∈ r.members := fun m hm =>
    hleaves.members.subset (List.mem_cons_of_mem n hm)
  have hdistinct := (hleaves.members.map (·.id)).nodup_iff.mpr h.distinct
  rw [List.map_cons, List.nodup_cons] at hdistinct
  refine
    { duty := ?_
      later := ?_
      distinct := hdistinct.2
      kept := fun m hm => ?_
      own := fun m hm => h.own m (hsub m hm)
      suits := ?_
      sent := fun f hf => hleaves.duty.trans (h.sent f (hleaves.airborne hf)) }
  · rw [hleaves.role, hleaves.duty]
    exact h.duty
  · rw [hleaves.role, hleaves.later]
    exact h.later
  · -- The others are not the one that is written.
    have hne : m.id ≠ n.id := fun hid => hdistinct.1 (hid ▸ List.mem_map_of_mem hm)
    rw [hu m.id hne]
    exact h.kept m (hsub m hm)
  · intro m hm
    rw [hleaves.role, hleaves.duty]
    exact h.suits m (hsub m hm)

/-- A batch that has just been leased. -/
theorem IsBackedBy.of_batch {role : Role} {duty : Duty} {batch : List Negotiation}
    {later : List Duty} (hduty : duty ∈ role.duties) (hlater : ∀ d ∈ later, d ∈ role.duties)
    (hdistinct : (batch.map (·.id)).Nodup) (hkept : ∀ n ∈ batch, u.find? n.id = some n)
    (hown : ∀ n ∈ batch, ∀ lease, n.lease = some lease → lease.holder = e.handle.holder)
    (hsuits : ∀ n ∈ batch, n.Suits role duty) :
    (⟨role, duty, batch, [], later⟩ : Round).IsBackedBy e u := by
  have hmembers : (⟨role, duty, batch, [], later⟩ : Round).members = batch :=
    List.append_nil batch
  refine ⟨hduty, hlater, ?_, ?_, ?_, ?_, fun f hf => absurd hf List.not_mem_nil⟩ <;> rw [hmembers]
  exacts [hdistinct, hkept, hown, hsuits]

/-- A record whose message goes out stays with the round. -/
theorem IsBackedBy.sending (h : r.IsBackedBy e u) {rest : List Negotiation}
    (hahead : r.ahead = n :: rest) {f : Flight} (hleased : f.leased = n)
    (hduty : r.duty = .send f.sending) :
    { r with ahead := rest, airborne := r.airborne ++ [f] }.IsBackedBy e u := by
  have hmembers : { r with ahead := rest, airborne := r.airborne ++ [f] }.members.Perm
      r.members := by
    simp only [members, hahead, List.map_append, List.map_cons, List.map_nil, hleased]
    rw [← List.append_assoc]
    exact List.perm_append_singleton _ _
  exact
    { duty := h.duty
      later := h.later
      distinct := (hmembers.map (·.id)).nodup_iff.mpr h.distinct
      kept := fun m hm => h.kept m (hmembers.subset hm)
      own := fun m hm => h.own m (hmembers.subset hm)
      suits := fun m hm => h.suits m (hmembers.subset hm)
      sent := fun g hg => by
        rcases List.mem_append.mp hg with hold | hnew
        · exact h.sent g hold
        · cases List.mem_singleton.mp hnew
          exact hduty }

end Round

namespace Session

/-! ## §3. One move. -/

/-- A ledger in which nothing is lost: the store's is within it, and the tick under way works with
its records. -/
structure Backs (u : Ledger) (e : Engine) (s : Session) : Prop where
  within : s.world.ledger.Within u
  round : ∀ r, s.round = some r → r.IsBackedBy e u

/-- From one ledger in which nothing is lost to the next, no more is counted than is taken off. -/
def Accounts (e : Engine) (u : Ledger) (count : Nat) (s : Session) : Prop :=
  ∃ u', Backs u' e s ∧ u'.remainder e.retry.limit + count ≤ u.remainder e.retry.limit

variable {e : Engine} {u : Ledger} {s s' : Session} {w w' : World} {r r' : Round}
  {n : Negotiation}

theorem Backs.accounts (h : Backs u e s) : Accounts e u 0 s :=
  ⟨u, h, Nat.le_refl _⟩

theorem backs_idle (hw : w.ledger.Within u) : Backs u e ⟨w, none⟩ :=
  ⟨hw, fun _ hr => nomatch hr⟩

theorem backs_round (hw : w.ledger.Within u) (hr : r.IsBackedBy e u) : Backs u e ⟨w, some r⟩ := by
  refine ⟨hw, fun r' hr' => ?_⟩
  cases hr'
  exact hr

/-- What is written in place of a record that leaves the round is accounted for. -/
theorem Backs.put (h : Backs u e ⟨w, some r⟩) (hleaves : r.Leaves n r') {m : Negotiation}
    (hid : m.id = n.id) (hw : w'.ledger.Within (u.put m)) {count : Nat}
    (hless : m.remainder e.retry.limit + count ≤ n.remainder e.retry.limit) :
    Accounts e u count ⟨w', some r'⟩ := by
  have hr := h.round r rfl
  have hothers : ∀ id, id ≠ n.id → (u.put m).find? id = u.find? id := by
    intro id hne
    rw [Ledger.find?_put, if_neg]
    exact fun hsame => hne (hsame.symm.trans hid)
  refine ⟨u.put m, backs_round hw (hr.leaves hleaves hothers), ?_⟩
  have hput := Ledger.remainder_put e.retry.limit hid (hr.kept n hleaves.mem)
  omega

/-- A record that leaves the round and is given back is accounted for. -/
theorem Backs.free (h : Backs u e ⟨w, some r⟩) (hleaves : r.Leaves n r') :
    Accounts e u 0 ⟨w.free n.id, some r'⟩ := by
  have hothers : ∀ id, id ≠ n.id → (u.setLease n.id none).find? id = u.find? id := by
    intro id hne
    rw [Ledger.find?_setLease, if_neg hne]
  have hr := (h.round r rfl).leaves hleaves hothers
  refine ⟨u.setLease n.id none, backs_round (h.within.setLease n.id none) hr, ?_⟩
  rw [Ledger.remainder_setLease]
  exact Nat.le_refl _

/-- What is leased for a duty suits it. -/
theorem lookAfter_accounts (hw : w.ledger.Within u) (role : Role) (duties : List Duty)
    (hduties : ∀ duty ∈ duties, duty ∈ role.duties) :
    Accounts e u 0 (lookAfter e w role duties) := by
  cases duties with
  | nil => exact (backs_idle hw).accounts
  | cons duty later =>
    have hduty := hduties duty List.mem_cons_self
    have hlater : ∀ d ∈ later, d ∈ role.duties := fun d hd =>
      hduties d (List.mem_cons_of_mem duty hd)
    rw [lookAfter_cons]
    rcases e.lease_cases role duty w with hlease | ⟨batch, l, hnext, hlease⟩
    · rw [hlease]
      have hnone : (⟨role, duty, [], [], later⟩ : Round).IsBackedBy e u := by
        refine .of_batch hduty hlater List.nodup_nil ?_ ?_ ?_
        all_goals exact fun n hn => absurd hn List.not_mem_nil
      exact (backs_round hw hnone).accounts
    · rw [hlease]
      obtain ⟨rfl, hnodup, htaken⟩ := Ledger.nextNotLeased_eq_ok hnext
      have hbatch : (⟨role, duty, batch, [], later⟩ : Round).IsBackedBy e
          (u.leaseEach (batch.map (·.id)) (e.handle.leaseAt w.now)) := by
        refine .of_batch hduty hlater hnodup ?_ ?_ ?_
        · intro m hm
          obtain ⟨stored, hstored, _, _, hleased⟩ := htaken m hm
          rw [Ledger.find?_leaseEach, if_pos (List.mem_map_of_mem hm), hw m.id stored hstored,
            hleased]
          rfl
        · intro m hm lease hown
          obtain ⟨stored, _, _, _, rfl⟩ := htaken m hm
          cases hown
          rfl
        · intro m hm s hs
          obtain ⟨stored, _, _, hmeets, rfl⟩ := htaken m hm
          exact Query.state_of_matchesAll hmeets hs
      have hwithin := hw.leaseEach (batch.map (·.id)) (e.handle.leaseAt w.now)
      refine ⟨_, backs_round hwithin hbatch, ?_⟩
      rw [Ledger.remainder_leaseEach]
      exact Nat.le_refl _

/-- What becomes of a record up to its message is accounted for. -/
theorem Backs.begun (hlimit : 0 < e.retry.limit) (h : Backs u e ⟨w, some r⟩)
    {rest : List Negotiation} (hahead : r.ahead = n :: rest) :
    Accounts e u (e.begin .direct r.role r.duty n w).1.counts (beginOne e w r n rest) := by
  have hr := h.round r rfl
  have hleaves := Round.leaves_ahead hahead
  have hbegan := Engine.began (hr.not_shields h.within hleaves.mem) r.role r.duty
  unfold beginOne
  generalize e.begin .direct r.role r.duty n w = result at hbegan ⊢
  obtain ⟨begun, w'⟩ := result
  cases hbegan with
  | parked hguard =>
    exact h.put hleaves (m := (n.withPending true).withLease none) rfl (h.within.put _)
      (Nat.le_refl _)
  | left hguard => exact h.free hleaves
  | moved kind m hguard hentered hduty =>
    have hless :=
      Negotiation.remainder_concludes hlimit hr.duty (hr.suits n hleaves.mem) hentered hduty
    exact h.put hleaves (m := m.withLease none) hentered.id (h.within.put _) hless
  | sending f hguard hleased hduty =>
    exact (backs_round h.within (hr.sending hahead hleased hduty)).accounts

/-- What becomes of a record from the reply on is accounted for. -/
theorem Backs.landed (h : Backs u e ⟨w, some r⟩) {k : Nat} {f : Flight}
    (hk : r.airborne[k]? = some f) (reply : Reply) :
    Accounts e u (e.land .direct r.role f reply w).1.toNat (landOne e w r k reply) := by
  have hr := h.round r rfl
  have hleaves := Round.leaves_airborne hk
  have hduty := hr.duty
  have hsuits := hr.suits f.leased hleaves.mem
  rw [hr.sent f (List.mem_of_getElem? hk)] at hduty hsuits
  have hlanded := Engine.landed_of_not_shields (hr.not_shields h.within hleaves.mem) r.role reply
  have hland : landOne e w r k reply = ⟨(e.land .direct r.role f reply w).2,
      some { r with airborne := r.airborne.eraseIdx k }⟩ := by
    unfold landOne
    simp only [hk]
  rw [hland]
  generalize e.land .direct r.role f reply w = result at hlanded ⊢
  obtain ⟨counts, w'⟩ := result
  cases hlanded with
  | gone _ hn =>
    -- The record is written off, as if it had come to its end.
    have hover : (f.leased.enter State.terminated.code w.now).remainder e.retry.limit = 0 := by
      rw [Negotiation.remainder_of_code (s := .terminated) rfl]
      show ((f.leased.role.duty? .terminated).map _).getD 0 = 0
      rw [Role.duty?_terminated]
      rfl
    have hpos := hsuits.remainder_pos e.retry.limit hduty
    have hone : counts.toNat ≤ 1 := Bool.toNat_le counts
    refine h.put hleaves (m := f.leased.enter State.terminated.code w.now) rfl
      (h.within.put_of_absent hn) ?_
    show _ + counts.toNat ≤ _
    omega
  | left n hn => exact h.free hleaves
  | moved kind n m hn hturn =>
    -- What is stored is what was leased.
    cases (h.within _ n hn).symm.trans (hr.kept f.leased hleaves.mem)
    have hless := Negotiation.remainder_turn hduty hsuits hturn
    exact h.put hleaves (m := m.withLease none) hturn.enters.id (h.within.put _) hless

/-- A move of the engine counts no more than it takes off. -/
theorem Backs.step (hlimit : 0 < e.retry.limit) (h : Backs u e s) {move : Move}
    (hmove : ∀ c, move ≠ .call c) : Accounts e u (s.counts e move) (s.step e move) := by
  have hwork := work e s hmove
  obtain ⟨w, round⟩ := s
  generalize counts e ⟨w, round⟩ move = count, Session.step e ⟨w, round⟩ move = s' at hwork ⊢
  cases hwork with
  | idle => exact h.accounts
  | started role hr => exact lookAfter_accounts h.within role role.duties fun _ hd => hd
  | begun r n rest hr hahead =>
    cases hr
    exact h.begun hlimit hahead
  | landed r k f reply hr hk =>
    cases hr
    exact h.landed hk reply
  | next r hr =>
    cases hr
    exact lookAfter_accounts h.within r.role r.later (h.round r rfl).later

/-! ## §4. Any number of moves. -/

/-- What the engine's moves count is accounted for, whatever is lost in between. -/
theorem Backs.leads (hlimit : 0 < e.retry.limit) {count : Nat} (h : Backs u e s)
    (hleads : Leads e World.Wanes s count s') : Accounts e u count s' := by
  induction hleads generalizing u with
  | refl s => exact h.accounts
  | others hopen hw hrest ih => exact ih ⟨hw.trans h.within, h.round⟩
  | move move hmove hrest ih =>
    obtain ⟨v, hv, hfirst⟩ := h.step hlimit hmove
    obtain ⟨u', hu', hothers⟩ := ih hv
    exact ⟨u', hu', by omega⟩

/-- What several times the engine's moves count is accounted for. -/
theorem Backs.leads_each (hlimit : 0 < e.retry.limit) {world : Nat → World} {counts : Nat → Nat}
    (h : Backs u e ⟨world 0, none⟩)
    (hleads : ∀ k, Leads e World.Wanes ⟨world k, none⟩ (counts k) ⟨world (k + 1), none⟩) (k : Nat) :
    Accounts e u (∑ i ∈ Finset.range k, counts i) ⟨world k, none⟩ := by
  induction k with
  | zero => exact h.accounts
  | succ k ih =>
    obtain ⟨v, hv, hbefore⟩ := ih
    obtain ⟨u', hu', hlast⟩ := hv.leads hlimit (hleads k)
    refine ⟨u', hu', ?_⟩
    rw [Finset.sum_range_succ]
    omega

end Session

/-! ## §5. Loops. -/

namespace Polling

/-- After an iteration with this count a loop sleeps. -/
def Rests (count : Nat) : Prop :=
  ∀ (wait horizon due : Nat) (jobs : List Scripted), (iterate jobs).1 = count → due < horizon →
    runUntil wait horizon due jobs
      = runUntil wait horizon (due + effectiveWait wait) (iterate jobs).2

theorem rests_zero : Rests 0 := by
  intro wait horizon due jobs hcount hdue
  have hidle : ¬ 0 < (iterate jobs).1 := by omega
  rw [runUntil, if_pos hdue, if_neg hidle]

/-- The counts of a loop's iterations come to no more than a bound altogether, and from some
iteration on nothing is counted and the loop sleeps each time. -/
structure ComesToRest (bound : Nat) (counts : Nat → Nat) : Prop where
  bounded : ∀ k, ∑ i ∈ Finset.range k, counts i ≤ bound
  rests : ∃ first, ∀ k, first ≤ k → counts k = 0 ∧ Rests (counts k)

/-- What is bounded altogether comes to an end. -/
theorem comesToRest_of_bounded {bound : Nat} {counts : Nat → Nat}
    (h : ∀ k, ∑ i ∈ Finset.range k, counts i ≤ bound) : ComesToRest bound counts := by
  -- Some sum is the largest.
  have hlargest : ∃ first, ∀ k,
      ∑ i ∈ Finset.range k, counts i ≤ ∑ i ∈ Finset.range first, counts i := by
    by_contra hno
    push Not at hno
    have hbeyond : ∀ goal, ∃ k, goal ≤ ∑ i ∈ Finset.range k, counts i := by
      intro goal
      induction goal with
      | zero => exact ⟨0, Nat.zero_le _⟩
      | succ goal ih =>
        obtain ⟨k, hk⟩ := ih
        obtain ⟨l, hl⟩ := hno k
        exact ⟨l, by omega⟩
    obtain ⟨k, hk⟩ := hbeyond (bound + 1)
    have := h k
    omega
  obtain ⟨first, hfirst⟩ := hlargest
  refine ⟨h, first, fun k hk => ?_⟩
  have hmono : ∑ i ∈ Finset.range first, counts i ≤ ∑ i ∈ Finset.range k, counts i :=
    Finset.sum_le_sum_of_subset (Finset.range_mono hk)
  have hnext := hfirst (k + 1)
  rw [Finset.sum_range_succ] at hnext
  have hzero : counts k = 0 := by omega
  rw [hzero]
  exact ⟨rfl, rests_zero⟩

end Polling

namespace Session

/-- An engine runs with valid settings on any store, with any guard.  Tick follows upon tick, of
either role and with any answers, failures and panics; in the meantime nothing comes in and nothing
is to be ended, but the clock may be moved and records may be lost.  Then the counts come to at most
the retry limit and one for each record that was stored, and a loop comes to rest.

That is so for ticks that have several messages on their way at a time and get the replies in any
order, and for ticks that handle one record after the other.  Where leases have ends no move breaks
down, and no tick as long as the clock does not go where they would have none. -/
theorem loop_comes_to_rest (settings : Settings) (handle : Handle) (guard : Negotiation → Bool)
    (e : Engine) (he : Engine.ofSettings settings handle guard = .ok e) (world : Nat → World) :
    (∀ counts : Nat → Nat,
        (∀ k, Leads e World.Wanes ⟨world k, none⟩ (counts k) ⟨world (k + 1), none⟩) →
        Polling.ComesToRest ((settings.retry.limit + 1) * (world 0).ledger.size) counts)
      ∧ (∀ (s : Session) (move : Move), s.world.IsTimely e.handle →
          s.tried e move = some (s.step e move)
          ∧ ((∀ ms, move ≠ .call (.advance ms)) → (s.step e move).world.IsTimely e.handle))
      ∧ ∀ (role : Nat → Role) (send : Nat → Dispatch), (∀ k, (send k).Makes World.Wanes) →
          (∀ k f w, w.IsTimely e.handle → (send k f w).2.IsTimely e.handle) →
          (∀ k, (world k).IsTimely e.handle) →
          (∀ k, ((e.runRole (.strictly fun f => .lift (send k f)) (role k)).run (world k)).2.Wanes
            (world (k + 1))) →
          ∃ counts : Nat → Nat,
            (∀ k, ((e.runRole (.strictly fun f => .lift (send k f)) (role k)).run (world k)).1
              = some (counts k))
            ∧ Polling.ComesToRest ((settings.retry.limit + 1) * (world 0).ledger.size) counts := by
  obtain ⟨hfault, _, hmost, hretry, _⟩ := Engine.ofSettings_eq_ok he
  obtain ⟨_, hroom, hlimit⟩ := Settings.pos_of_fault? hfault
  have hsame : e.retry.limit = settings.retry.limit := by
    rw [hretry]
    rfl
  rw [← hmost] at hroom
  rw [← hsame] at hlimit ⊢
  have hall : ∀ counts : Nat → Nat,
      (∀ k, Leads e World.Wanes ⟨world k, none⟩ (counts k) ⟨world (k + 1), none⟩) →
      Polling.ComesToRest ((e.retry.limit + 1) * (world 0).ledger.size) counts := by
    intro counts hleads
    refine Polling.comesToRest_of_bounded fun k => ?_
    have hstart : Backs (world 0).ledger e ⟨world 0, none⟩ := backs_idle (Ledger.Within.refl _)
    obtain ⟨u, _, hsum⟩ := hstart.leads_each hlimit hleads k
    have hle := Ledger.remainder_le hlimit (world 0).ledger
    omega
  refine ⟨hall, fun s move hs => ⟨(tried_of_isTimely hs move).1, isTimely_step hs⟩, ?_⟩
  intro role send hsend hkeeps htimely hbetween
  have htick (k : Nat) := (Access.echoes_runRole (fun f => .lift (hkeeps k f)) (role k)).run
    (world k) (htimely k)
  refine ⟨fun k => (e.runRole (.oneByOne (send k)) (role k) (world k)).1, fun k => ?_,
    hall _ fun k => ?_⟩
  · rw [htick k]
  · have hafter := hbetween k
    rw [htick k] at hafter
    exact (leads_runRole (hsend k) hroom (role k) (world k)).trans (.between hafter)

/-- Settings that allow for two attempts. -/
def twice : Settings :=
  { participantId := "consumer", retry := { limit := 2, strategy := .none } }

/-- The engine that runs with them. -/
def tryingTwice : Engine where
  participantId := twice.participantId
  callbackAddress := twice.callbackAddress
  batchSize := 20
  maxConcurrent := 10
  retry := ⟨2, .immediate⟩
  handle := twice.handle
  guard _ := false

/-- The world at a minute of the day. -/
def atMinute (w : World) (k : Nat) : World :=
  { w with now := .ofMillis (60000 * (k % 1440 : Nat)) }

/-- The counter party's end: a panic in the first tick, then failures, and from the fifth tick on the
record is lost during the send. -/
def faltering (k : Nat) : Dispatch := fun f w =>
  if k = 0 then (.panicked, atMinute w k)
  else if k < 4 then (.failed ⟨.retryable, "unreachable"⟩, atMinute w k)
  else (.answered .null, w.withLedger (w.ledger.erase f.leased.id))

/-- The consumer's and the provider's ticks in turn. -/
def inTurn (k : Nat) : Role :=
  if k % 2 = 0 then .consumer else .provider

/-- The worlds before the ticks, which are a minute apart; the clock starts anew each day.  At first
there is a consumer's wish. -/
def pollings : Nat → World
  | 0 => (Call.initiate ⟨"provider", "http://provider", "dsp",
      ⟨"offer", "asset", "provider", {}⟩⟩).run tryingTwice { ledger := .empty, now := default }
  | k + 1 => atMinute (tryingTwice.runRole (.oneByOne (faltering k)) (inTurn k) (pollings k)).2 k

theorem faltering_makes (k : Nat) : (faltering k).Makes World.Wanes := by
  intro f w
  unfold faltering
  split
  · exact Ledger.Within.refl w.ledger
  · split
    · exact Ledger.Within.refl w.ledger
    · exact w.wanes_erase f.leased.id

/-- Whatever the minute, a lease that is taken then has an end. -/
theorem isTimely_atMinute {w : World} (hw : w.ledger.leasesEnd = true) (k : Nat) :
    (atMinute w k).IsTimely tryingTwice.handle := by
  have hday : ∀ minute < 1440,
      (tryingTwice.handle.leaseAt (.ofMillis (60000 * (minute : Nat)))).hasEnd = true := by
    decide +kernel
  exact ⟨hw, hday _ (Nat.mod_lt k (by decide))⟩

theorem faltering_keeps (k : Nat) (f : Flight) (w : World) (hw : w.IsTimely tryingTwice.handle) :
    (faltering k f w).2.IsTimely tryingTwice.handle := by
  unfold faltering
  split
  · exact isTimely_atMinute hw.stored k
  · split
    · exact isTimely_atMinute hw.stored k
    · exact ⟨Ledger.leasesEnd_erase hw.stored f.leased.id, hw.taken⟩

theorem echoes_pollings (k : Nat) :
    Echoes (World.IsTimely · tryingTwice.handle)
      (tryingTwice.runRole (.oneByOne (faltering k)) (inTurn k))
      (tryingTwice.runRole (.strictly fun f => .lift (faltering k f)) (inTurn k)) :=
  Access.echoes_runRole (fun f => .lift (faltering_keeps k f)) (inTurn k)

theorem isTimely_pollings (k : Nat) : (pollings k).IsTimely tryingTwice.handle := by
  induction k with
  | zero => decide +kernel
  | succ k ih => exact isTimely_atMinute ((echoes_pollings k).keeps _ ih).stored k

/-- The decision, the failure and the loss count, and that is as much as the bound allows. -/
theorem pollings_come_to_rest :
    Engine.ofSettings twice twice.handle (fun _ => false) = .ok tryingTwice
      ∧ (pollings 0).ledger.size = 1
      ∧ ∃ counts : Nat → Nat,
        (∀ k, ((tryingTwice.runRole (.strictly fun f => .lift (faltering k f)) (inTurn k)).run
          (pollings k)).1 = some (counts k))
        ∧ Polling.ComesToRest ((twice.retry.limit + 1) * (pollings 0).ledger.size) counts
        ∧ (List.range 6).map counts = [1, 0, 1, 0, 1, 0] := by
  have he : Engine.ofSettings twice twice.handle (fun _ => false) = .ok tryingTwice := rfl
  obtain ⟨_, _, hticks⟩ := loop_comes_to_rest twice twice.handle (fun _ => false) tryingTwice he
    pollings
  obtain ⟨counts, hcounts, hrest⟩ := hticks inTurn faltering faltering_makes faltering_keeps
    isTimely_pollings fun k => by
      rw [(echoes_pollings k).run _ (isTimely_pollings k)]
      exact Ledger.Within.refl _
  have hdirect : counts
      = fun k => (tryingTwice.runRole (.oneByOne (faltering k)) (inTurn k) (pollings k)).1 := by
    funext k
    have hk := hcounts k
    rw [(echoes_pollings k).run _ (isTimely_pollings k)] at hk
    exact (Option.some.inj hk).symm
  refine ⟨he, by decide +kernel, counts, hcounts, hrest, ?_⟩
  rw [hdirect]
  decide +kernel

end Session

end Parley
