/-
  Parley.Proofs.Parties.Completion
  ────────────────────────────────
  **EVERY WISH IS FULFILLED.**

  The progress of a meeting is the sum of the ranks of its wishes, at most
  twelve for each.  In a meeting in which nothing goes wrong and no tick is
  under way, a tick makes progress unless it finds nothing to do, and then it
  changes nothing (`Proceeds`).  While a wish is not fulfilled, some record of
  it is due and free, so a round of all ticks finds something to do: after
  twelve rounds for each wish all are fulfilled.
-/
import Parley.Proofs.Parties.Breakdowns
import Parley.Proofs.Parties.Smooth
import Mathlib.Algebra.Order.BigOperators.Group.List
import Mathlib.Algebra.Order.Ring.Nat

namespace Parley

open Parley.Batch

/-! ## §1. Calm meetings. -/

namespace Meeting

variable {parties : Party → Engine} {m m' : Meeting} {q : Party} {role : Role} {duty : Duty}
  {n : Negotiation} {id : String} {offer : Offer} {s : State}

/-- Only records of a party, and of some ids, are leased. -/
def LeasesOnly (m : Meeting) (q : Party) (ids : List String) : Prop :=
  (∀ id, (m.ledger q).IsLeased id → id ∈ ids) ∧ ∀ id, ¬ (m.ledger q.other).IsLeased id

/-- A meeting in which nothing went wrong and no tick is under way. -/
structure IsCalm (m : Meeting) (parties : Party → Engine) : Prop where
  smooth : m.IsSmooth parties
  free : ∀ q id, ¬ (m.ledger q).IsLeased id

theorem IsCalm.leasesOnly (h : m.IsCalm parties) (q : Party) : m.LeasesOnly q [] :=
  ⟨fun id hl => absurd hl (h.free q id), h.free q.other⟩

theorem LeasesOnly.free (h : m.LeasesOnly q []) (p : Party) (id : String) :
    ¬ (m.ledger p).IsLeased id := by
  intro hl
  rcases Party.eq_or_other q p with rfl | rfl
  · exact absurd (h.1 id hl) List.not_mem_nil
  · exact h.2 id hl

theorem LeasesOnly.lend (h : m.LeasesOnly q []) (ids : List String) (lease : Lease) :
    (m.lendEach q ids lease).LeasesOnly q ids := by
  constructor
  · intro id hl
    rw [lendEach, ledger_setWorld_self] at hl
    rcases Ledger.isLeased_leaseEach hl with hbefore | hin
    · exact absurd (h.1 id hbefore) List.not_mem_nil
    · exact hin
  · intro id hl
    rw [lendEach, ledger_setWorld_other] at hl
    exact h.2 id hl

namespace IsSmooth

/-- A meeting stays smooth while the records, the wishes and the replies stay as they are. -/
theorem congr (h : m.IsSmooth parties) (hm' : m'.Corresponds parties)
    (hcontent : ∀ q id, (m'.ledger q).content id = (m.ledger q).content id)
    (hwishes : m'.wishes = m.wishes) (hreplies : m'.replies = m.replies) :
    m'.IsSmooth parties where
  corresponds := hm'
  staged id r hr := by
    rw [hwishes] at hr
    obtain ⟨s, hat⟩ := h.staged id r hr
    refine ⟨s, hat.congr (hcontent .first id) (fun pid p hp _ => (hcontent .second pid).trans hp)
      fun pid hpid => ?_⟩
    rw [Ledger.nameFor, hcontent] at hpid
    exact hpid
  wished id c hc := by
    rw [hcontent] at hc
    rw [hwishes]
    exact h.wished id c hc
  distinct := by
    rw [hwishes]
    exact h.distinct
  answered := by
    rw [hreplies]
    exact h.answered

theorem lend (h : m.IsSmooth parties) (ids : List String) {lease : Lease}
    (hlease : lease.holder = (parties q).handle.holder) :
    (m.lendEach q ids lease).IsSmooth parties := by
  refine h.congr (h.corresponds.lend ids hlease)
    (fun p id => content_lendEach m q p ids lease id) ?_ ?_
  · rw [lendEach, wishes_setWorld]
  · rw [lendEach, replies_setWorld]

end IsSmooth

namespace IsCalm

/-- Nothing has gone wrong in a meeting that begins. -/
theorem of_isFresh (hm : m.IsFresh) (parties : Party → Engine) : m.IsCalm parties where
  smooth :=
    { corresponds := hm.corresponds parties
      staged := fun id r hr => by
        rw [hm.wishes] at hr
        exact absurd hr List.not_mem_nil
      wished := fun id c hc => by
        rw [hm.ledger .first] at hc
        cases hc
      distinct := by
        rw [hm.wishes]
        exact List.nodup_nil
      answered := fun reply hreply => by
        rw [hm.replies] at hreply
        exact absurd hreply List.not_mem_nil }
  free q id hl := by
    rw [hm.ledger q] at hl
    exact Ledger.not_isLeased_empty id hl

/-- Time goes on. -/
theorem advance (h : m.IsCalm parties) (turn : Nat → Nat) (ms : Int) :
    (m.act parties (loopback turn) (.advance ms)).IsCalm parties where
  smooth :=
    h.smooth.congr (h.smooth.corresponds.advance ms) (fun q id => by cases q <;> rfl) rfl rfl
  free q := by
    cases q with
    | first => exact h.free .first
    | second => exact h.free .second

/-- A wish to negotiate is in the first stage. -/
theorem initiate (h : m.IsCalm parties) (turn : Nat → Nat) (r : ContractRequest) :
    (m.act parties (loopback turn) (.initiate r)).IsCalm parties := by
  have hcorresponds : (m.act parties (loopback turn) (.initiate r)).Corresponds parties :=
    h.smooth.corresponds.initiate r
  have horderly := h.smooth.corresponds.orderly .first
  obtain ⟨hbears, _⟩ := (parties .first).initiate_effect horderly.held r
  rw [act_initiate horderly.held] at hcorresponds ⊢
  generalize ((parties .first).initiate .direct r (m.world .first)).2 = w at hbears hcorresponds ⊢
  generalize hid : (m.world .first).nextId = new at hbears hcorresponds ⊢
  have hnone : (m.ledger .first).content new = none := hid ▸ horderly.content_nextId
  -- Every wish has a record, so the new id is not the id of a wish.
  have hold (id : String) (r : ContractRequest) (hr : (id, r) ∈ m.wishes) : new ≠ id := by
    rintro rfl
    obtain ⟨s, hat⟩ := h.smooth.staged new r hr
    obtain ⟨c, hc⟩ := hat.content
    cases hnone.symm.trans hc
  have hcontent (id : String) : w.ledger.content id
      = if new = id then some ((r.opened new m.now).withLease none)
        else (m.ledger .first).content id := hbears.content id
  refine ⟨⟨hcorresponds, fun id r' hr' => ?_, fun id c hc => ?_, ?_, fun reply hreply => ?_⟩,
    fun q id hl => ?_⟩
  · rcases List.mem_append.mp hr' with hr' | hr'
    · obtain ⟨s, hat⟩ := h.smooth.staged id r' hr'
      exact ⟨s, hat.congr ((hcontent id).trans (if_neg (hold id r' hr'))) (fun pid p hp _ => hp)
        fun pid hpid => hpid⟩
    · cases List.mem_singleton.mp hr'
      refine ⟨.initial, .alone .initial .initial _ rfl ((hcontent new).trans (if_pos rfl)) ?_
        fun pid hpid => ?_⟩
      · exact ⟨rfl, rfl, rfl, fun o ho => List.mem_singleton.mp ho, rfl, rfl⟩
      · obtain ⟨c, hc⟩ := h.smooth.corresponds.known pid new hpid
        cases hnone.symm.trans hc
  · by_cases hnew : new = id
    · subst hnew
      exact ⟨r, List.mem_append_right _ (List.mem_singleton.mpr rfl)⟩
    · obtain ⟨r', hr'⟩ := h.smooth.wished id c (((hcontent id).trans (if_neg hnew)).symm.trans hc)
      exact ⟨r', List.mem_append_left _ hr'⟩
  · show ((m.wishes ++ [(new, r)]).map (·.1)).Nodup
    rw [List.map_append, List.nodup_append]
    refine ⟨h.smooth.distinct, List.nodup_singleton _, fun id hin other hother => ?_⟩
    obtain ⟨⟨id, r'⟩, hr', rfl⟩ := List.mem_map.mp hin
    cases List.mem_singleton.mp hother
    exact (hold id r' hr').symm
  · exact h.smooth.answered reply hreply
  · cases q with
    | first => exact h.free .first id (hbears.leases id hl)
    | second => exact h.free .second id hl

end IsCalm

/-! ## §2. Progress. -/

/-- How far a wish has come: the rank of the record that is ahead. -/
def rank (m : Meeting) (id : String) : Nat :=
  max ((m.ledger .first).rank id)
    (((m.ledger .first).nameFor id).elim 0 (m.ledger .second).rank)

/-- How far all wishes have come. -/
def progress (m : Meeting) : Nat :=
  (m.wishes.map fun wish => m.rank wish.1).sum

theorem IsAt.rank_eq (h : m.IsAt parties id offer s) : m.rank id = s.rank := by
  unfold rank
  cases h with
  | alone t c hs hc hcon hnew =>
    rw [Ledger.rank_of_content hc hcon.state, Ledger.nameFor_of_content hc, hcon.correlationId]
    exact rank_of_sides hs
  | joint t u c p a hs hc hcon hp hpro hparty hset hterms =>
    rw [Ledger.rank_of_content hc hcon.state, Ledger.nameFor_of_content hc, hcon.correlationId]
    show max t.rank ((m.ledger .second).rank p.id) = s.rank
    rw [Ledger.rank_of_content hp hpro.state]
    exact rank_of_sides hs

namespace IsSmooth

/-- Handling a due record is progress. -/
theorem progress_lt (h : m.IsSmooth parties) (hwilling : Party.AreWilling parties)
    (turn : Nat → Nat) (hduty : duty ∈ role.duties) (hdue : m.IsDue q role duty n) :
    m.progress
      < ((parties q).handleRecord (conduct parties (loopback turn) q) role duty n m).2.progress := by
  obtain ⟨id, r, hr, hat, hadvances⟩ := h.advances hwilling turn hduty hdue
  have hnext : duty.target.rank = duty.state.rank + 1 :=
    rank_target role duty hduty hat.sides_isSome
  have hup : m.rank id
      < ((parties q).handleRecord (conduct parties (loopback turn) q) role duty n m).2.rank id := by
    rw [hat.rank_eq, hadvances.stage.rank_eq]
    omega
  unfold progress
  rw [hadvances.wishes]
  -- One wish moved on, and no other went back.
  refine List.sum_lt_sum _ _ (fun wish hwish => ?_) ⟨(id, r), hr, hup⟩
  by_cases hother : wish.1 = id
  · rw [hother]
    exact Nat.le_of_lt hup
  · obtain ⟨s, hs⟩ := h.staged wish.1 wish.2 hwish
    rw [hs.rank_eq, (hadvances.others wish.1 wish.2.offer s hother hs).rank_eq]

/-- While not all progress is made, some wish is not in its last stage. -/
theorem exists_open (h : m.IsSmooth parties) (hopen : m.progress < 12 * m.wishes.length) :
    ∃ id r s, (id, r) ∈ m.wishes ∧ m.IsAt parties id r.offer s ∧ s ≠ .finalized := by
  by_contra hno
  refine absurd hopen (Nat.not_lt.mpr ?_)
  -- Otherwise every wish has the highest rank.
  have hall : ∀ rank ∈ m.wishes.map fun wish => m.rank wish.1, 12 ≤ rank := by
    intro rank hrank
    obtain ⟨⟨id, r⟩, hr, rfl⟩ := List.mem_map.mp hrank
    obtain ⟨s, hat⟩ := h.staged id r hr
    by_cases hlast : s = .finalized
    · subst hlast
      exact Nat.le_of_eq hat.rank_eq.symm
    · exact absurd ⟨id, r, s, hr, hat, hlast⟩ hno
  have hsum := List.card_nsmul_le_sum _ 12 hall
  rw [List.length_map, Nat.nsmul_eq_mul, Nat.mul_comm] at hsum
  exact hsum

/-- When all progress is made, every wish is in its last stage. -/
theorem finalized (h : m.IsSmooth parties) (hdone : 12 * m.wishes.length ≤ m.progress)
    {r : ContractRequest} (hr : (id, r) ∈ m.wishes) : m.IsAt parties id r.offer .finalized := by
  have hmost : ∀ wish ∈ m.wishes, m.rank wish.1 ≤ 12 := by
    intro wish hwish
    obtain ⟨s, hat⟩ := h.staged wish.1 wish.2 hwish
    rw [hat.rank_eq]
    exact (rank_of_stage hat.sides_isSome).1
  obtain ⟨s, hat⟩ := h.staged id r hr
  by_cases hlast : m.rank id = 12
  · rw [hat.rank_eq] at hlast
    rw [← (rank_of_stage hat.sides_isSome).2 hlast]
    exact hat
  -- One wish behind leaves the sum short, for none is ahead of the last stage.
  · have hless : m.progress < (m.wishes.map fun _ => 12).sum :=
      List.sum_lt_sum _ _ hmost ⟨(id, r), hr, Nat.lt_of_le_of_ne (hmost (id, r) hr) hlast⟩
    rw [List.map_const', List.sum_replicate, Nat.nsmul_eq_mul] at hless
    omega

end IsSmooth

/-- Progress is a matter of records and wishes. -/
theorem progress_congr (hcontent : ∀ q id, (m'.ledger q).content id = (m.ledger q).content id)
    (hwishes : m'.wishes = m.wishes) : m'.progress = m.progress := by
  have hrank (q : Party) : (m'.ledger q).rank = (m.ledger q).rank := by
    funext id
    rw [Ledger.rank, hcontent, Ledger.rank]
  have hname (id : String) : (m'.ledger .first).nameFor id = (m.ledger .first).nameFor id := by
    rw [Ledger.nameFor, hcontent, Ledger.nameFor]
  unfold progress rank
  simp only [hwishes, hrank, hname]

/-! ## §3. Ticks. -/

/-- Ticks in a calm meeting either made progress or found nothing to do, and then nothing
happened. -/
structure Proceeds (m m' : Meeting) (parties : Party → Engine) (idle : Meeting → Prop) :
    Prop where
  calm : m'.IsCalm parties
  wishes : m'.wishes = m.wishes
  work : m' = m ∧ idle m ∨ m.progress < m'.progress

theorem Proceeds.trans {m'' : Meeting} {idle idle' : Meeting → Prop}
    (h : m.Proceeds m' parties idle) (h' : m'.Proceeds m'' parties idle') :
    m.Proceeds m'' parties fun m => idle m ∧ idle' m where
  calm := h'.calm
  wishes := h'.wishes.trans h.wishes
  work := by
    rcases h.work with ⟨rfl, hidle⟩ | hless
    · rcases h'.work with ⟨rfl, hidle'⟩ | hless'
      · exact .inl ⟨rfl, hidle, hidle'⟩
      · exact .inr hless'
    · rcases h'.work with ⟨rfl, _⟩ | hless'
      · exact .inr hless
      · exact .inr (Nat.lt_trans hless hless')

/-- There is nothing to do for some duties of a role. -/
def IsIdle (m : Meeting) (parties : Party → Engine) (q : Party) (role : Role)
    (duties : List Duty) : Prop :=
  ∀ duty ∈ duties, m.batch (parties q) q role duty = []

/-- A batch of so many records, leased in a calm meeting, is handled in part: what is still leased
is still to be handled, and the rest was progress. -/
structure IsMidway (m start : Meeting) (parties : Party → Engine) (q : Party) (count : Nat)
    (ids : List String) : Prop where
  smooth : m.IsSmooth parties
  leases : m.LeasesOnly q ids
  wishes : m.wishes = start.wishes
  progress : start.progress + count ≤ m.progress + ids.length

/-- A batch that was just leased. -/
theorem IsCalm.lend (h : m.IsCalm parties) (ids : List String) {lease : Lease}
    (hlease : lease.holder = (parties q).handle.holder) :
    (m.lendEach q ids lease).IsMidway m parties q ids.length ids := by
  have hwishes : (m.lendEach q ids lease).wishes = m.wishes := by
    rw [lendEach, wishes_setWorld]
  have hprogress := progress_congr (fun p id => content_lendEach m q p ids lease id) hwishes
  refine ⟨h.smooth.lend ids hlease, (h.leasesOnly q).lend ids lease, hwishes, ?_⟩
  rw [hprogress]

theorem IsMidway.pick {start : Meeting} {count : Nat} {ids : List String}
    (h : m.IsMidway start parties q count ids) : m.pick.IsMidway start parties q count ids where
  smooth := h.smooth.congr h.smooth.corresponds.pick (fun _ _ => rfl) rfl rfl
  leases := h.leases
  wishes := h.wishes
  progress := h.progress

/-- One of the records of a batch is handled. -/
theorem IsMidway.handle {start : Meeting} {count : Nat} {ids rest : List String}
    (h : m.IsMidway start parties q count ids) (hids : ids.Perm (n.id :: rest))
    (hwilling : Party.AreWilling parties) (turn : Nat → Nat) (hduty : duty ∈ role.duties)
    (hdue : m.IsDue q role duty n) :
    (((parties q).handleRecord (conduct parties (loopback turn) q) role duty n m).2).IsMidway start
      parties q count rest := by
  have hless := h.smooth.progress_lt hwilling turn hduty hdue
  obtain ⟨id, r, _, _, hadvances⟩ := h.smooth.advances hwilling turn hduty hdue
  refine ⟨h.smooth.handle hwilling turn hduty hdue, ⟨fun other hl => ?_, fun other hl => ?_⟩,
    hadvances.wishes.trans h.wishes, ?_⟩
  · obtain ⟨hbefore, hne⟩ := hadvances.leases other hl
    rcases List.mem_cons.mp (hids.subset (h.leases.1 other hbefore)) with rfl | hrest
    · exact absurd rfl hne
    · exact hrest
  · exact h.leases.2 other (hadvances.peerLeases other hl)
  · have hprogress := h.progress
    rw [hids.length_eq, List.length_cons] at hprogress
    omega

namespace IsCalm

/-- Every record of a batch that is handled is progress. -/
theorem handleBatch (h : m.IsCalm parties) (hwilling : Party.AreWilling parties)
    (turn : Nat → Nat) (most : Nat) (hduty : duty ∈ role.duties) {batch : List Negotiation}
    (hnodup : (batch.map (·.id)).Nodup)
    (hdue : ∀ n ∈ batch, m.IsDue q role duty n) {lease : Lease}
    (hlease : lease.holder = (parties q).handle.holder)
    (hm' : m' = (inTurns turn most batch.length
      (batch.map ((parties q).handleRecord (conduct parties (loopback turn) q) role duty))
      (m.lendEach q (batch.map (·.id)) lease)).2) :
    m'.IsCalm parties ∧ m'.wishes = m.wishes ∧ m.progress + batch.length ≤ m'.progress := by
  have hlent := h.lend (batch.map (·.id)) hlease
  rw [List.length_map] at hlent
  have hdone : m'.IsMidway m parties q batch.length [] := by
    rw [hm']
    exact inTurns_induction (motive := fun ids now => now.IsMidway m parties q batch.length ids)
      (fun ids now h => h.smooth.corresponds.orderly) (fun ids now h => h.pick)
      (fun n ids rest now hids h hnow => h.handle hids hwilling turn hduty hnow) turn most hnodup
      (fun n hn => (hdue n hn).lend) hlent
  exact ⟨⟨hdone.smooth, hdone.leases.free⟩, hdone.wishes, hdone.progress⟩

/-- A duty is looked after. -/
theorem lookAfter (h : m.IsCalm parties) (hwilling : Party.AreWilling parties)
    (turn : Nat → Nat) (hduty : duty ∈ role.duties) :
    m.Proceeds ((parties q).lookAfter (conduct parties (loopback turn) q) role duty m).2 parties
      fun m => m.batch (parties q) q role duty = [] := by
  rw [lookAfter_eq (h.smooth.corresponds.orderly q).isKnown]
  by_cases hempty : m.batch (parties q) q role duty = []
  · have hnothing : m.lendEach q [] ((parties q).handle.leaseAt m.now) = m := by
      rw [lendEach, Ledger.leaseEach_nil]
      exact setWorld_world m q
    rw [hempty]
    show m.Proceeds (m.lendEach q [] ((parties q).handle.leaseAt m.now)) parties _
    rw [hnothing]
    exact ⟨h, rfl, .inl ⟨rfl, hempty⟩⟩
  · have hheld : ((parties q).handle.leaseAt m.now).holder = (parties q).handle.holder := rfl
    rw [gather_conduct, List.length_map]
    obtain ⟨hcalm, hwishes, hprogress⟩ := h.handleBatch hwilling turn (parties q).maxConcurrent hduty
      (Ledger.nodup_dutyBatch _ _ _ _ _ _) (fun n hn => mem_batch hn) hheld rfl
    have hpos := List.length_pos_iff.mpr hempty
    refine ⟨hcalm, hwishes, .inr (Nat.lt_of_lt_of_le ?_ hprogress)⟩
    exact Nat.lt_add_of_pos_right hpos

/-- Duties are looked after in order. -/
theorem lookAfterAll (h : m.IsCalm parties) (hwilling : Party.AreWilling parties)
    (turn : Nat → Nat) {duties : List Duty} (hduties : ∀ duty ∈ duties, duty ∈ role.duties) :
    m.Proceeds ((parties q).lookAfterAll (conduct parties (loopback turn) q) role duties m).2 parties
      fun m => m.IsIdle parties q role duties := by
  induction duties generalizing m with
  | nil => exact ⟨h, rfl, .inl ⟨rfl, fun duty hduty => absurd hduty List.not_mem_nil⟩⟩
  | cons duty rest ih =>
    have hfirst := h.lookAfter (q := q) hwilling turn (hduties duty List.mem_cons_self)
    have hothers := ih hfirst.calm fun d hd => hduties d (List.mem_cons_of_mem duty hd)
    rw [lookAfterAll_cons]
    obtain ⟨hcalm, hwishes, hwork⟩ := hfirst.trans hothers
    refine ⟨hcalm, hwishes, hwork.imp_left fun ⟨hsame, hempty, hidle⟩ => ⟨hsame, ?_⟩⟩
    exact List.forall_mem_cons.mpr ⟨hempty, hidle⟩

/-- A tick. -/
theorem runRole (h : m.IsCalm parties) (hwilling : Party.AreWilling parties)
    (turn : Nat → Nat) (q : Party) (role : Role) :
    m.Proceeds ((parties q).runRole (conduct parties (loopback turn) q) role m).2 parties
      fun m => m.IsIdle parties q role role.duties :=
  h.lookAfterAll hwilling turn fun _ hduty => hduty

/-- A tick of either role. -/
theorem runOnce (h : m.IsCalm parties) (hwilling : Party.AreWilling parties)
    (turn : Nat → Nat) (q : Party) :
    m.Proceeds ((parties q).runOnce (conduct parties (loopback turn) q) m).2 parties
      fun m => ∀ role, m.IsIdle parties q role role.duties := by
  rw [runOnce_eq]
  have hconsumer := h.runRole hwilling turn q .consumer
  have hprovider := hconsumer.calm.runRole hwilling turn q .provider
  obtain ⟨hcalm, hwishes, hwork⟩ := hconsumer.trans hprovider
  refine ⟨hcalm, hwishes, hwork.imp_left fun ⟨hsame, hidle, hidle'⟩ => ⟨hsame, fun role => ?_⟩⟩
  cases role with
  | consumer => exact hidle
  | provider => exact hidle'

/-- A round. -/
theorem round (h : m.IsCalm parties) (hwilling : Party.AreWilling parties) (turn : Nat → Nat) :
    m.Proceeds (m.round parties (loopback turn)) parties
      fun m => ∀ q role, m.IsIdle parties q role role.duties := by
  unfold Meeting.round
  have hfirst := h.runOnce hwilling turn .first
  obtain ⟨hcalm, hwishes, hwork⟩ := hfirst.trans (hfirst.calm.runOnce hwilling turn .second)
  refine ⟨hcalm, hwishes, hwork.imp_left fun ⟨hsame, hidle, hidle'⟩ => ⟨hsame, fun q => ?_⟩⟩
  cases q with
  | first => exact hidle
  | second => exact hidle'

/-! ## §4. Rounds. -/

/-- A record that calls for a duty is not leased, so there is something to do. -/
theorem batch_ne_nil (h : m.IsCalm parties) (hwilling : Party.AreWilling parties)
    (hn : (m.ledger q).content id = some n) (hstate : n.state = duty.state.code)
    (hpending : n.pending = false) : m.batch (parties q) q q.role duty ≠ [] := by
  have hrole := h.smooth.corresponds.role q id n hn
  obtain ⟨stored, hstored, rfl⟩ := Ledger.find?_of_content hn
  have hlease : stored.lease = none := by
    rw [← Option.not_isSome_iff_eq_none]
    exact fun hleased => h.free q id ⟨stored, hstored, hleased⟩
  refine Ledger.dutyBatch_ne_nil (hwilling.batchSize q) (Ledger.mem_of_find? hstored) ?_ ?_
  · unfold Ledger.isFree
    rw [hlease]
  · show (decide (stored.state = duty.state.code) && !stored.pending
      && decide (stored.role = q.role)) = true
    have hcode : stored.state = duty.state.code := hstate
    have hnot : stored.pending = false := hpending
    have hparty : stored.role = q.role := hrole
    rw [hcode, hnot, hparty]
    simp

/-- While not all progress is made, there is something to do. -/
theorem not_idle (h : m.IsCalm parties) (hwilling : Party.AreWilling parties)
    (hopen : m.progress < 12 * m.wishes.length) :
    ¬ ∀ q role, m.IsIdle parties q role role.duties := by
  intro hidle
  obtain ⟨id, r, s, _, hat, hlast⟩ := h.smooth.exists_open hopen
  -- It is some party's turn, and its record is in the state of a duty.
  have hbusy : ∃ (q : Party) (duty : Duty) (id : String) (n : Negotiation),
      duty ∈ q.role.duties ∧ (m.ledger q).content id = some n ∧ n.state = duty.state.code
        ∧ n.pending = false := by
    cases hat with
    | alone t c hs hc hcon hnew =>
      obtain ⟨role, duty, hduty, rfl, hside⟩ := due_of_stage hs hlast
      cases role with
      | consumer =>
        cases hside
        exact ⟨.first, duty, id, c, hduty, hc, hcon.state, hcon.pending⟩
      | provider => cases hside
    | joint t u c p a hs hc hcon hp hpro hparty hset hterms =>
      obtain ⟨role, duty, hduty, rfl, hside⟩ := due_of_stage hs hlast
      cases role with
      | consumer =>
        cases hside
        exact ⟨.first, duty, id, c, hduty, hc, hcon.state, hcon.pending⟩
      | provider =>
        cases hside
        exact ⟨.second, duty, p.id, p, hduty, hp, hpro.state, hpro.pending⟩
  obtain ⟨q, duty, id, n, hduty, hn, hstate, hpending⟩ := hbusy
  exact h.batch_ne_nil hwilling hn hstate hpending (hidle q q.role duty hduty)

end IsCalm

/-- Every round makes progress until all progress is made. -/
theorem IsCalm.rounds (h : m.IsCalm parties) (hwilling : Party.AreWilling parties)
    (turn : Nat → Nat) (pauses : List Int) :
    (m.rounds parties (loopback turn) pauses).IsCalm parties
      ∧ (m.rounds parties (loopback turn) pauses).wishes = m.wishes
      ∧ min (m.progress + pauses.length) (12 * m.wishes.length)
        ≤ (m.rounds parties (loopback turn) pauses).progress := by
  induction pauses generalizing m with
  | nil => exact ⟨h, rfl, Nat.min_le_left _ _⟩
  | cons ms rest ih =>
    have hlater := h.advance turn ms
    have hsame : (m.act parties (loopback turn) (.advance ms)).progress = m.progress :=
      progress_congr (fun q id => by cases q <;> rfl) rfl
    have hwish : (m.act parties (loopback turn) (.advance ms)).wishes = m.wishes := rfl
    generalize hlaterEq : m.act parties (loopback turn) (.advance ms) = later at hlater hsame hwish
    obtain ⟨hcalm, hwishes, hwork⟩ := hlater.round hwilling turn
    obtain ⟨hcalm', hwishes', hprogress⟩ := ih hcalm
    rw [rounds_cons, hlaterEq]
    refine ⟨hcalm', hwishes'.trans (hwishes.trans hwish), ?_⟩
    rw [hwishes, hwish] at hprogress
    rw [List.length_cons, ← hsame]
    -- A round that changed nothing found nothing to do, so all progress was made before.
    rcases hwork with ⟨hnothing, hidle⟩ | hmore
    · have hdone : 12 * m.wishes.length ≤ later.progress := by
        rw [← hwish]
        exact Nat.not_lt.mp fun hopen => hlater.not_idle hwilling hopen hidle
      rw [hnothing] at hprogress ⊢
      omega
    · omega

/-! ## §5. Faultless meetings and fulfilled wishes. -/

/-- No send failed, and no negotiation is about to end without an agreement, or has ended so. -/
structure IsFaultless (m : Meeting) : Prop where
  replies : ∀ reply ∈ m.replies, ∃ response, reply = .answered response
  states : ∀ q id n, (m.ledger q).content id = some n →
    n.state ≠ State.terminating.code ∧ n.state ≠ State.terminated.code

theorem IsCalm.isFaultless (h : m.IsCalm parties) : m.IsFaultless where
  replies := h.smooth.answered
  states q id n hn := by
    have hid := Ledger.id_of_content hn
    subst hid
    obtain ⟨wish, r, hconcerns, hr⟩ := h.smooth.wish hn
    obtain ⟨s, hat⟩ := h.smooth.staged wish r hr
    obtain ⟨t, hside, hstate⟩ := h.smooth.corresponds.side_eq hn hconcerns hat
    obtain ⟨hterminating, hterminated⟩ := side_ne_terminated hside
    rw [hstate]
    exact ⟨fun hcode => hterminating (State.code_injective hcode),
      fun hcode => hterminated (State.code_injective hcode)⟩

/-- A wish is fulfilled: both parties have finalized records, which name each other and hold the
same agreement, on the terms that were asked for. -/
def IsFulfilled (m : Meeting) (parties : Party → Engine) (id : String) (offer : Offer) : Prop :=
  ∃ (c p : Negotiation) (a : Agreement), (m.ledger .first).content id = some c
    ∧ (m.ledger .second).content p.id = some p
    ∧ c.state = State.finalized.code ∧ p.state = State.finalized.code
    ∧ c.correlationId = some p.id ∧ p.correlationId = some id
    ∧ c.agreement = some a ∧ p.agreement = some a ∧ a.IsFor parties offer

theorem IsAt.isFulfilled (h : m.IsAt parties id offer .finalized) :
    m.IsFulfilled parties id offer := by
  cases h with
  | alone t c hs hc hcon hnew => cases hs
  | joint t u c p a hs hc hcon hp hpro hparty hset hterms =>
    cases hs
    have hsome : a.isSome = true := hset.trans (by decide)
    obtain ⟨b, rfl⟩ := Option.isSome_iff_exists.mp hsome
    exact ⟨c, p, b, hc, hp, hcon.state, hpro.state, hcon.correlationId, hpro.correlationId,
      hcon.agreement, hpro.agreement, hterms b rfl⟩

/-- Some requests are fulfilled, each by its own two records, and there are no other records. -/
structure IsCompleted (m : Meeting) (parties : Party → Engine)
    (requests : List ContractRequest) : Prop where
  requests : m.wishes.map (·.2) = requests
  distinct : (m.wishes.map (·.1)).Nodup
  fulfilled : ∀ wish ∈ m.wishes, m.IsFulfilled parties wish.1 wish.2.offer
  consumer : ∀ id c, (m.ledger .first).content id = some c → ∃ r, (id, r) ∈ m.wishes
  provider : ∀ pid p, (m.ledger .second).content pid = some p → ∃ id r c, (id, r) ∈ m.wishes
    ∧ p.correlationId = some id ∧ (m.ledger .first).content id = some c
    ∧ c.correlationId = some pid

theorem IsCalm.isCompleted (h : m.IsCalm parties) (hdone : 12 * m.wishes.length ≤ m.progress) :
    m.IsCompleted parties (m.wishes.map (·.2)) where
  requests := rfl
  distinct := h.smooth.distinct
  fulfilled wish hwish := (h.smooth.finalized hdone hwish).isFulfilled
  consumer := h.smooth.wished
  provider pid k hk := by
    have hid := Ledger.id_of_content hk
    subst hid
    obtain ⟨id, r, hname, hr⟩ := h.smooth.wish hk
    obtain ⟨c, p, a, hc, hp, _, _, hcname, hpname, _⟩ := (h.smooth.finalized hdone hr).isFulfilled
    cases h.smooth.corresponds.provider_eq hk hname hp hpname
    exact ⟨id, r, c, hr, hname, hc, hcname⟩

/-- The requests that are made in a run. -/
def requests (acts : List Action) : List ContractRequest :=
  acts.filterMap fun
    | .initiate r => some r
    | _ => none

/-- A run leaves a meeting calm, and makes the wishes that were asked for. -/
theorem IsCalm.run (h : m.IsCalm parties) (hwilling : Party.AreWilling parties)
    (turn : Nat → Nat) (acts : List Action) :
    (m.run parties (loopback turn) acts).IsCalm parties
      ∧ (m.run parties (loopback turn) acts).wishes.map (·.2) = m.wishes.map (·.2) ++ requests acts := by
  induction acts generalizing m with
  | nil => exact ⟨h, (List.append_nil _).symm⟩
  | cons action rest ih =>
    cases action with
    | initiate r =>
      obtain ⟨hcalm, hwishes⟩ := ih (h.initiate turn r)
      refine ⟨hcalm, hwishes.trans ?_⟩
      rw [act_initiate (h.smooth.corresponds.orderly .first).held, List.map_append,
        List.append_assoc]
      rfl
    | tick q role =>
      have htick := h.runRole hwilling turn q role
      obtain ⟨hcalm, hwishes⟩ := ih htick.calm
      refine ⟨hcalm, hwishes.trans ?_⟩
      rw [htick.wishes]
      rfl
    | advance ms =>
      obtain ⟨hcalm, hwishes⟩ := ih (h.advance turn ms)
      exact ⟨hcalm, hwishes⟩

end Meeting

/-- Engines with valid settings and no guard are willing. -/
theorem Party.AreWilling.of_settings {parties : Party → Engine} {settings : Party → Settings}
    {handles : Party → Handle}
    (h : ∀ q, Engine.ofSettings (settings q) (handles q) (fun _ => false) = .ok (parties q)) :
    Party.AreWilling parties := by
  have hone (q : Party) : 0 < (parties q).batchSize ∧ ∀ n, (parties q).guard n = false := by
    obtain ⟨hfault, hbatch, _, _, hguard⟩ := Engine.ofSettings_eq_ok (h q)
    refine ⟨?_, fun n => ?_⟩
    · rw [hbatch]
      exact (Settings.pos_of_fault? hfault).1
    · rw [hguard]
  exact ⟨fun q => (hone q).1, fun q => (hone q).2⟩

namespace Meeting

/-! ## §6. Completion. -/

/-- Two engines with valid settings and no guard start with no records, and no message and no
acknowledgement is lost.  While the leases that are taken have ends nothing breaks down.  After any
actions no send has failed, and no negotiation is about to end without an agreement or has ended so;
and twelve rounds for each request fulfil all requests. -/
theorem requests_fulfilled (settings : Party → Settings) (handles : Party → Handle)
    (parties : Party → Engine)
    (hparties : ∀ q, Engine.ofSettings (settings q) (handles q) (fun _ => false)
      = .ok (parties q))
    (turn : Nat → Nat) (m : Meeting) (hm : m.IsFresh) (acts : List Action)
    (hends : ∀ now ∈ times m.now acts, TakesEnds parties now) :
    ∃ m', m.tryRun parties (loopback turn) acts = some m' ∧ m'.IsFaultless
      ∧ ∀ pauses : List Int,
        (∀ now ∈ times m'.now (pauses.map .advance), TakesEnds parties now) →
        12 * (requests acts).length ≤ pauses.length →
        ∃ m'', m'.tryRounds parties (loopback turn) pauses = some m''
          ∧ m''.IsCompleted parties (requests acts) := by
  have hwilling := Party.AreWilling.of_settings hparties
  have hfirst := hm.isTimely (hends m.now (mem_times m.now acts))
  obtain ⟨hmade, htimely⟩ := tryRun_of_times hfirst (loopback turn) hends
  obtain ⟨hcalm, hwishes⟩ := (IsCalm.of_isFresh hm parties).run hwilling turn acts
  rw [hm.wishes, List.map_nil, List.nil_append] at hwishes
  generalize m.run parties (loopback turn) acts = later at hmade htimely hcalm hwishes
  refine ⟨later, hmade, hcalm.isFaultless, fun pauses hends hpauses => ?_⟩
  rw [htimely.clock] at hends
  obtain ⟨hcalm', hwishes', hprogress⟩ := hcalm.rounds hwilling turn pauses
  refine ⟨_, tryRounds_of_times htimely (loopback turn) hends, ?_⟩
  have hcount : later.wishes.length = (requests acts).length := by
    rw [← hwishes, List.length_map]
  rw [← hwishes, ← hwishes']
  refine hcalm'.isCompleted ?_
  rw [hwishes']
  omega

/-- What the parties' settings say about leases can keep them from having ends. -/
example :
    let endless : Settings := { lease := { duration := 18446744073709551615 } }
    let parties (_ : Party) : Engine :=
      { participantId := "party", callbackAddress := "", batchSize := 1, maxConcurrent := 1,
        retry := endless.retryPolicy, handle := endless.handle, guard _ := false }
    let wish : ContractRequest :=
      ⟨"provider", "http://provider", "dsp", ⟨"offer", "water", "provider", {}⟩⟩
    endless.fault? = none
      ∧ (blank.tryRun parties (loopback id) [.initiate wish, .tick .first .consumer]).isNone := by
  decide +kernel

/-- The settings of a consumer and a provider that handle one record at a time. -/
def narrow : Party → Settings
  | .first => { participantId := "consumer", polling := { batchSize := 1 } }
  | .second => { participantId := "provider", polling := { batchSize := 1 } }

/-- The engines that run with such settings. -/
def oneAtATime (q : Party) : Engine where
  participantId := (narrow q).participantId
  callbackAddress := (narrow q).callbackAddress
  batchSize := 1
  maxConcurrent := 10
  retry := (narrow q).retryPolicy
  handle := (narrow q).handle
  guard _ := false

/-- Two wishes, with other actions in between. -/
def twoWishes : List Action :=
  let wish (asset : String) : ContractRequest :=
    ⟨"provider", "http://provider", "dsp", ⟨"offer", asset, "provider", {}⟩⟩
  [.initiate (wish "water"), .tick .second .provider, .tick .first .consumer, .advance 500,
    .initiate (wish "wine")]

/-- Both are fulfilled after twenty-four rounds, a second apart, whichever record is next. -/
theorem twoWishes_fulfilled :
    ∃ m, blank.tryRun oneAtATime (loopback id) twoWishes = some m
      ∧ ∃ m', m.tryRounds oneAtATime (loopback id) (List.replicate 24 1000) = some m'
        ∧ m'.IsCompleted oneAtATime (requests twoWishes) := by
  have hparties : ∀ q, Engine.ofSettings (narrow q) (narrow q).handle (fun _ => false)
      = .ok (oneAtATime q) := by
    intro q
    cases q <;> rfl
  have hends : ∀ now ∈ times blank.now twoWishes, TakesEnds oneAtATime now := by
    decide +kernel
  obtain ⟨m, hmade, _, hrounds⟩ := requests_fulfilled narrow (fun q => (narrow q).handle) oneAtATime
    hparties id blank isFresh_blank twoWishes hends
  refine ⟨m, hmade, hrounds (List.replicate 24 1000) ?_ (by decide)⟩
  -- The clock shows what it showed at first and half a second.
  obtain ⟨hdirect, htimely⟩ := tryRun_of_times
    (isFresh_blank.isTimely (hends _ (mem_times _ _))) (loopback id) hends
  have hsame := Option.some.inj (hmade.symm.trans hdirect)
  rw [hsame, htimely.clock]
  decide +kernel

end Meeting

end Parley
