/-
  Parley.Proofs.Engine.Remainder
  ────────────────────────────────
  **WHAT IS LEFT TO DO.**

  The handling of a record can count only so many times before there is nothing
  more to do for its role (`Negotiation.remainder`):

      a decision is due        1, and then as often as its message may be tried
      a message is due         as often as it may still be tried, but once at least
      nothing is due           0

  What is left of a ledger is the sum over its records (`Ledger.remainder`).
  Leasing, releasing and parking leave it as it is, and every handling that counts
  takes at least one off (`remainder_concludes`, `remainder_turn`).
-/
import Parley.Proofs.Engine.Strokes
import Mathlib.Algebra.Order.BigOperators.Group.List
import Mathlib.Algebra.Order.Ring.Nat

namespace Parley

/-! ## §1. Duties. -/

/-- How many times the handling of a record can count, at most, when a duty is due and the record
has re-entered its state so often. -/
def Duty.remainder (limit count : Nat) : Duty → Nat
  | .decide _ _ => limit + 1
  | .send _ => max 1 (limit - count)

theorem Duty.remainder_pos (limit count : Nat) (duty : Duty) : 0 < duty.remainder limit count := by
  cases duty with
  | decide source target => exact Nat.succ_pos limit
  | send message => exact Nat.lt_of_lt_of_le Nat.one_pos (Nat.le_max_left 1 _)

theorem Duty.remainder_le {limit : Nat} (hlimit : 0 < limit) (count : Nat) (duty : Duty) :
    duty.remainder limit count ≤ limit + 1 := by
  cases duty with
  | decide source target => exact Nat.le_refl _
  | send message =>
    show max 1 (limit - count) ≤ limit + 1
    omega

namespace Role

/-- The duty of a role in a state. -/
def duty? (role : Role) (s : State) : Option Duty :=
  role.duties.find? fun duty => duty.state = s

variable {role : Role} {message : Sending}

theorem duty?_state {duty : Duty} (hduty : duty ∈ role.duties) :
    role.duty? duty.state = some duty := by
  have h : ∀ duty ∈ role.duties, role.duty? duty.state = some duty := by
    cases role <;> decide
  exact h duty hduty

/-- A decision leads to where its message is due. -/
theorem duty?_of_decide {source target : State} (hduty : .decide source target ∈ role.duties) :
    ∃ message, role.duty? target = some (.send message) := by
  have hall : (role.duties.all fun
      | .decide _ target => (role.duty? target).any fun | .send _ => true | .decide _ _ => false
      | .send _ => true) = true := by cases role <;> rfl
  have hsend := List.all_eq_true.mp hall _ hduty
  simp only [Option.any_eq_true] at hsend
  obtain ⟨duty, hfound, hkind⟩ := hsend
  cases duty with
  | decide source' target' => cases hkind
  | send message => exact ⟨message, hfound⟩

/-- Where a message leads to its sender has nothing more to do. -/
theorem duty?_target (hduty : .send message ∈ role.duties) : role.duty? message.target = none := by
  have h : .send message ∈ role.duties → role.duty? message.target = none := by
    cases role <;> cases message <;> decide
  exact h hduty

theorem duty?_terminated (role : Role) : role.duty? .terminated = none := by
  cases role <;> rfl

end Role

/-! ## §2. A record. -/

namespace Negotiation

/-- How many times the handling of a record can count, at most.  A record in a state that the
protocol does not know goes nowhere, but one that is lost during a send counts once. -/
def remainder (limit : Nat) (n : Negotiation) : Nat :=
  match State.ofCode? n.state with
  | some s => ((n.role.duty? s).map (Duty.remainder limit n.stateCount)).getD 0
  | none => 1

/-- If a record is in a state that the protocol knows, it is the state of a duty, and the record is
the role's. -/
def Suits (n : Negotiation) (role : Role) (duty : Duty) : Prop :=
  ∀ s : State, n.state = s.code → s = duty.state ∧ n.role = role

variable {n m : Negotiation} {role : Role} {duty : Duty} {kind s : State} {limit : Nat}

theorem remainder_of_code (hs : n.state = s.code) :
    n.remainder limit = ((n.role.duty? s).map (Duty.remainder limit n.stateCount)).getD 0 := by
  unfold remainder
  rw [hs, State.ofCode?_code]

theorem remainder_le (hlimit : 0 < limit) (n : Negotiation) : n.remainder limit ≤ limit + 1 := by
  unfold remainder
  cases State.ofCode? n.state with
  | none => exact Nat.succ_le_succ (Nat.zero_le limit)
  | some s =>
    simp only
    cases n.role.duty? s with
    | none => exact Nat.zero_le _
    | some duty => exact duty.remainder_le hlimit n.stateCount

/-- What is left of a record that suits a duty. -/
theorem Suits.remainder (limit : Nat) (h : n.Suits role duty) (hduty : duty ∈ role.duties)
    (hs : n.state = s.code) : n.remainder limit = duty.remainder limit n.stateCount := by
  obtain ⟨rfl, rfl⟩ := h s hs
  rw [remainder_of_code hs, Role.duty?_state hduty]
  rfl

theorem Suits.remainder_pos (limit : Nat) (h : n.Suits role duty) (hduty : duty ∈ role.duties) :
    0 < n.remainder limit := by
  cases hs : State.ofCode? n.state with
  | none =>
    have hone : n.remainder limit = 1 := by
      unfold Negotiation.remainder
      rw [hs]
    omega
  | some s =>
    rw [h.remainder limit hduty (State.code_of_ofCode? hs).symm]
    exact duty.remainder_pos limit n.stateCount

/-- What is left of a record that has entered a state where nothing is due. -/
theorem Enters.remainder_eq_zero (limit : Nat) (h : n.Enters m kind)
    (hkind : n.role.duty? kind = none) :
    m.remainder limit = 0 := by
  rw [remainder_of_code h.state, h.role, hkind]
  rfl

/-- What is left of a record that has entered a state where a message is due. -/
theorem Enters.remainder_send (limit : Nat) (h : n.Enters m kind) {message : Sending}
    (hkind : n.role.duty? kind = some (.send message)) :
    m.remainder limit = max 1 (limit - m.stateCount) := by
  rw [remainder_of_code h.state, h.role, hkind]
  rfl

/-- A duty that is concluded without a message takes off one at least. -/
theorem remainder_concludes {e : Engine} {now : Instant} (hlimit : 0 < limit)
    (hduty : duty ∈ role.duties) (hsuits : n.Suits role duty) (hentered : n.Enters m kind)
    (h : Engine.Concludes e n now kind duty) : m.remainder limit + 1 ≤ n.remainder limit := by
  obtain ⟨s, hs, _⟩ := checkEdge_eq_ok_iff.mp hentered.edge
  have hrole : n.role = role := (hsuits s hs).2
  have hbefore := hsuits.remainder limit hduty hs
  cases h with
  | decided source =>
    -- The message may be tried as often as the limit says, and the decision counts once more.
    obtain ⟨message, hmessage⟩ := Role.duty?_of_decide hduty
    rw [← hrole] at hmessage
    have hafter := hentered.remainder_send limit hmessage
    have hdecision : n.remainder limit = limit + 1 := hbefore
    omega
  | offerless message reason hkind hreason =>
    subst hkind
    have hafter := hentered.remainder_eq_zero limit (Role.duty?_terminated n.role)
    have hpos := hsuits.remainder_pos limit hduty
    omega

/-- A reply that makes something of the record takes off one at least. -/
theorem remainder_turn {e : Engine} {f : Flight} {now : Instant} {reply : Reply}
    (hduty : .send f.sending ∈ role.duties) (hsuits : n.Suits role (.send f.sending))
    (h : Engine.Turn e f n now reply kind m) :
    m.remainder e.retry.limit + 1 ≤ n.remainder e.retry.limit := by
  have hentered := Engine.Turn.enters h
  obtain ⟨s, hs, _⟩ := checkEdge_eq_ok_iff.mp hentered.edge
  obtain ⟨rfl, rfl⟩ := hsuits s hs
  have hpos := hsuits.remainder_pos e.retry.limit hduty
  cases h with
  | onward response hedge hset =>
    have hafter := hentered.remainder_eq_zero e.retry.limit (Role.duty?_target hduty)
    omega
  | ended failure detail hedge hlast =>
    have hafter := hentered.remainder_eq_zero e.retry.limit
      (Role.duty?_terminated n.role)
    omega
  | again failure hedge hkind hmore =>
    have hdue : n.role.duty? f.sending.source = some (.send f.sending) := Role.duty?_state hduty
    have hafter := hentered.remainder_send e.retry.limit hdue
    have hbefore : n.remainder e.retry.limit = max 1 (e.retry.limit - n.stateCount) :=
      hsuits.remainder e.retry.limit hduty hs
    have hcount : (n.enter f.sending.source.code now).stateCount = n.stateCount + 1 :=
      hentered.count.trans (if_pos hs)
    -- The attempt was not the last one.
    have hroom : ¬ e.retry.limit ≤ n.stateCount + 1 := of_decide_eq_false hmore
    omega

end Negotiation

/-! ## §3. A ledger. -/

namespace Ledger

/-- How many times the handling of records can count, at most. -/
def remainder (limit : Nat) (l : Ledger) : Nat :=
  (l.entries.map (·.remainder limit)).sum

theorem remainder_le {limit : Nat} (hlimit : 0 < limit) (l : Ledger) :
    l.remainder limit ≤ (limit + 1) * l.size := by
  have hall : ∀ k ∈ l.entries.map (·.remainder limit), k ≤ limit + 1 := by
    intro k hk
    obtain ⟨n, _, rfl⟩ := List.mem_map.mp hk
    exact n.remainder_le hlimit
  have hsum := List.sum_le_card_nsmul _ _ hall
  rw [List.length_map, Nat.nsmul_eq_mul, Nat.mul_comm] at hsum
  exact hsum

/-- A change that leaves the same of every record leaves the same of the ledger. -/
theorem remainder_map {limit : Nat} (l : Ledger) {f : Negotiation → Negotiation}
    (keepsId : ∀ n, (f n).id = n.id) (h : ∀ n, (f n).remainder limit = n.remainder limit) :
    (l.map f keepsId).remainder limit = l.remainder limit := by
  show ((l.entries.map f).map (·.remainder limit)).sum = _
  rw [List.map_map]
  exact congrArg List.sum (List.map_congr_left fun n _ => h n)

theorem remainder_setLease (limit : Nat) (l : Ledger) (id : String) (lease : Option Lease) :
    (l.setLease id lease).remainder limit = l.remainder limit :=
  l.remainder_map _ fun n => by split <;> rfl

theorem remainder_leaseEach (limit : Nat) (l : Ledger) (ids : List String) (lease : Lease) :
    (l.leaseEach ids lease).remainder limit = l.remainder limit :=
  l.remainder_map _ fun n => by split <;> rfl

/-- A record that takes the place of another one changes a sum over the records by as much as the
two differ. -/
theorem sum_replaced {entries : List Negotiation} (hdistinct : (entries.map (·.id)).Nodup)
    {n : Negotiation} (hn : n ∈ entries) (m : Negotiation) (f : Negotiation → Nat) :
    ((entries.map fun k => if k.id = n.id then m else k).map f).sum + f n
      = (entries.map f).sum + f m := by
  induction entries with
  | nil => exact absurd hn List.not_mem_nil
  | cons k rest ih =>
    rw [List.map_cons, List.nodup_cons] at hdistinct
    simp only [List.map_cons, List.sum_cons]
    rcases List.mem_cons.mp hn with rfl | hin
    · -- None of the others has the id.
      have hrest : (rest.map fun k => if k.id = n.id then m else k) = rest := by
        conv_rhs => rw [← List.map_id rest]
        refine List.map_congr_left fun k hk => if_neg fun hid => hdistinct.1 ?_
        exact hid ▸ List.mem_map_of_mem hk
      rw [if_pos rfl, hrest]
      omega
    · have hk : k.id ≠ n.id := fun hid => hdistinct.1 (hid ▸ List.mem_map_of_mem hin)
      have hsum := ih hdistinct.2 hin
      rw [if_neg hk]
      omega

/-- What is written in place of a stored record changes what is left by as much as the two
differ. -/
theorem remainder_put (limit : Nat) {l : Ledger} {n m : Negotiation} (hid : m.id = n.id)
    (hn : l.find? n.id = some n) :
    (l.put m).remainder limit + n.remainder limit = l.remainder limit + m.remainder limit := by
  have hin : n ∈ l.entries := mem_of_find? hn
  have hthere : m.id ∈ l.entries.map (·.id) := hid ▸ List.mem_map_of_mem hin
  show ((l.put m).entries.map (·.remainder limit)).sum + _ = _
  rw [entries_put, if_pos hthere, hid]
  exact sum_replaced l.distinct hin m (·.remainder limit)

/-! ## §4. Ledgers within others. -/

/-- All records of a ledger are in another one, too. -/
def Within (l u : Ledger) : Prop :=
  ∀ id n, l.find? id = some n → u.find? id = some n

namespace Within

variable {l u : Ledger}

theorem refl (l : Ledger) : l.Within l :=
  fun _ _ hn => hn

theorem trans {l' : Ledger} (h : l.Within l') (h' : l'.Within u) : l.Within u :=
  fun id n hn => h' id n (h id n hn)

theorem put (h : l.Within u) (n : Negotiation) : (l.put n).Within (u.put n) := by
  intro id m hm
  rw [find?_put] at hm ⊢
  split at hm
  · rename_i hid
    rw [if_pos hid]
    exact hm
  · rename_i hid
    rw [if_neg hid]
    exact h id m hm

/-- A record of which there is none may be anything in the other ledger. -/
theorem put_of_absent (h : l.Within u) {n : Negotiation} (hn : l.find? n.id = none) :
    l.Within (u.put n) := by
  intro id m hm
  rw [find?_put, if_neg]
  · exact h id m hm
  · rintro rfl
    cases hn.symm.trans hm

theorem map (h : l.Within u) (f : Negotiation → Negotiation) (keepsId : ∀ n, (f n).id = n.id) :
    (l.map f keepsId).Within (u.map f keepsId) := by
  intro id m hm
  rw [find?_map] at hm ⊢
  obtain ⟨n, hn, rfl⟩ := Option.map_eq_some_iff.mp hm
  rw [h id n hn]
  rfl

theorem setLease (h : l.Within u) (id : String) (lease : Option Lease) :
    (l.setLease id lease).Within (u.setLease id lease) :=
  h.map _ _

theorem leaseEach (h : l.Within u) (ids : List String) (lease : Lease) :
    (l.leaseEach ids lease).Within (u.leaseEach ids lease) :=
  h.map _ _

end Within

end Ledger

end Parley
