/-
  Parley.Proofs.Listener.Plan
  ────────────────────────────────
  **WHAT A CALLER HAS TO DO.**

  Who calls an audience goes from listener to listener: an announcement is put
  into every queue, and so is the mark of a flush, which waits at each listener
  until the mark is out of its queue.  All that a list of calls comes down to is
  laid out beforehand, as a list of items (`plan`).

  Main results:
    * `sentTo_plan`: each listener gets what every call delivers, in order.
    * `done_of_returns`: a call that is over has done its items, and so have those
      before it.
    * `load_plan`: the moves that all this takes.
-/
import Mathlib.Algebra.Order.Ring.Nat
import Mathlib.Data.List.Infix
import Parley.Listener.Delivery

namespace Parley

/-- The callback that an announcement is delivered to, and what it is given. -/
def Announcement.callback (a : Announcement) : String × Negotiation :=
  (a.kind.callbackName, a.negotiation)

/-- Each kind of announcement has a callback of its own. -/
theorem Announcement.callback_injective : Function.Injective Announcement.callback := by
  have hnames : ∀ s ∈ State.all, ∀ t ∈ State.all, s.callbackName = t.callbackName → s = t := by
    decide +kernel
  rintro ⟨s, n⟩ ⟨t, m⟩ h
  obtain ⟨hkind, rfl⟩ := Prod.mk.inj h
  rw [hnames s (State.mem_all s) t (State.mem_all t) hkind]

namespace Listener

variable {τ : Type}

/-! ## §1. What a caller has to do. -/

/-- What an audience is called for. -/
inductive Call where
  | notify (news : Announcement)
  | flush
deriving DecidableEq, Repr

/-- What a call puts into every queue. -/
def Call.delivery (who : τ) : Call → Delivery τ
  | .notify a => .news a
  | .flush => .mark who

/-- The announcement that a call makes. -/
def Call.news? : Call → Option Announcement
  | .notify a => some a
  | .flush => none

/-- The announcements that calls make, in order. -/
def newsOf (calls : List Call) : List Announcement :=
  calls.filterMap Call.news?

/-- The announcement in a delivery. -/
def Delivery.news? : Delivery τ → Option Announcement
  | .news a => some a
  | .mark _ => none

/-- The announcements among what was put into a queue. -/
def newsIn (deliveries : List (Delivery τ)) : List Announcement :=
  deliveries.filterMap Delivery.news?

/-- One thing that a caller has to do: put something into a queue, wait until its mark is out of a
queue, or return from a call. -/
inductive Item (τ : Type) where
  | post (k : Nat) (d : Delivery τ)
  | await (k : Nat)
  | back (call : Call)
deriving DecidableEq, Repr

/-- The listener that an item is about. -/
def Item.listener? : Item τ → Option Nat
  | .post k _ => some k
  | .await k => some k
  | .back _ => none

/-- The call that an item returns from. -/
def Item.back? : Item τ → Option Call
  | .back call => some call
  | _ => none

/-- What a call has to do with one listener. -/
def Call.items (who : τ) (call : Call) (k : Nat) : List (Item τ) :=
  match call with
  | .notify a => [.post k (.news a)]
  | .flush => [.post k (.mark who), .await k]

/-- What a call has to do with so many listeners. -/
def Call.visits (who : τ) (size : Nat) (call : Call) : List (Item τ) :=
  (List.range size).flatMap (call.items who)

/-- What there is to do for a list of calls. -/
def plan (who : τ) (size : Nat) (calls : List Call) : List (Item τ) :=
  calls.flatMap fun call => call.visits who size ++ [.back call]

theorem visits_succ (who : τ) (n : Nat) (call : Call) :
    call.visits who (n + 1) = call.visits who n ++ call.items who n := by
  simp [Call.visits, List.range_succ]

theorem plan_cons (who : τ) (size : Nat) (call : Call) (later : List Call) :
    plan who size (call :: later) = (call.visits who size ++ [.back call]) ++ plan who size later :=
  rfl

/-- What is put into the queue of a listener when some items are done. -/
def sentTo (k : Nat) (items : List (Item τ)) : List (Delivery τ) :=
  items.filterMap fun
    | .post j d => if j = k then some d else none
    | _ => none

/-- The calls that are over when some items are done. -/
def returns (items : List (Item τ)) : List Call :=
  items.filterMap Item.back?

@[simp] theorem sentTo_append (k : Nat) (items items' : List (Item τ)) :
    sentTo k (items ++ items') = sentTo k items ++ sentTo k items' :=
  List.filterMap_append

@[simp] theorem sentTo_post_self (k : Nat) (d : Delivery τ) : sentTo k [.post k d] = [d] := by
  simp [sentTo]

theorem sentTo_post_ne {j k : Nat} (hne : j ≠ k) (d : Delivery τ) : sentTo k [.post j d] = [] := by
  simp [sentTo, hne]

@[simp] theorem sentTo_await (j k : Nat) : sentTo k [(.await j : Item τ)] = [] := rfl

@[simp] theorem sentTo_back (k : Nat) (call : Call) : sentTo k [(.back call : Item τ)] = [] := rfl

@[simp] theorem returns_append (items items' : List (Item τ)) :
    returns (items ++ items') = returns items ++ returns items' :=
  List.filterMap_append

theorem sentTo_items (who : τ) (call : Call) (j k : Nat) :
    sentTo k (call.items who j) = if j = k then [call.delivery who] else [] := by
  cases call <;> by_cases hjk : j = k <;> simp [Call.items, Call.delivery, sentTo, hjk]

/-- A call puts one thing into the queue of each listener. -/
theorem sentTo_visits (who : τ) (size : Nat) (call : Call) (k : Nat) :
    sentTo k (call.visits who size) = if k < size then [call.delivery who] else [] := by
  induction size with
  | zero => rfl
  | succ n ih =>
    rw [visits_succ, sentTo_append, ih, sentTo_items]
    rcases Nat.lt_trichotomy k n with hlt | rfl | hgt
    · simp [hlt, show n ≠ k by omega, show k < n + 1 by omega]
    · simp
    · simp [show ¬k < n by omega, show n ≠ k by omega, show ¬k < n + 1 by omega]

theorem sentTo_plan (who : τ) {k size : Nat} (hk : k < size) (calls : List Call) :
    sentTo k (plan who size calls) = calls.map (·.delivery who) := by
  induction calls with
  | nil => rfl
  | cons call later ih =>
    rw [plan_cons, sentTo_append, ih, sentTo_append, sentTo_visits, if_pos hk]
    simp

theorem newsIn_delivery (who : τ) (calls : List Call) :
    newsIn (calls.map (·.delivery who)) = newsOf calls := by
  induction calls with
  | nil => rfl
  | cons call later ih => cases call <;> simp_all [newsIn, newsOf, Call.delivery, Delivery.news?,
      Call.news?, List.filterMap_cons]

theorem returns_visits (who : τ) (size : Nat) (call : Call) :
    returns (call.visits who size) = [] := by
  rw [returns, List.filterMap_eq_nil_iff]
  intro item hitem
  obtain ⟨k, -, hk⟩ := List.mem_flatMap.mp hitem
  cases call <;> simp [Call.items] at hk
  · subst hk; rfl
  · rcases hk with rfl | rfl <;> rfl

theorem returns_plan (who : τ) (size : Nat) (calls : List Call) :
    returns (plan who size calls) = calls := by
  induction calls with
  | nil => rfl
  | cons call later ih =>
    rw [plan_cons, returns_append, ih, returns_append, returns_visits]
    rfl

/-- What is done of a plan when a call is over has all that the first call had to do. -/
theorem done_cons {who : τ} {size : Nat} {first : Call} {later : List Call} {past : List (Item τ)}
    (hpast : past <+: plan who size (first :: later)) (hreturns : returns past ≠ []) :
    ∃ rest, past = (first.visits who size ++ [.back first]) ++ rest
      ∧ rest <+: plan who size later := by
  have hall : past <+: first.visits who size ++ [.back first]
      → past = first.visits who size ++ [.back first] := by
    intro hpart
    rcases List.prefix_concat_iff.mp hpart with heq | ⟨rest, hrest⟩
    · exact heq
    · -- Nothing is over before the call returns.
      have hnone : returns past ++ returns rest = [] := by
        rw [← returns_append, hrest, returns_visits]
      exact absurd (List.append_eq_nil_iff.mp hnone).1 hreturns
  rw [plan_cons] at hpast
  rcases List.prefix_or_prefix_of_prefix hpast (List.prefix_append _ _) with hpart | ⟨rest, rfl⟩
  · exact ⟨[], by simp [hall hpart], List.nil_prefix⟩
  · exact ⟨rest, rfl, (List.prefix_append_right_inj _).mp hpast⟩

/-- When a call is over, all that it and those before it had to do is done. -/
theorem done_of_returns {who : τ} {size : Nat} {calls before after : List Call} {call : Call}
    {past : List (Item τ)} (hpast : past <+: plan who size calls)
    (hreturns : returns past = before ++ call :: after) :
    plan who size before ++ call.visits who size <+: past := by
  induction before generalizing calls past with
  | nil =>
    cases calls with
    | nil => simp [List.prefix_nil.mp hpast, returns] at hreturns
    | cons first later =>
      obtain ⟨rest, rfl, -⟩ := done_cons hpast (by simp [hreturns])
      rw [returns_append, returns_append, returns_visits] at hreturns
      obtain rfl : first = call := (List.cons.inj hreturns).1
      exact ⟨[.back first] ++ rest, by simp [plan]⟩
  | cons earlier before ih =>
    cases calls with
    | nil => simp [List.prefix_nil.mp hpast, returns] at hreturns
    | cons first later =>
      obtain ⟨rest, rfl, hrest⟩ := done_cons hpast (by simp [hreturns])
      rw [returns_append, returns_append, returns_visits] at hreturns
      obtain ⟨rfl, hlater⟩ : first = earlier ∧ returns rest = before ++ call :: after :=
        List.cons.inj hreturns
      obtain ⟨last, hlast⟩ := ih hrest hlater
      exact ⟨last, by simp [plan, ← hlast]⟩

/-- A plan is only about listeners that there are. -/
theorem lt_of_mem_plan {who : τ} {size : Nat} {calls : List Call} {item : Item τ} {k : Nat}
    (hmem : item ∈ plan who size calls) (hk : item.listener? = some k) : k < size := by
  obtain ⟨call, -, hcall⟩ := List.mem_flatMap.mp hmem
  rcases List.mem_append.mp hcall with hvisit | hback
  · obtain ⟨j, hj, hitem⟩ := List.mem_flatMap.mp hvisit
    have hj : j < size := List.mem_range.mp hj
    cases call <;> simp [Call.items] at hitem
    · subst hitem; cases hk; exact hj
    · rcases hitem with rfl | rfl <;> cases hk <;> exact hj
  · simp at hback
    subst hback
    cases hk

/-- In a list of items, what is awaited is the answer to a mark that was put into the queue right
before. -/
def Marked (who : τ) (items : List (Item τ)) : Prop :=
  ∀ before k later, items = before ++ .await k :: later →
    ∃ earlier, before = earlier ++ [.post k (.mark who)]

theorem Marked.append {who : τ} {items items' : List (Item τ)} (h : Marked who items)
    (h' : Marked who items') : Marked who (items ++ items') := by
  intro before k later heq
  rcases List.append_eq_append_iff.mp heq with ⟨mid, rfl, hmid⟩ | ⟨mid, hitems, hmid⟩
  · obtain ⟨earlier, rfl⟩ := h' mid k later hmid
    exact ⟨items ++ earlier, by simp⟩
  · cases mid with
    | nil =>
      obtain ⟨earlier, hnil⟩ := h' [] k later (by simpa using hmid.symm)
      simp at hnil
    | cons item mid =>
      obtain ⟨rfl, -⟩ := List.cons.inj hmid
      exact h before k mid hitems

theorem Marked.flatMap {α : Type} {who : τ} {f : α → List (Item τ)} (h : ∀ a, Marked who (f a))
    (l : List α) : Marked who (l.flatMap f) := by
  induction l with
  | nil => intro before k later heq; simp at heq
  | cons a l ih => exact (h a).append ih

theorem marked_items (who : τ) (call : Call) (j : Nat) : Marked who (call.items who j) := by
  intro before k later heq
  cases call with
  | notify a => rcases before with _ | ⟨x, _ | ⟨y, before⟩⟩ <;> simp [Call.items] at heq
  | flush =>
    rcases before with _ | ⟨x, _ | ⟨y, _ | ⟨z, before⟩⟩⟩ <;> simp [Call.items] at heq
    obtain ⟨rfl, rfl, -⟩ := heq
    exact ⟨[], rfl⟩

theorem marked_plan (who : τ) (size : Nat) (calls : List Call) : Marked who (plan who size calls) :=
  .flatMap (fun call => (Marked.flatMap (marked_items who call) _).append (by
    intro before k later heq
    rcases before with _ | ⟨x, before⟩ <;> simp at heq)) calls

/-! ## §2. How much it is. -/

/-- The moves that it takes a listener to be done with a delivery. -/
def Delivery.load : Delivery τ → Nat
  | .news _ => 2
  | .mark _ => 1

/-- The moves that it takes to do an item, with what it leaves to a listener. -/
def Item.load : Item τ → Nat
  | .post _ d => 2 + d.load
  | _ => 1

theorem load_items (who : τ) (call : Call) (k : Nat) :
    ((call.items who k).map Item.load).sum = 4 := by
  cases call <;> rfl

theorem load_visits (who : τ) (size : Nat) (call : Call) :
    ((call.visits who size).map Item.load).sum = 4 * size := by
  induction size with
  | zero => rfl
  | succ n ih =>
    rw [visits_succ, List.map_append, List.sum_append, ih, load_items]
    omega

theorem load_plan (who : τ) (size : Nat) (calls : List Call) :
    ((plan who size calls).map Item.load).sum = calls.length * (4 * size + 1) := by
  induction calls with
  | nil => simp [plan]
  | cons call later ih =>
    rw [plan_cons, List.map_append, List.sum_append, ih, List.map_append, List.sum_append,
      load_visits, List.length_cons, Nat.add_mul, Nat.one_mul]
    simp only [Item.load, List.map_cons, List.map_nil, List.sum_cons, List.sum_nil]
    omega

end Listener

end Parley
