/-
  Parley.Proofs.Listener.Hall
  ────────────────────────────────
  **EVERY LISTENER HEARS EVERYTHING, IN ORDER.**

  A hall is an audience that works side by side with the one who calls it.  The
  caller has a list of calls: announcements to make, and flushes.  It goes from
  listener to listener, comes for a place in the queue, and puts its delivery
  there when it has one; with a flush it then waits until its mark is out of the
  queue.  Each listener takes deliveries out of its own queue, and is busy with a
  callback until that is over.  How a callback ends is decided anew each time.

  Moves of the caller and of the listeners come in any order.  Where a delivery
  is at any time follows from what has been put into the queue so far
  (`Seat.Keeps`), and each move is one piece of the work that there is
  (`Hall.work_steps`), so that the work comes to its end.

  Main results:
    * `Hall.Inv.run`: the invariant of a run.
    * `delivered_in_order`: whatever callbacks fail or panic, and however the moves
      come, each listener's callbacks are those of the announcements, in their
      order; a flush returns when they are over; and nobody gets stuck.
-/
import Parley.Proofs.Listener.Seat

namespace Parley.Listener

variable {τ : Type}

/-! ## §1. Halls. -/

/-- An audience and its caller: what the caller has done, the delivery for which it has come to a
listener, and what it has yet to do. -/
structure Hall (τ : Type) where
  seats : List (Seat τ)
  past : List (Item τ) := []
  posting : Option (Nat × Delivery τ) := none
  ahead : List (Item τ)

/-- Something that happens in a hall: the caller goes on, a listener takes a delivery, and its
callback will end in some way, or its callback is over. -/
inductive Hall.Move where
  | caller
  | take (k : Nat) (reaction : Reaction)
  | finish (k : Nat)
deriving DecidableEq, Repr

namespace Hall

/-- The hall with an audience as it is when it is new. -/
def opening (who : τ) (capacity : Nat) (reactions : List (Announcement → Reaction))
    (calls : List Call) : Hall τ where
  seats := (Audience.new capacity reactions).subscribers.map (⟨·, false⟩)
  ahead := plan who reactions.length calls

/-- What the caller does next: it waits for what it cannot do yet. -/
def goOn? [DecidableEq τ] (who : τ) (h : Hall τ) : Option (Hall τ) :=
  match h.posting with
  | some (k, d) => do
    let s ← h.seats[k]?.bind (·.put? who d)
    return { h with seats := h.seats.set k s, past := h.past ++ [.post k d], posting := none }
  | none =>
    match h.ahead with
    | [] => none
    | .post k d :: later => do
      let s ← h.seats[k]?
      return { h with
        seats := h.seats.set k (s.arrive who), posting := some (k, d), ahead := later }
    | .await k :: later => do
      let _ ← h.seats[k]?.bind (·.answered? who)
      return { h with past := h.past ++ [.await k], ahead := later }
    | .back call :: later => some { h with past := h.past ++ [.back call], ahead := later }

/-- A move in a hall, if it can be made. -/
def step [DecidableEq τ] (who : τ) (h : Hall τ) : Move → Option (Hall τ)
  | .caller => h.goOn? who
  | .take k reaction =>
    (h.seats[k]?.bind (·.take? reaction)).map fun s => { h with seats := h.seats.set k s }
  | .finish k => (h.seats[k]?.bind (·.finish?)).map fun s => { h with seats := h.seats.set k s }

/-- Moves in a hall, one after the other. -/
def run [DecidableEq τ] (who : τ) (h : Hall τ) : List Move → Option (Hall τ)
  | [] => some h
  | move :: later => (h.step who move).bind (·.run who later)

theorem run_append [DecidableEq τ] (who : τ) (h : Hall τ) (moves later : List Move) :
    h.run who (moves ++ later) = (h.run who moves).bind (·.run who later) := by
  induction moves generalizing h with
  | nil => rfl
  | cons move moves ih =>
    simp only [List.cons_append, run, Option.bind_assoc]
    exact Option.bind_congr fun h' _ => ih h'

/-- The calls that the caller has returned from. -/
def returned (h : Hall τ) : List Call :=
  returns h.past

/-- What a move can do. -/
inductive Steps [DecidableEq τ] (who : τ) (h : Hall τ) : Hall τ → Prop
  | come (k : Nat) (d : Delivery τ) (later : List (Item τ)) (s : Seat τ)
      (hposting : h.posting = none) (hahead : h.ahead = .post k d :: later)
      (hs : h.seats[k]? = some s) :
      Steps who h { h with
        seats := h.seats.set k (s.arrive who), posting := some (k, d), ahead := later }
  | put (k : Nat) (d : Delivery τ) (s t : Seat τ) (hposting : h.posting = some (k, d))
      (hs : h.seats[k]? = some s) (ht : s.put? who d = some t) :
      Steps who h { h with
        seats := h.seats.set k t, past := h.past ++ [.post k d], posting := none }
  | answered (k : Nat) (later : List (Item τ)) (s t : Seat τ) (hposting : h.posting = none)
      (hahead : h.ahead = .await k :: later) (hs : h.seats[k]? = some s)
      (ht : s.answered? who = some t) :
      Steps who h { h with past := h.past ++ [.await k], ahead := later }
  | back (call : Call) (later : List (Item τ)) (hposting : h.posting = none)
      (hahead : h.ahead = .back call :: later) :
      Steps who h { h with past := h.past ++ [.back call], ahead := later }
  | take (k : Nat) (reaction : Reaction) (s t : Seat τ) (hs : h.seats[k]? = some s)
      (ht : s.take? reaction = some t) : Steps who h { h with seats := h.seats.set k t }
  | finish (k : Nat) (s t : Seat τ) (hs : h.seats[k]? = some s) (ht : s.finish? = some t) :
      Steps who h { h with seats := h.seats.set k t }

variable {who : τ} {h h' : Hall τ}

/-! The caller can go on: this is what it does. -/

theorem goOn?_come [DecidableEq τ] {k : Nat} {d : Delivery τ} {later : List (Item τ)} {s : Seat τ}
    (hposting : h.posting = none) (hahead : h.ahead = .post k d :: later)
    (hs : h.seats[k]? = some s) :
    h.goOn? who = some { h with
      seats := h.seats.set k (s.arrive who), posting := some (k, d), ahead := later } := by
  simp [goOn?, hposting, hahead, hs]

theorem goOn?_put [DecidableEq τ] {k : Nat} {d : Delivery τ} {s : Seat τ}
    (hposting : h.posting = some (k, d)) (hs : h.seats[k]? = some s)
    (hout : who ∉ s.subscriber.waiting) :
    h.goOn? who = some { h with
      seats := h.seats.set k { s with subscriber := s.subscriber.put d }
      past := h.past ++ [.post k d], posting := none } := by
  simp [goOn?, hposting, hs, Seat.put?, hout]

theorem goOn?_await [DecidableEq τ] {k : Nat} {later : List (Item τ)} {s : Seat τ}
    (hposting : h.posting = none) (hahead : h.ahead = .await k :: later)
    (hs : h.seats[k]? = some s) (hout : .mark who ∉ s.subscriber.queue) :
    h.goOn? who = some { h with past := h.past ++ [.await k], ahead := later } := by
  simp [goOn?, hposting, hahead, hs, Seat.answered?, hout]

theorem goOn?_back [DecidableEq τ] {call : Call} {later : List (Item τ)}
    (hposting : h.posting = none) (hahead : h.ahead = .back call :: later) :
    h.goOn? who = some { h with past := h.past ++ [.back call], ahead := later } := by
  simp [goOn?, hposting, hahead]

theorem run_caller [DecidableEq τ] (hgo : h.goOn? who = some h') :
    h.run who [.caller] = some h' := by
  simp [run, step, hgo]

theorem steps_goOn [DecidableEq τ] (hstep : h.goOn? who = some h') : Steps who h h' := by
  unfold goOn? at hstep
  split at hstep
  · rename_i k d hposting
    obtain ⟨t, ht, hh⟩ := Option.bind_eq_some_iff.mp hstep
    obtain ⟨s, hs, ht⟩ := Option.bind_eq_some_iff.mp ht
    obtain rfl := Option.some.inj hh
    exact .put k d s t hposting hs ht
  · rename_i hposting
    split at hstep
    · cases hstep
    · rename_i k d later hahead
      obtain ⟨s, hs, hh⟩ := Option.bind_eq_some_iff.mp hstep
      obtain rfl := Option.some.inj hh
      exact .come k d later s hposting hahead hs
    · rename_i k later hahead
      obtain ⟨t, ht, hh⟩ := Option.bind_eq_some_iff.mp hstep
      obtain ⟨s, hs, ht⟩ := Option.bind_eq_some_iff.mp ht
      obtain rfl := Option.some.inj hh
      exact .answered k later s t hposting hahead hs ht
    · rename_i call later hahead
      obtain rfl := Option.some.inj hstep
      exact .back call later hposting hahead

theorem steps [DecidableEq τ] {move : Move} (hstep : h.step who move = some h') :
    Steps who h h' := by
  cases move with
  | caller => exact steps_goOn hstep
  | take k reaction =>
    obtain ⟨t, ht, rfl⟩ := Option.map_eq_some_iff.mp hstep
    obtain ⟨s, hs, ht⟩ := Option.bind_eq_some_iff.mp ht
    exact .take k reaction s t hs ht
  | finish k =>
    obtain ⟨t, ht, rfl⟩ := Option.map_eq_some_iff.mp hstep
    obtain ⟨s, hs, ht⟩ := Option.bind_eq_some_iff.mp ht
    exact .finish k s t hs ht

/-! ## §2. The invariant. -/

/-- Whether the caller has come to a listener. -/
def isAt (h : Hall τ) (k : Nat) : Bool :=
  h.posting.any fun p => p.1 = k

/-- What is known in a hall: the caller follows its plan, each listener's queue holds what was put
there and not yet taken, and once a mark was answered all that was put into the queue before it is
handled. -/
structure Inv (who : τ) (capacity size : Nat) (calls : List Call) (h : Hall τ) : Prop where
  follows : h.past ++ (h.posting.map fun p => .post p.1 p.2).toList ++ h.ahead
    = plan who size calls
  seated : h.seats.length = size
  keeps : ∀ (k : Nat) (s : Seat τ), h.seats[k]? = some s →
    s.Keeps who capacity (sentTo k h.past) (h.isAt k)
  answered : ∀ (k : Nat) (s : Seat τ) (before : List (Item τ)),
    before ++ [.await k] <+: h.past → h.seats[k]? = some s → newsIn (sentTo k before) <+: s.handled

variable {capacity size : Nat} {calls : List Call}

theorem Inv.opening (who : τ) (capacity : Nat) (reactions : List (Announcement → Reaction))
    (calls : List Call) :
    Inv who (max capacity 1) reactions.length calls
      (Hall.opening who capacity reactions calls) where
  follows := rfl
  seated := by simp [Hall.opening, Audience.new]
  keeps := by
    intro k s hs
    simp only [Hall.opening, Audience.new, List.map_map, List.getElem?_map] at hs
    obtain ⟨react, -, rfl⟩ := Option.map_eq_some_iff.mp hs
    exact .opening who _ react
  answered := by
    intro k s before hbefore
    simp [Hall.opening] at hbefore

/-- A listener after one of them was replaced. -/
theorem getElem?_set_cases {l : List (Seat τ)} {j k : Nat} {s t : Seat τ}
    (h : (l.set k t)[j]? = some s) : j = k ∧ s = t ∨ j ≠ k ∧ l[j]? = some s := by
  rw [List.getElem?_set] at h
  split at h
  · rename_i hkj
    split at h
    · exact .inl ⟨hkj.symm, (Option.some.inj h).symm⟩
    · cases h
  · exact .inr ⟨Ne.symm ‹_›, h⟩

/-- What was answered stays answered while a listener handles more. -/
theorem Inv.answered_set (hinv : h.Inv who capacity size calls) {j k : Nat} {s t u : Seat τ}
    {before : List (Item τ)} (hs : h.seats[k]? = some s) (hhandled : s.handled <+: t.handled)
    (hbefore : before ++ [.await j] <+: h.past) (hu : (h.seats.set k t)[j]? = some u) :
    newsIn (sentTo j before) <+: u.handled := by
  rcases getElem?_set_cases hu with ⟨rfl, rfl⟩ | ⟨-, hu⟩
  · exact (hinv.answered j s before hbefore hs).trans hhandled
  · exact hinv.answered j u before hbefore hu

/-- What a listener does by itself. -/
theorem Inv.replace (hinv : h.Inv who capacity size calls) {k : Nat} {s t : Seat τ}
    (hs : h.seats[k]? = some s) (hhandled : s.handled <+: t.handled)
    (hkeeps : s.Keeps who capacity (sentTo k h.past) (h.isAt k) →
      t.Keeps who capacity (sentTo k h.past) (h.isAt k)) :
    Inv who capacity size calls { h with seats := h.seats.set k t } where
  follows := hinv.follows
  seated := by simp [hinv.seated]
  keeps := by
    intro j u hu
    rcases getElem?_set_cases hu with ⟨rfl, rfl⟩ | ⟨-, hu⟩
    · exact hkeeps (hinv.keeps j s hs)
    · exact hinv.keeps j u hu
  answered j u before hbefore hu := hinv.answered_set hs hhandled hbefore hu

theorem Inv.come (hinv : h.Inv who capacity size calls) {k : Nat} {d : Delivery τ}
    {later : List (Item τ)} {s : Seat τ} (hposting : h.posting = none)
    (hahead : h.ahead = .post k d :: later) (hs : h.seats[k]? = some s) :
    Inv who capacity size calls
      { h with seats := h.seats.set k (s.arrive who), posting := some (k, d), ahead := later } where
  follows := by
    have hfollows := hinv.follows
    simp only [hposting, hahead, Option.map_none, Option.toList_none, List.append_nil] at hfollows
    simpa using hfollows
  seated := by simp [hinv.seated]
  keeps := by
    intro j u hu
    have hat : ∀ i, h.isAt i = false := fun i => by simp [isAt, hposting]
    rcases getElem?_set_cases hu with ⟨rfl, rfl⟩ | ⟨hne, hu⟩
    · have hkeeps := hinv.keeps j s hs
      rw [hat] at hkeeps
      simpa [isAt] using hkeeps.arrive
    · have hkeeps := hinv.keeps j u hu
      rw [hat] at hkeeps
      simpa [isAt, hne.symm] using hkeeps
  answered j u before hbefore hu :=
    hinv.answered_set hs (Seat.handled_arrive who s) hbefore hu

theorem Inv.put [DecidableEq τ] (hinv : h.Inv who capacity size calls) {k : Nat} {d : Delivery τ}
    {s t : Seat τ} (hposting : h.posting = some (k, d)) (hs : h.seats[k]? = some s)
    (ht : s.put? who d = some t) :
    Inv who capacity size calls
      { h with seats := h.seats.set k t, past := h.past ++ [.post k d], posting := none } where
  follows := by simpa [hposting] using hinv.follows
  seated := by simp [hinv.seated]
  keeps := by
    intro j u hu
    rcases getElem?_set_cases hu with ⟨rfl, rfl⟩ | ⟨hne, hu⟩
    · have hkeeps := hinv.keeps j s hs
      rw [show h.isAt j = true by simp [isAt, hposting]] at hkeeps
      simpa [isAt] using hkeeps.put ht
    · have hkeeps := hinv.keeps j u hu
      rw [show h.isAt j = false by simp [isAt, hposting, hne.symm]] at hkeeps
      simpa [isAt, sentTo_post_ne hne.symm] using hkeeps
  answered := by
    intro j u before hbefore hu
    rcases List.prefix_concat_iff.mp hbefore with heq | hbefore
    · cases (List.append_inj' heq rfl).2
    · exact hinv.answered_set hs (Seat.handled_put ht) hbefore hu

/-- When an answer has come, the mark was put into the queue right before. -/
theorem Inv.marked (hinv : h.Inv who capacity size calls) {k : Nat} {later : List (Item τ)}
    (hposting : h.posting = none) (hahead : h.ahead = .await k :: later) :
    ∃ before, h.past = before ++ [.post k (.mark who)] := by
  have hfollows := hinv.follows
  simp only [hposting, hahead, Option.map_none, Option.toList_none, List.append_nil] at hfollows
  exact marked_plan who size calls h.past k later hfollows.symm

theorem Inv.awaited [DecidableEq τ] (hinv : h.Inv who capacity size calls) {k : Nat}
    {later : List (Item τ)} {s t : Seat τ} (hposting : h.posting = none)
    (hahead : h.ahead = .await k :: later)
    (hs : h.seats[k]? = some s) (ht : s.answered? who = some t) :
    Inv who capacity size calls { h with past := h.past ++ [.await k], ahead := later } where
  follows := by simpa [hposting, hahead] using hinv.follows
  seated := hinv.seated
  keeps := by
    intro j u hu
    simpa [isAt] using hinv.keeps j u hu
  answered := by
    intro j u before hbefore hu
    rcases List.prefix_concat_iff.mp hbefore with heq | hbefore
    · obtain ⟨rfl, hj⟩ := List.append_inj' heq rfl
      obtain rfl : j = k := by simpa using hj
      obtain rfl : u = s := Option.some.inj (hu.symm.trans hs)
      obtain ⟨earlier, hmarked⟩ := hinv.marked hposting hahead
      have hkeeps := hinv.keeps j u hs
      rw [hmarked, sentTo_append, sentTo_post_self] at hkeeps ⊢
      exact (hkeeps.handled_of_answered ht).symm ▸ List.prefix_rfl
    · exact hinv.answered j u before hbefore hu

theorem Inv.back (hinv : h.Inv who capacity size calls) {call : Call} {later : List (Item τ)}
    (hposting : h.posting = none) (hahead : h.ahead = .back call :: later) :
    Inv who capacity size calls { h with past := h.past ++ [.back call], ahead := later } where
  follows := by simpa [hposting, hahead] using hinv.follows
  seated := hinv.seated
  keeps := by
    intro j u hu
    simpa [isAt] using hinv.keeps j u hu
  answered := by
    intro j u before hbefore hu
    rcases List.prefix_concat_iff.mp hbefore with heq | hbefore
    · cases (List.append_inj' heq rfl).2
    · exact hinv.answered j u before hbefore hu

theorem Inv.steps [DecidableEq τ] (hinv : h.Inv who capacity size calls) (hsteps : Steps who h h') :
    h'.Inv who capacity size calls := by
  cases hsteps with
  | come k d later s hposting hahead hs => exact hinv.come hposting hahead hs
  | put k d s t hposting hs ht => exact hinv.put hposting hs ht
  | answered k later s t hposting hahead hs ht => exact hinv.awaited hposting hahead hs ht
  | back call later hposting hahead => exact hinv.back hposting hahead
  | take k reaction s t hs ht =>
    exact hinv.replace hs (Seat.handled_take ht) fun hkeeps => hkeeps.take ht
  | finish k s t hs ht =>
    exact hinv.replace hs (Seat.handled_finish ht) fun hkeeps => hkeeps.finish ht

theorem Inv.run [DecidableEq τ] {moves : List Move} (hinv : h.Inv who capacity size calls)
    (hrun : h.run who moves = some h') : h'.Inv who capacity size calls := by
  induction moves generalizing h with
  | nil =>
    obtain rfl := Option.some.inj hrun
    exact hinv
  | cons move later ih =>
    obtain ⟨h₁, hstep, hrun⟩ := Option.bind_eq_some_iff.mp hrun
    exact ih (hinv.steps (Hall.steps hstep)) hrun

/-! ## §3. The work. -/

/-- The moves that there are yet to be made. -/
def work (h : Hall τ) : Nat :=
  (h.seats.map Seat.load).sum + (h.posting.elim 0 fun p => 1 + p.2.load)
    + (h.ahead.map Item.load).sum

/-- Each move is one piece of the work. -/
theorem work_steps [DecidableEq τ] (hsteps : Steps who h h') : h'.work + 1 = h.work := by
  cases hsteps with
  | come k d later s hposting hahead hs =>
    have hset := Seat.load_set (t := s.arrive who) hs
    rw [Seat.load_arrive] at hset
    simp only [work, hposting, hahead, Option.elim, List.map_cons, List.sum_cons, Item.load]
    omega
  | put k d s t hposting hs ht =>
    have hset := Seat.load_set (t := t) hs
    rw [Seat.load_put ht] at hset
    simp only [work, hposting, Option.elim]
    omega
  | answered k later s t hposting hahead hs ht =>
    simp only [work, hahead, List.map_cons, List.sum_cons, Item.load]
    omega
  | back call later hposting hahead =>
    simp only [work, hahead, List.map_cons, List.sum_cons, Item.load]
    omega
  | take k reaction s t hs ht =>
    have hset := Seat.load_set (t := t) hs
    have hload := Seat.load_take ht
    simp only [work]
    omega
  | finish k s t hs ht =>
    have hset := Seat.load_set (t := t) hs
    have hload := Seat.load_finish ht
    simp only [work]
    omega

/-- The moves that were made and those to be made are as many as there were to be made. -/
theorem work_run [DecidableEq τ] {moves : List Move} (hrun : h.run who moves = some h') :
    moves.length + h'.work = h.work := by
  induction moves generalizing h with
  | nil =>
    obtain rfl := Option.some.inj hrun
    simp
  | cons move later ih =>
    obtain ⟨h₁, hstep, hrun⟩ := Option.bind_eq_some_iff.mp hrun
    have hlater := ih hrun
    have hmove := work_steps (steps hstep)
    simp only [List.length_cons]
    omega

theorem work_opening (who : τ) (capacity : Nat) (reactions : List (Announcement → Reaction))
    (calls : List Call) :
    (opening who capacity reactions calls).work = calls.length * (4 * reactions.length + 1) := by
  have hseats : (((opening who capacity reactions calls).seats).map Seat.load).sum = 0 := by
    simp [opening, Audience.new, Function.comp_def, Seat.load]
  rw [work, hseats]
  simp only [opening, Option.elim, load_plan]
  omega

/-! ## §4. Nobody gets stuck. -/

/-- If no move can be made, no listener has anything to do. -/
theorem idle_of_stuck [DecidableEq τ] (hstuck : ∀ move, h.step who move = none) {k : Nat}
    {s : Seat τ} (hs : h.seats[k]? = some s) : s.subscriber.queue = [] ∧ s.busy = false := by
  have hidle : s.busy = false := by
    by_contra hbusy
    simpa [step, hs, Seat.finish?, hbusy] using hstuck (.finish k)
  refine ⟨?_, hidle⟩
  by_contra hqueue
  have htake := Subscriber.take?_isSome
    (s := ({ s.subscriber with react := fun _ => .done } : Subscriber τ)) hqueue
  obtain ⟨p, hp⟩ := Option.isSome_iff_exists.mp htake
  simpa [step, hs, Seat.take?, hidle, hp] using hstuck (.take k .done)

/-- The caller can go on when no listener has anything to do, unless it is at its end. -/
theorem Inv.over_of_stuck [DecidableEq τ] (hinv : h.Inv who capacity size calls)
    (hcapacity : 0 < capacity) (hstuck : ∀ move, h.step who move = none) :
    h.posting = none ∧ h.ahead = [] := by
  have hgo : h.goOn? who = none := hstuck .caller
  have hthere : ∀ item ∈ plan who size calls, ∀ k, item.listener? = some k →
      ∃ s, h.seats[k]? = some s := fun item hitem k hk =>
    ⟨_, List.getElem?_eq_getElem (hinv.seated ▸ lt_of_mem_plan hitem hk)⟩
  have hfollows := hinv.follows
  unfold goOn? at hgo
  split at hgo
  · rename_i k d hposting
    obtain ⟨s, hs⟩ := hthere (.post k d) (by simp [← hfollows, hposting]) k rfl
    have hqueue := (idle_of_stuck hstuck hs).1
    by_cases hin : who ∈ s.subscriber.waiting
    · exact absurd hqueue ((hinv.keeps k s hs).queue_ne_nil hcapacity hin)
    · simp [hs, Seat.put?, hin] at hgo
  · rename_i hposting
    refine ⟨hposting, ?_⟩
    split at hgo
    · assumption
    · rename_i k d later hahead
      obtain ⟨s, hs⟩ := hthere (.post k d) (by simp [← hfollows, hahead]) k rfl
      simp [hs] at hgo
    · rename_i k later hahead
      obtain ⟨s, hs⟩ := hthere (.await k) (by simp [← hfollows, hahead]) k rfl
      simp [hs, Seat.answered?, (idle_of_stuck hstuck hs).1] at hgo
    · cases hgo

/-! ## §5. In order, once, and before a flush returns. -/

theorem Inv.past_of_plan (hinv : h.Inv who capacity size calls) :
    h.past <+: plan who size calls := by
  rw [← hinv.follows, List.append_assoc]
  exact List.prefix_append _ _

theorem Inv.lt_size (hinv : h.Inv who capacity size calls) {k : Nat} {s : Seat τ}
    (hs : h.seats[k]? = some s) : k < size :=
  hinv.seated ▸ (List.getElem?_eq_some_iff.mp hs).1

/-- Each listener hears what is announced, in order, as far as it has got. -/
theorem Inv.heard_in_turn (hinv : h.Inv who capacity size calls) {k : Nat} {s : Seat τ}
    (hs : h.seats[k]? = some s) : s.heard <+: newsOf calls := by
  have hsent : newsIn (sentTo k h.past) <+: newsOf calls := by
    rw [← newsIn_delivery who, ← sentTo_plan who (hinv.lt_size hs)]
    exact (hinv.past_of_plan.filterMap _).filterMap _
  exact (hinv.keeps k s hs).heard_of_sent.trans hsent

/-- When a flush is over, each listener has handled what was announced before. -/
theorem Inv.flushed (hinv : h.Inv who capacity size calls) {before after : List Call}
    (hreturned : h.returned = before ++ .flush :: after) {k : Nat} {s : Seat τ}
    (hs : h.seats[k]? = some s) : newsOf before <+: s.handled := by
  have hk := hinv.lt_size hs
  have hawait : .await k ∈ Call.flush.visits who size :=
    List.mem_flatMap.mpr ⟨k, List.mem_range.mpr hk, by simp [Call.items]⟩
  obtain ⟨earlier, later, hvisits⟩ := List.append_of_mem hawait
  have hdone := done_of_returns hinv.past_of_plan hreturned
  rw [hvisits] at hdone
  have hanswered := hinv.answered k s (plan who size before ++ earlier)
    (List.IsPrefix.trans ⟨later, by simp⟩ hdone) hs
  refine List.IsPrefix.trans ?_ hanswered
  rw [sentTo_append, sentTo_plan who hk, newsIn, List.filterMap_append]
  exact (newsIn_delivery who before) ▸ List.prefix_append _ _

end Hall

/-- A caller makes announcements and flushes, and each of any number of listeners has a queue of any
capacity.  However the moves of the caller and of the listeners come, and however callbacks end:

* the callbacks of each listener are those of the announcements, each once and in their order, as
  far as they have got, and no queue outgrows its capacity;
* when a flush has returned, each listener is done with what was announced before;
* there are no more moves than four for each call and listener, and one to return from each call;
* and when no move is left, all calls are over, and each listener is done with all announcements. -/
theorem delivered_in_order [DecidableEq τ] (who : τ) (capacity : Nat)
    (reactions : List (Announcement → Reaction)) (calls : List Call) {moves : List Hall.Move}
    {h : Hall τ} (hrun : (Hall.opening who capacity reactions calls).run who moves = some h) :
    h.seats.length = reactions.length
    ∧ (∀ s ∈ h.seats, s.callbacks <+: (newsOf calls).map Announcement.callback
      ∧ s.subscriber.queue.length ≤ max capacity 1)
    ∧ (∀ before after, h.returned = before ++ .flush :: after → ∀ s ∈ h.seats,
      (newsOf before).map Announcement.callback <+: s.callbacksOver)
    ∧ moves.length ≤ calls.length * (4 * reactions.length + 1)
    ∧ ((∀ move, h.step who move = none) → h.returned = calls ∧ ∀ s ∈ h.seats,
      s.callbacks = (newsOf calls).map Announcement.callback
      ∧ s.callbacksOver = (newsOf calls).map Announcement.callback) := by
  have hinv := (Hall.Inv.opening who capacity reactions calls).run hrun
  have hwork := Hall.work_run hrun
  rw [Hall.work_opening] at hwork
  refine ⟨hinv.seated, fun s hmem => ?_, fun before after hreturned s hmem => ?_, by omega,
    fun hstuck => ?_⟩
  · obtain ⟨k, hs⟩ := List.mem_iff_getElem?.mp hmem
    exact ⟨(hinv.heard_in_turn hs).map _, (hinv.keeps k s hs).length_queue_le⟩
  · obtain ⟨k, hs⟩ := List.mem_iff_getElem?.mp hmem
    exact (hinv.flushed hreturned hs).map _
  · obtain ⟨hposting, hahead⟩ := hinv.over_of_stuck (by omega) hstuck
    have hpast : h.past = plan who reactions.length calls := by
      simpa [hposting, hahead] using hinv.follows
    refine ⟨by rw [Hall.returned, hpast, returns_plan], fun s hmem => ?_⟩
    obtain ⟨k, hs⟩ := List.mem_iff_getElem?.mp hmem
    have hk := hinv.lt_size hs
    obtain ⟨hqueue, hidle⟩ := Hall.idle_of_stuck hstuck hs
    have hhandled := (hinv.keeps k s hs).handled_of_idle hqueue hidle
    rw [hpast, sentTo_plan who hk, newsIn_delivery] at hhandled
    have hheard : s.heard = s.handled := by simp [Seat.handled, hidle]
    exact ⟨by rw [Seat.callbacks, hheard, hhandled], by rw [Seat.callbacksOver, hhandled]⟩

/-- Queues of one place: the caller waits at both listeners until a callback that panics or fails
was started.  Its flush is over, and it goes on with its last call. -/
theorem flushed_despite_panics :
    let about (id : String) : Announcement :=
      ⟨.requested, Negotiation.new id .consumer "provider" "http://provider" "dsp" default⟩
    let reactions : List (Announcement → Reaction) := [fun _ => .panicked, fun _ => .failed]
    let calls : List Call := [.notify (about "a"), .notify (about "b"), .flush, .notify (about "c")]
    let moves : List Hall.Move :=
      [.caller, .caller, .caller, .caller, .caller,
        .caller, .take 0 .panicked, .caller, .caller, .take 1 .failed, .caller, .caller,
        .caller, .finish 0, .take 0 .done, .caller, .finish 1, .take 1 .panicked, .finish 0,
        .take 0 .done, .caller, .caller, .caller, .finish 1, .take 1 .failed, .caller, .caller,
        .caller, .caller]
    ∃ h, (Hall.opening () 1 reactions calls).run () moves = some h
      ∧ h.returned = [.notify (about "a"), .notify (about "b"), .flush]
      ∧ ∀ s ∈ h.seats, [(about "a").callback, (about "b").callback] <+: s.callbacksOver
        ∧ s.callbacks <+: (newsOf calls).map Announcement.callback := by
  intro about reactions calls moves
  have hruns : ((Hall.opening () 1 reactions calls).run () moves).map Hall.returned
      = some [.notify (about "a"), .notify (about "b"), .flush] := by decide +kernel
  obtain ⟨h, hrun, hreturned⟩ := Option.map_eq_some_iff.mp hruns
  obtain ⟨-, hcallbacks, hflushed, -⟩ := delivered_in_order () 1 reactions calls hrun
  exact ⟨h, hrun, hreturned, fun s hs =>
    ⟨hflushed [.notify (about "a"), .notify (about "b")] [] hreturned s hs, (hcallbacks s hs).1⟩⟩

end Parley.Listener
