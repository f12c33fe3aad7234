/-
  Parley.Proofs.Listener.Seat
  ────────────────────────────────
  **A LISTENER IN ITS SEAT.**

  A listener takes deliveries out of its queue, one by one, and is busy with a
  callback until that is over.  Where a delivery is at any time follows from what
  has been put into the queue so far, and who has a place follows from the number
  of places (`Seat.Keeps`, kept by whatever the listener and the caller do).

  Main results:
    * `Keeps.arrive`, `put`, `take`, `finish`: what each of them does keeps it.
    * `Keeps.handled_of_answered`: a mark that is out of the queue tells that all
      before it is handled.
    * `Keeps.queue_ne_nil`: nobody waits for a place at an empty queue.
-/
import Parley.Proofs.Listener.Plan

namespace Parley.Listener

variable {τ : Type}

/-! ## §1. Places and deliveries. -/

namespace Subscriber

/-- Who comes takes a free place, or waits in line if there is none. -/
theorem arrive_cases (s : Subscriber τ) (who : τ) :
    s.free = 0 ∧ s.arrive who = { s with waiting := s.waiting ++ [who] }
    ∨ ∃ free, s.free = free + 1 ∧ s.arrive who = { s with free := free } := by
  unfold arrive reserve?
  split
  · exact .inl ⟨‹_›, rfl⟩
  · exact .inr ⟨_, ‹_›, rfl⟩

/-- What is taken is the oldest thing in the queue; its callback is started if it is news, and its
place goes to the first in line or is free. -/
theorem take?_cases {s t : Subscriber τ} {taken : Taken τ} (h : s.take? = some (taken, t)) :
    s.queue = taken.delivery :: t.queue
    ∧ t.started = s.started ++ (taken.delivery.news?.map fun a => (a, s.react a)).toList
    ∧ (s.waiting = [] ∧ t.waiting = [] ∧ t.free = s.free + 1
      ∨ ∃ first, s.waiting = first :: t.waiting ∧ t.free = s.free) := by
  unfold take? at h
  split at h
  · cases h
  · rename_i d rest hqueue
    cases d <;> cases hwaiting : s.waiting <;> simp only [vacate, hwaiting] at h <;> cases h <;>
      simp [hqueue, Delivery.news?]

/-- Something can be taken from a queue unless it is empty. -/
theorem take?_isSome {s : Subscriber τ} (h : s.queue ≠ []) : s.take?.isSome = true := by
  unfold take?
  split
  · contradiction
  · dsimp only
    split <;> rfl

end Subscriber

/-! ## §2. Seats. -/

/-- A listener, and whether it is busy with the callback that it started last. -/
structure Seat (τ : Type) where
  subscriber : Subscriber τ
  busy : Bool := false

namespace Seat

/-- The announcements whose callbacks were started, in order. -/
def heard (s : Seat τ) : List Announcement :=
  s.subscriber.started.map (·.1)

/-- The announcements whose callbacks are over. -/
def handled (s : Seat τ) : List Announcement :=
  if s.busy then s.heard.dropLast else s.heard

/-- The callbacks that were started, each with what it was given. -/
def callbacks (s : Seat τ) : List (String × Negotiation) :=
  s.heard.map Announcement.callback

/-- The callbacks that are over. -/
def callbacksOver (s : Seat τ) : List (String × Negotiation) :=
  s.handled.map Announcement.callback

/-- The caller comes for a place. -/
def arrive (who : τ) (s : Seat τ) : Seat τ :=
  { s with subscriber := s.subscriber.arrive who }

/-- The caller puts something into the queue, unless it still waits for a place. -/
def put? [DecidableEq τ] (who : τ) (d : Delivery τ) (s : Seat τ) : Option (Seat τ) :=
  if who ∈ s.subscriber.waiting then none else some { s with subscriber := s.subscriber.put d }

/-- The caller goes on, unless its mark is still in the queue. -/
def answered? [DecidableEq τ] (who : τ) (s : Seat τ) : Option (Seat τ) :=
  if .mark who ∈ s.subscriber.queue then none else some s

/-- The listener, unless it is busy, takes the oldest delivery out of its queue and starts the
callback for it, which ends as given. -/
def take? (reaction : Reaction) (s : Seat τ) : Option (Seat τ) :=
  if s.busy then none
  else ({ s.subscriber with react := fun _ => reaction } : Subscriber τ).take?.map fun p =>
    ⟨{ p.2 with react := s.subscriber.react }, p.1.delivery.news?.isSome⟩

/-- The callback of the listener is over. -/
def finish? (s : Seat τ) : Option (Seat τ) :=
  if s.busy then some { s with busy := false } else none

/-- What a listener takes is taken in its seat, when its callback ends as it does. -/
theorem take?_of_subscriber {l l' : Subscriber τ} {taken : Subscriber.Taken τ}
    (h : l.take? = some (taken, l')) :
    ∃ reaction, (⟨l, false⟩ : Seat τ).take? reaction
      = some ⟨l', taken.delivery.news?.isSome⟩ := by
  unfold Subscriber.take? at h
  split at h
  · cases h
  · rename_i d rest hqueue
    refine ⟨(d.news?.map l.react).getD .done, ?_⟩
    cases d <;> cases hwaiting : l.waiting <;> simp only [Subscriber.vacate, hwaiting] at h <;>
      cases h <;> simp [take?, Subscriber.take?, hqueue, Subscriber.vacate, hwaiting,
        Delivery.news?]

/-! ## §3. What is known about a listener. -/

/-- What is known about a listener when some deliveries have been put into its queue: it has taken
the first of them, and the others are in the queue; each place is free, taken or kept for the
caller, who waits in line only if there is none. -/
structure Keeps (who : τ) (capacity : Nat) (sent : List (Delivery τ)) (atDoor : Bool)
    (s : Seat τ) : Prop where
  history : ∃ taken, taken ++ s.subscriber.queue = sent ∧ newsIn taken = s.heard
    ∧ (s.busy = true → ∃ before a, taken = before ++ [.news a])
  places : s.subscriber.free + s.subscriber.queue.length + atDoor.toNat
    = capacity + s.subscriber.waiting.length
  line : s.subscriber.waiting = []
    ∨ s.subscriber.waiting = [who] ∧ s.subscriber.free = 0 ∧ atDoor = true

variable {who : τ} {capacity : Nat} {sent : List (Delivery τ)} {atDoor : Bool} {s t : Seat τ}

theorem Keeps.opening (who : τ) (capacity : Nat) (react : Announcement → Reaction) :
    Keeps who capacity [] false ⟨{ react := react, free := capacity }, false⟩ where
  history := ⟨[], rfl, rfl, nofun⟩
  places := rfl
  line := .inl rfl

theorem Keeps.arrive (h : Keeps who capacity sent false s) :
    Keeps who capacity sent true (s.arrive who) := by
  have hwaiting : s.subscriber.waiting = [] := by
    rcases h.line with hnobody | ⟨-, -, hdoor⟩
    · exact hnobody
    · cases hdoor
  have hplaces := h.places
  have hhistory := h.history
  unfold Seat.arrive
  obtain ⟨hfree, harrive⟩ | ⟨free, hfree, harrive⟩ := s.subscriber.arrive_cases who
  all_goals rw [harrive]
  · refine ⟨hhistory, ?_, .inr ⟨by simp [hwaiting], hfree, rfl⟩⟩
    simp only [hwaiting, hfree, List.nil_append, List.length_nil, List.length_singleton,
      Bool.toNat_false, Bool.toNat_true] at hplaces ⊢
    omega
  · refine ⟨hhistory, ?_, .inl hwaiting⟩
    simp only [hfree, Bool.toNat_false, Bool.toNat_true] at hplaces ⊢
    omega

theorem Keeps.put [DecidableEq τ] {d : Delivery τ} (h : Keeps who capacity sent true s)
    (hput : s.put? who d = some t) : Keeps who capacity (sent ++ [d]) false t := by
  unfold put? at hput
  split at hput
  · cases hput
  rename_i hnot
  obtain rfl := Option.some.inj hput
  have hwaiting : s.subscriber.waiting = [] := by
    rcases h.line with hnobody | ⟨hself, -⟩
    · exact hnobody
    · simp [hself] at hnot
  refine ⟨?_, ?_, .inl hwaiting⟩
  · obtain ⟨taken, hsent, hnews, hbusy⟩ := h.history
    exact ⟨taken, by simp [Subscriber.put, ← hsent], hnews, hbusy⟩
  · have hplaces := h.places
    simp only [Subscriber.put, List.length_append, List.length_singleton, Bool.toNat_false,
      Bool.toNat_true] at hplaces ⊢
    omega

theorem Keeps.take {reaction : Reaction} (h : Keeps who capacity sent atDoor s)
    (htake : s.take? reaction = some t) : Keeps who capacity sent atDoor t := by
  unfold take? at htake
  split at htake
  · cases htake
  obtain ⟨⟨⟨d, next⟩, u⟩, hu, rfl⟩ := Option.map_eq_some_iff.mp htake
  obtain ⟨hqueue, hstarted, hplace⟩ := Subscriber.take?_cases hu
  simp only at hqueue hstarted hplace
  refine ⟨?_, ?_, ?_⟩
  · obtain ⟨taken, hsent, hnews, -⟩ := h.history
    refine ⟨taken ++ [d], by simp [← hsent, hqueue], ?_, fun hbusy => ?_⟩
    · simp only [heard, newsIn] at hnews ⊢
      cases d <;> simp [hstarted, hnews, Delivery.news?]
    · cases d with
      | news a => exact ⟨taken, a, rfl⟩
      | mark asker => cases hbusy
  · have hplaces := h.places
    rw [hqueue] at hplaces
    rcases hplace with ⟨hnone, hnone', hfree⟩ | ⟨first, hfirst, hfree⟩
    · simp only [hnone, hnone', hfree, List.length_cons, List.length_nil] at hplaces ⊢
      omega
    · simp only [hfirst, hfree, List.length_cons] at hplaces ⊢
      omega
  · rcases hplace with ⟨-, hnone, -⟩ | ⟨first, hfirst, -⟩
    · exact .inl hnone
    · -- Only the caller was in line, so nobody is now.
      rcases h.line with hnobody | ⟨hself, -⟩
      · simp [hnobody] at hfirst
      · rw [hself] at hfirst
        exact .inl (List.cons.inj hfirst).2.symm

theorem Keeps.finish (h : Keeps who capacity sent atDoor s) (hfinish : s.finish? = some t) :
    Keeps who capacity sent atDoor t := by
  unfold finish? at hfinish
  split at hfinish
  · obtain rfl := Option.some.inj hfinish
    obtain ⟨taken, hsent, hnews, -⟩ := h.history
    exact ⟨⟨taken, hsent, hnews, nofun⟩, h.places, h.line⟩
  · cases hfinish

/-- Callbacks are started for what was sent, in that order. -/
theorem Keeps.heard_of_sent (h : Keeps who capacity sent atDoor s) : s.heard <+: newsIn sent := by
  obtain ⟨taken, hsent, hnews, -⟩ := h.history
  rw [← hnews, ← hsent]
  exact ⟨newsIn s.subscriber.queue, List.filterMap_append.symm⟩

/-- When the last thing sent is a mark, and that is out of the queue, all is handled. -/
theorem Keeps.handled_of_answered [DecidableEq τ]
    (h : Keeps who capacity (sent ++ [.mark who]) atDoor s) (hanswered : s.answered? who = some t) :
    s.handled = newsIn (sent ++ [.mark who]) := by
  have hout : .mark who ∉ s.subscriber.queue := by
    intro hin
    simp [answered?, hin] at hanswered
  obtain ⟨taken, hsent, hnews, hbusy⟩ := h.history
  have hempty : s.subscriber.queue = [] := by
    rcases List.eq_nil_or_concat s.subscriber.queue with hnil | ⟨rest, d, hrest⟩
    · exact hnil
    · rw [hrest, List.concat_eq_append, ← List.append_assoc] at hsent
      obtain ⟨-, hd⟩ := List.append_inj' hsent rfl
      exact absurd (by simp [hrest, List.singleton_inj.mp hd]) hout
  rw [hempty, List.append_nil] at hsent
  have hidle : s.busy = false := by
    by_contra hnot
    obtain ⟨before, a, htaken⟩ := hbusy (by simpa using hnot)
    rw [htaken] at hsent
    simp at hsent
  rw [handled, if_neg (by simp [hidle]), ← hnews, hsent]

/-- When the queue is empty and the listener not busy, all is handled. -/
theorem Keeps.handled_of_idle (h : Keeps who capacity sent atDoor s)
    (hqueue : s.subscriber.queue = []) (hidle : s.busy = false) : s.handled = newsIn sent := by
  obtain ⟨taken, hsent, hnews, -⟩ := h.history
  rw [hqueue, List.append_nil] at hsent
  rw [handled, if_neg (by simp [hidle]), ← hnews, hsent]

/-- The caller waits in line only at a full queue. -/
theorem Keeps.queue_ne_nil (h : Keeps who capacity sent atDoor s) (hcapacity : 0 < capacity)
    (hin : who ∈ s.subscriber.waiting) : s.subscriber.queue ≠ [] := by
  intro hempty
  have hplaces := h.places
  rcases h.line with hnobody | ⟨hself, hfree, hdoor⟩
  · simp [hnobody] at hin
  · simp [hself, hfree, hdoor, hempty] at hplaces
    omega

/-- The queue is never longer than its capacity. -/
theorem Keeps.length_queue_le (h : Keeps who capacity sent atDoor s) :
    s.subscriber.queue.length ≤ capacity := by
  have hplaces := h.places
  rcases h.line with hnobody | ⟨hself, hfree, hdoor⟩
  · simp [hnobody] at hplaces
    omega
  · simp [hself, hfree, hdoor] at hplaces
    omega

/-! ## §4. What is handled stays handled. -/

theorem handled_arrive (who : τ) (s : Seat τ) : s.handled <+: (s.arrive who).handled := by
  unfold arrive
  obtain ⟨-, harrive⟩ | ⟨free, -, harrive⟩ := s.subscriber.arrive_cases who
  all_goals
    rw [harrive]
    exact List.prefix_rfl

theorem handled_put [DecidableEq τ] {d : Delivery τ} (hput : s.put? who d = some t) :
    s.handled <+: t.handled := by
  unfold put? at hput
  split at hput
  · cases hput
  · obtain rfl := Option.some.inj hput
    exact List.prefix_rfl

theorem handled_take {reaction : Reaction} (htake : s.take? reaction = some t) :
    s.handled <+: t.handled := by
  unfold take? at htake
  split at htake
  · cases htake
  rename_i hidle
  obtain ⟨⟨⟨d, next⟩, u⟩, hu, rfl⟩ := Option.map_eq_some_iff.mp htake
  obtain ⟨-, hstarted, -⟩ := Subscriber.take?_cases hu
  cases d <;> simp_all [handled, heard, Delivery.news?]

theorem handled_finish (hfinish : s.finish? = some t) : s.handled <+: t.handled := by
  unfold finish? at hfinish
  split at hfinish
  · rename_i hbusy
    obtain rfl := Option.some.inj hfinish
    simp only [handled, hbusy, if_true]
    exact List.dropLast_prefix _
  · cases hfinish

/-! ## §5. What is left to do. -/

/-- The moves that a listener has yet to make. -/
def load (s : Seat τ) : Nat :=
  (s.subscriber.queue.map Delivery.load).sum + s.busy.toNat

theorem load_arrive (who : τ) (s : Seat τ) : (s.arrive who).load = s.load := by
  unfold arrive
  obtain ⟨-, harrive⟩ | ⟨free, -, harrive⟩ := s.subscriber.arrive_cases who
  all_goals
    rw [harrive]
    rfl

theorem load_put [DecidableEq τ] {d : Delivery τ} (hput : s.put? who d = some t) :
    t.load = s.load + d.load := by
  unfold put? at hput
  split at hput
  · cases hput
  · obtain rfl := Option.some.inj hput
    simp [load, Subscriber.put]
    omega

theorem load_take {reaction : Reaction} (htake : s.take? reaction = some t) :
    t.load + 1 = s.load := by
  unfold take? at htake
  split at htake
  · cases htake
  rename_i hidle
  obtain ⟨⟨⟨d, next⟩, u⟩, hu, rfl⟩ := Option.map_eq_some_iff.mp htake
  obtain ⟨hqueue, -, -⟩ := Subscriber.take?_cases hu
  simp only at hqueue
  cases d <;> simp [load, hqueue, hidle, Delivery.load, Delivery.news?] <;> omega

theorem load_finish (hfinish : s.finish? = some t) : t.load + 1 = s.load := by
  unfold finish? at hfinish
  split at hfinish
  · rename_i hbusy
    obtain rfl := Option.some.inj hfinish
    simp [load, hbusy]
  · cases hfinish

/-- Replacing a listener changes the load of a row by as much as its own. -/
theorem load_set {l : List (Seat τ)} {k : Nat} (hs : l[k]? = some s) :
    ((l.set k t).map load).sum + s.load = (l.map load).sum + t.load := by
  induction l generalizing k with
  | nil => cases hs
  | cons first rest ih =>
    cases k with
    | zero =>
      obtain rfl := Option.some.inj hs
      simp only [List.set_cons_zero, List.map_cons, List.sum_cons]
      omega
    | succ k =>
      have hrest := ih hs
      simp only [List.set_cons_succ, List.map_cons, List.sum_cons]
      omega

end Seat

end Parley.Listener
