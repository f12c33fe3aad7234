/-
  Parley.Proofs.Listener.Delivery
  ────────────────────────────────
  **AN AUDIENCE WITHOUT TASKS.**

  Announcements can also be delivered without tasks that take turns: a listener
  handles what is in its queue only when that is full, or at a flush.  Each step
  of this keeps what is known about a listener (`Seat.Keeps`), so that it comes to
  the same callbacks.

  Main result:
    * `Audience.flush_notify`: after a flush each listener has handled all that was
      announced, in order.
-/
import Parley.Proofs.Listener.Seat

namespace Parley.Listener

variable {τ : Type} {who : τ} {capacity : Nat} {sent : List (Delivery τ)} {s t : Subscriber τ}

/-- What is handled is out of the queue. -/
theorem Subscriber.queue_handle (s : Subscriber τ) (n : Nat) :
    (s.handle n).queue = s.queue.drop n := by
  induction n generalizing s with
  | zero => rfl
  | succ n ih =>
    unfold Subscriber.handle
    split
    · rename_i hnone
      have hqueue : s.queue = [] := by
        by_contra hsome
        simpa [hnone] using Subscriber.take?_isSome hsome
      simp [hqueue]
    · rename_i taken t htake
      rw [ih, (Subscriber.take?_cases htake).1, List.drop_succ_cons]

namespace Seat

/-- A listener that has taken a delivery and is done with it. -/
theorem Keeps.taken {taken : Subscriber.Taken τ} (h : Keeps who capacity sent false ⟨s, false⟩)
    (htake : s.take? = some (taken, t)) : Keeps who capacity sent false ⟨t, false⟩ := by
  obtain ⟨reaction, hseat⟩ := take?_of_subscriber htake
  have hkeeps := h.take hseat
  cases hnews : taken.delivery.news? with
  | none => simpa [hnews] using hkeeps
  | some a => exact hkeeps.finish (by simp [finish?, hnews])

theorem Keeps.handle (h : Keeps who capacity sent false ⟨s, false⟩) (n : Nat) :
    Keeps who capacity sent false ⟨s.handle n, false⟩ := by
  induction n generalizing s with
  | zero => exact h
  | succ n ih =>
    unfold Subscriber.handle
    split
    · exact h
    · rename_i taken t htake
      exact ih (h.taken htake)

/-- Who finds a free place uses it at once. -/
theorem Keeps.offer {d : Delivery τ} (h : Keeps who capacity sent false ⟨s, false⟩)
    (hoffer : s.offer? d = some t) : Keeps who capacity (sent ++ [d]) false ⟨t, false⟩ := by
  classical
  obtain ⟨u, hu, rfl⟩ := Option.map_eq_some_iff.mp hoffer
  have harrive : s.arrive who = u := by simp [Subscriber.arrive, hu]
  have hkeeps : Keeps who capacity sent true ⟨u, false⟩ := by
    simpa [Seat.arrive, harrive] using h.arrive
  have hwaiting : u.waiting = s.waiting := by
    unfold Subscriber.reserve? at hu
    split at hu
    · cases hu
    · obtain rfl := Option.some.inj hu
      rfl
  have hout : who ∉ u.waiting := by
    rcases h.line with hnobody | ⟨-, -, hdoor⟩
    · rw [hwaiting, show s.waiting = [] from hnobody]
      exact List.not_mem_nil
    · cases hdoor
  exact hkeeps.put (by simp [put?, hout])

theorem Keeps.deliver (h : Keeps who capacity sent false ⟨s, false⟩) (hcapacity : 0 < capacity)
    (a : Announcement) :
    Keeps who capacity (sent ++ [.news a]) false ⟨Audience.deliver a s, false⟩ := by
  unfold Audience.deliver
  split
  · exact h.offer ‹_›
  · have hdrained := h.handle s.queue.length
    have hqueue : s.drain.queue = [] := by simp [Subscriber.drain, Subscriber.queue_handle]
    have hplaces : s.drain.free + s.drain.queue.length = capacity + s.drain.waiting.length :=
      hdrained.places
    rw [hqueue, List.length_nil] at hplaces
    obtain ⟨t, ht⟩ : ∃ t, s.drain.offer? (.news a) = some t := by
      cases hfree : s.drain.free with
      | zero => omega
      | succ free => exact ⟨_, by simp [Subscriber.offer?, Subscriber.reserve?, hfree]; rfl⟩
    rw [ht]
    exact Keeps.offer hdrained ht

end Seat

namespace Audience

/-- What is known after some announcements. -/
theorem keeps_notify (who : τ) (capacity : Nat) (reactions : List (Announcement → Reaction))
    (news : List Announcement) {s : Subscriber τ}
    (hs : s ∈ (news.foldl notify (new capacity reactions)).subscribers) :
    Seat.Keeps who (max capacity 1) (news.map .news) false ⟨s, false⟩ := by
  induction news using List.reverseRecOn generalizing s with
  | nil =>
    obtain ⟨react, -, rfl⟩ := List.mem_map.mp hs
    exact .opening who _ react
  | append_singleton earlier a ih =>
    rw [List.foldl_append] at hs
    obtain ⟨t, ht, rfl⟩ := List.mem_map.mp hs
    rw [List.map_append]
    exact (ih ht).deliver (by omega) a

/-- After a flush each listener has handled all that was announced, in order. -/
theorem flush_notify [Inhabited τ] (capacity : Nat) (reactions : List (Announcement → Reaction))
    (news : List Announcement) {s : Subscriber τ}
    (hs : s ∈ (news.foldl notify (new capacity reactions)).flush.subscribers) :
    s.started.map (·.1) = news := by
  obtain ⟨t, ht, rfl⟩ := List.mem_map.mp hs
  have hdrained := (keeps_notify default capacity reactions news ht).handle t.queue.length
  have hqueue : t.drain.queue = [] := by simp [Subscriber.drain, Subscriber.queue_handle]
  have hhandled := hdrained.handled_of_idle hqueue rfl
  have hall : newsIn (news.map (.news : Announcement → Delivery τ)) = news := by
    simp [newsIn, List.filterMap_map, Function.comp_def, Delivery.news?]
  exact hhandled.trans hall

end Audience

end Parley.Listener
