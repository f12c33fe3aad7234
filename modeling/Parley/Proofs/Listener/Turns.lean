/-
  Parley.Proofs.Listener.Turns
  ────────────────────────────────
  **THE TASKS OF A VENUE ARE A HALL.**

  In a venue, who calls the listeners of an engine does so as an activity, and
  each listener is an activity of its own.  They have turns, and a turn may be cut
  short by any wait.  Whoever has a turn, and whatever credit there is for it, it
  comes to some moves in the hall of these listeners: so all that is known about
  halls holds of these activities, in whatever order they have their turns.

  Main results:
    * `Act.callAll_keepsTo`, `Act.listen_keepsTo`: the caller and the listeners by
      themselves.
    * `Room.turns_are_moves`: all of them together.
    * `Room.heard_in_order`: what follows for the listeners of a venue.
-/
import Mathlib.Logic.Relation
import Parley.Proofs.Listener.Hall
import Parley.Proofs.Polling.Manner
import Parley.Venue.Basic

namespace Parley

open Parley.Polling
open Parley.Listener

variable {ρ : Type}

namespace Venue

/-! ## §1. The listeners of an engine. -/

/-- The listeners of an engine. -/
def listeners (v : Venue ρ) (i : Nat) : List (Subscriber Place) :=
  (v.residents[i]?.map (·.audience.subscribers)).getD []

/-- The hall of the listeners of an engine, with its caller as in another hall. -/
def hall (v : Venue ρ) (i : Nat) (c : Hall Place) : Hall Place :=
  { c with seats := (v.listeners i).map (⟨·, false⟩) }

theorem listener?_eq (v : Venue ρ) (i k : Nat) : v.listener? i k = (v.listeners i)[k]? := by
  unfold listener? listeners
  cases v.residents[i]? <;> rfl

/-- What is done to one listener leaves the others alone. -/
theorem onListener_eq_some {α : Type} {v v' : Venue ρ} {i k : Nat} {a : α}
    {f : Subscriber Place → Option (α × Subscriber Place)} (h : v.onListener i k f = some (a, v')) :
    ∃ l l', (v.listeners i)[k]? = some l ∧ f l = some (a, l')
      ∧ v'.listeners i = (v.listeners i).set k l' := by
  unfold onListener at h
  obtain ⟨r, hr, h⟩ := Option.bind_eq_some_iff.mp h
  obtain ⟨l, hl, h⟩ := Option.bind_eq_some_iff.mp h
  obtain ⟨⟨b, l'⟩, hf, h⟩ := Option.bind_eq_some_iff.mp h
  obtain ⟨rfl, rfl⟩ := Prod.mk.inj (Option.some.inj h)
  obtain ⟨hi, hr'⟩ := List.getElem?_eq_some_iff.mp hr
  refine ⟨l, l', by simpa [listeners, hr] using hl, hf, ?_⟩
  simp [listeners, hi, hr']

theorem hall_set {v v' : Venue ρ} {i k : Nat} {l' : Subscriber Place} (c : Hall Place)
    (h : v'.listeners i = (v.listeners i).set k l') :
    v'.hall i c = { c with seats := (v.hall i c).seats.set k ⟨l', false⟩ } := by
  simp [hall, h, List.map_set]

theorem getElem?_hall {v : Venue ρ} {i k : Nat} {l : Subscriber Place} (c : Hall Place)
    (hl : (v.listeners i)[k]? = some l) : (v.hall i c).seats[k]? = some ⟨l, false⟩ := by
  simp [hall, hl]

end Venue

/-! ## §2. The caller. -/

/-- How far the caller has got: as in a hall, and whether it knows that the place it came for is
its own. -/
abbrev Reached := Hall Place × Bool

/-- The manner of the caller: its turns come to moves in the hall, and a place that is its own is
not taken from it. -/
def asCaller (who : Place) (i size : Nat) : Manner Reached (Venue ρ) where
  place := who
  fits c v := (v.listeners i).length = size ∧ (c.2 = true → ∀ k d l, c.1.posting = some (k, d) →
    (v.listeners i)[k]? = some l → who ∉ l.waiting)
  turn c v c' v' := ∃ moves, (v.hall i c.1).run who moves = some (v'.hall i c'.1)
  still _ _ := ⟨[], rfl⟩
  trans := by
    rintro c₁ v₁ c₂ v₂ c₃ v₃ ⟨moves, hmoves⟩ ⟨more, hmore⟩
    exact ⟨moves ++ more, by rw [Hall.run_append, hmoves, Option.bind_some, hmore]⟩

variable {who : Place} {i size : Nat}

/-- The caller that does not know of a place of its own relies on no more than the listeners. -/
theorem fits_unplaced {c : Hall Place} {v : Venue ρ} (hsize : (v.listeners i).length = size) :
    (asCaller who i size).fits (c, false) v :=
  ⟨hsize, fun hown => absurd hown Bool.false_ne_true⟩

namespace Act

theorem resident_keepsTo {q : Reached → Resident → Prop} {c : Reached}
    (h : ∀ r, r.audience.size = size → q c r) :
    (resident i : Act ρ Resident).KeepsTo (asCaller who i size) q c := by
  intro s hplace hfits
  have hsize := hfits.1
  cases hr : s.state.residents[i]? with
  | none =>
    have hnone : resident i s = none := by
      show andThenOption _ (some _) = none
      simp [andThenOption, andThenPair, Activity.andThen, required, Run.act, hr]
    rw [hnone]
    exact trivial
  | some r =>
    have hsome : resident i s = some (.ended r, s) := by
      show andThenOption _ (some _) = _
      simp [andThenOption, andThenPair, Activity.andThen, required, Run.act, hr]
    rw [hsome]
    simp only [Venue.listeners, hr] at hsize
    exact ⟨hplace, c, ⟨[], rfl⟩, hfits, h r hsize⟩

/-- What the caller does to a listener is a move, if the caller can make one there. -/
theorem onListener_keepsTo {c : Reached} {e : Hall Place} {k : Nat}
    {f : Subscriber Place → Subscriber Place}
    (h : ∀ v l, (asCaller (ρ := ρ) who i size).fits c v → (v.listeners i)[k]? = some l →
      (v.hall i c.1).goOn? who = some { e with seats := (v.hall i c.1).seats.set k ⟨f l, false⟩ }) :
    (Run.act (·.onListener i k fun l => some ((), f l)) : Act ρ Unit).KeepsTo
      (asCaller who i size) (fun c' _ => (e, false) = c') c := by
  refine .act fun v a v' hfits hv => ?_
  obtain ⟨l, l', hl, hf, hset⟩ := Venue.onListener_eq_some hv
  obtain rfl := (Prod.mk.inj (Option.some.inj hf)).2
  refine ⟨(e, false), ⟨[.caller], Hall.run_caller ?_⟩, fits_unplaced (by simpa [hset] using hfits.1), rfl⟩
  rw [Venue.hall_set e hset]
  exact h v l hfits hl

/-- Putting something into a queue: the caller comes, waits for its place, and uses it. -/
theorem post_keepsTo {c : Hall Place} {k : Nat} {d : Delivery Place} {later : List (Item Place)}
    (hposting : c.posting = none) (hahead : c.ahead = .post k d :: later) :
    (post i k d : Act ρ Unit).KeepsTo (asCaller who i size)
      (fun c' _ => ({ c with past := c.past ++ [.post k d], ahead := later }, false) = c')
      (c, false) := by
  let arrived : Hall Place := { c with posting := some (k, d), ahead := later }
  let posted : Hall Place := { c with past := c.past ++ [.post k d], ahead := later }
  refine Run.KeepsTo.andThen (q := fun c' p => (c, false) = c' ∧ who = p) (.here ⟨rfl, rfl⟩) ?_
  rintro _ _ ⟨rfl, rfl⟩
  refine (onListener_keepsTo (e := arrived) fun v l _ hl => ?_).andThen ?_
  · exact Hall.goOn?_come (h := v.hall i c) hposting hahead (Venue.getElem?_hall c hl)
  rintro _ _ rfl
  -- From here on the caller knows that the place is its own, whatever it has to wait for.
  refine Run.KeepsTo.andThen (q := fun c' _ => (arrived, true) = c') (.waitWhile ?_) ?_
  · rintro v ⟨hsize, -⟩ hbusy
    refine ⟨(arrived, true), ⟨[], rfl⟩, ⟨hsize, fun _ j e l hj hl => ?_⟩, rfl⟩
    obtain ⟨rfl, rfl⟩ := Prod.mk.inj (Option.some.inj hj)
    simpa [Venue.listener?_eq, hl] using hbusy
  rintro _ _ rfl
  refine (Run.KeepsTo.pay _).andThen ?_
  rintro _ _ rfl
  refine (onListener_keepsTo (e := posted) fun v l hfits hl => ?_).andThen ?_
  · have hput := Hall.goOn?_put (h := v.hall i arrived) rfl (Venue.getElem?_hall arrived hl)
      (hfits.2 rfl k d l rfl hl)
    rw [hput]
    simp [posted, arrived, Venue.hall, hposting]
  rintro _ _ rfl
  refine Run.KeepsTo.andThen (q := fun c' _ => (posted, false) = c')
    (resident_keepsTo fun _ _ => rfl) ?_
  rintro r _ rfl
  exact .quiet (fun s => ⟨(), _, rfl, rfl, rfl⟩) fun _ => rfl

/-- Waiting for an answer. -/
theorem await_keepsTo {c : Hall Place} {k : Nat} {later : List (Item Place)} (hk : k < size)
    (hposting : c.posting = none) (hahead : c.ahead = .await k :: later) :
    (Run.obtain [.event (.answered who)] fun s =>
      if s.state.isQueued i k (.mark who) then none else some ((), s.state) : Act ρ Unit).KeepsTo
      (asCaller who i size)
      (fun c' _ => ({ c with past := c.past ++ [.await k], ahead := later }, false) = c')
      (c, false) := by
  refine .obtain fun s a v hplace hfits hg => ?_
  split at hg
  · cases hg
  rename_i hout
  obtain rfl := (Prod.mk.inj (Option.some.inj hg)).2
  obtain ⟨l, hl⟩ : ∃ l, (s.state.listeners i)[k]? = some l :=
    ⟨_, List.getElem?_eq_getElem (hfits.1 ▸ hk)⟩
  have hmark : .mark who ∉ l.queue := by
    simpa [Venue.isQueued, Venue.listener?_eq, hl] using hout
  refine ⟨({ c with past := c.past ++ [.await k], ahead := later }, false),
    ⟨[.caller], Hall.run_caller ?_⟩, fits_unplaced hfits.1, rfl⟩
  exact Hall.goOn?_await (h := s.state.hall i c) hposting hahead (Venue.getElem?_hall c hl) hmark

/-- From listener to listener. -/
theorem forIn_keepsTo {body : Nat → PUnit → Act ρ (ForInStep PUnit)}
    {items : Nat → List (Item Place)} {ks : List Nat}
    (hbody : ∀ k ∈ ks, ∀ (c : Hall Place) (later : List (Item Place)), c.posting = none →
      c.ahead = items k ++ later →
      (body k ⟨⟩).KeepsTo (asCaller who i size) (fun c' r =>
        ({ c with past := c.past ++ items k, ahead := later }, false) = c' ∧ r = .yield ⟨⟩)
        (c, false))
    {c : Hall Place} {later : List (Item Place)} (hposting : c.posting = none)
    (hahead : c.ahead = ks.flatMap items ++ later) :
    (forIn ks PUnit.unit body : Act ρ PUnit).KeepsTo (asCaller who i size)
      (fun c' _ => ({ c with past := c.past ++ ks.flatMap items, ahead := later }, false) = c')
      (c, false) := by
  induction ks generalizing c with
  | nil =>
    rw [List.forIn_nil]
    exact .pure (by cases c; simp_all)
  | cons k ks ih =>
    rw [List.forIn_cons]
    refine (hbody k List.mem_cons_self c (ks.flatMap items ++ later) hposting (by
      simpa using hahead)).andThen ?_
    rintro _ _ ⟨rfl, rfl⟩
    have hrest := ih (fun j hj => hbody j (List.mem_cons_of_mem k hj))
      (c := { c with past := c.past ++ items k, ahead := ks.flatMap items ++ later }) hposting rfl
    simpa using hrest

/-- Making an announcement, or a flush. -/
def perform (i : Nat) : Listener.Call → Act ρ Unit
  | .notify news => announce i news
  | .flush => flush i

/-- Making calls, one after the other. -/
def callAll (i : Nat) (calls : List Listener.Call) : Act ρ Unit :=
  calls.forM (perform i)

theorem perform_keepsTo {c : Hall Place} {call : Listener.Call} {later : List (Item Place)}
    (hposting : c.posting = none) (hahead : c.ahead = call.visits who size ++ later) :
    (perform i call : Act ρ Unit).KeepsTo (asCaller who i size)
      (fun c' _ => ({ c with past := c.past ++ call.visits who size, ahead := later }, false) = c')
      (c, false) := by
  cases call with
  | notify news =>
    refine Run.KeepsTo.andThen (q := fun c' r => (c, false) = c' ∧ r.audience.size = size)
      (resident_keepsTo fun r hr => ⟨rfl, hr⟩) ?_
    rintro r _ ⟨rfl, rfl⟩
    refine (forIn_keepsTo (fun k _ c later hposting hahead => ?_) hposting hahead).andThen ?_
    · refine (post_keepsTo hposting hahead).andThen ?_
      rintro _ _ rfl
      exact .pure ⟨rfl, rfl⟩
    · rintro _ _ rfl
      exact .pure rfl
  | flush =>
    refine Run.KeepsTo.andThen (q := fun c' p => (c, false) = c' ∧ who = p) (.here ⟨rfl, rfl⟩) ?_
    rintro _ _ ⟨rfl, rfl⟩
    refine Run.KeepsTo.andThen (q := fun c' r => (c, false) = c' ∧ r.audience.size = size)
      (resident_keepsTo fun r hr => ⟨rfl, hr⟩) ?_
    rintro r _ ⟨rfl, rfl⟩
    refine (forIn_keepsTo (fun k hk c later hposting hahead => ?_) hposting hahead).andThen ?_
    · refine (post_keepsTo hposting hahead).andThen ?_
      rintro _ _ rfl
      refine (await_keepsTo (c := { c with
        past := c.past ++ [.post k (.mark who)], ahead := .await k :: later })
        (List.mem_range.mp hk) hposting rfl).andThen ?_
      rintro _ _ rfl
      exact .pure ⟨by simp [Listener.Call.items], rfl⟩
    · rintro _ _ rfl
      exact .pure rfl

/-- The caller does what its plan says, and has returned from its calls when it is at its end. -/
theorem callAll_keepsTo {c : Hall Place} {calls : List Listener.Call} (hposting : c.posting = none)
    (hahead : c.ahead = plan who size calls) :
    (callAll i calls : Act ρ Unit).KeepsTo (asCaller who i size)
      (fun c' _ => c'.1.past = c.past ++ plan who size calls) (c, false) := by
  induction calls generalizing c with
  | nil => exact .pure (by simp [plan])
  | cons call calls ih =>
    rw [plan_cons, List.append_assoc] at hahead
    refine Run.KeepsTo.andThen (perform_keepsTo hposting hahead) ?_
    rintro _ _ rfl
    -- Returning from the call is no turn of its own.
    refine Run.KeepsTo.inThought (d := ({ c with
      past := c.past ++ call.visits who size ++ [.back call]
      ahead := plan who size calls }, false)) (fun v hfits => ⟨⟨[.caller], ?_⟩, fits_unplaced hfits.1⟩) ?_
    · exact Hall.run_caller (Hall.goOn?_back hposting rfl)
    · simpa [plan_cons, callAll] using ih (c := { c with
        past := c.past ++ call.visits who size ++ [.back call]
        ahead := plan who size calls }) hposting rfl

end Act

/-! ## §3. A listener. -/

/-- A listener that takes a delivery does so in the hall as well, and the callback is over at
once. -/
theorem Listener.Hall.run_take {h : Hall Place} {k : Nat} {l l' : Subscriber Place}
    {taken : Subscriber.Taken Place} (who : Place) (hs : h.seats[k]? = some ⟨l, false⟩)
    (htake : l.take? = some (taken, l')) :
    ∃ moves, h.run who moves = some { h with seats := h.seats.set k ⟨l', false⟩ } := by
  have hk : k < h.seats.length := (List.getElem?_eq_some_iff.mp hs).1
  obtain ⟨reaction, hseat⟩ := Seat.take?_of_subscriber htake
  cases hnews : taken.delivery.news? with
  | none =>
    refine ⟨[.take k reaction], ?_⟩
    simp [Hall.run, Hall.step, hs, hseat, hnews]
  | some a =>
    let busy : Hall Place := { h with seats := h.seats.set k ⟨l', true⟩ }
    have htaken : h.step who (.take k reaction) = some busy := by
      simp [Hall.step, hs, hseat, hnews, busy]
    have hfinished : busy.step who (.finish k)
        = some { h with seats := h.seats.set k ⟨l', false⟩ } := by
      simp [Hall.step, hk, Seat.finish?, busy]
    exact ⟨[.take k reaction, .finish k], by simp [Hall.run, htaken, hfinished]⟩

/-- The manner of a listener: its turns come to moves in the hall, and it puts nobody into line. -/
def asListener (place : Place) (i : Nat) : Manner Unit (Venue ρ) where
  place := place
  fits _ _ := True
  turn _ v _ v' := ∀ who size c, (∃ moves, (v.hall i c.1).run who moves = some (v'.hall i c.1))
    ∧ ((asCaller who i size).fits c v → (asCaller who i size).fits c v')
  still _ _ := fun _ _ _ => ⟨⟨[], rfl⟩, id⟩
  trans := by
    intro _ v₁ _ v₂ _ v₃ h h' who size c
    obtain ⟨⟨moves, hmoves⟩, hfits⟩ := h who size c
    obtain ⟨⟨more, hmore⟩, hfits'⟩ := h' who size c
    exact ⟨⟨moves ++ more, by rw [Hall.run_append, hmoves, Option.bind_some, hmore]⟩,
      hfits' ∘ hfits⟩

/-- Who is not in line is not put there when a listener takes something. -/
theorem fits_of_take {v v' : Venue ρ} {c : Reached} {k : Nat} {l l' : Subscriber Place}
    {taken : Subscriber.Taken Place} (hl : (v.listeners i)[k]? = some l)
    (htake : l.take? = some (taken, l')) (hset : v'.listeners i = (v.listeners i).set k l')
    (hfits : (asCaller who i size).fits c v) : (asCaller who i size).fits c v' := by
  refine ⟨by simpa [hset] using hfits.1, fun hown j d m hj hm => ?_⟩
  have hout := hfits.2 hown j d
  rw [hset, List.getElem?_set] at hm
  split at hm
  · rename_i hkj
    obtain rfl : l' = m := by
      split at hm
      · exact Option.some.inj hm
      · cases hm
    obtain ⟨-, -, ⟨-, hnone, -⟩ | ⟨first, hfirst, -⟩⟩ := Subscriber.take?_cases htake
    · simp [hnone]
    · have hwho := hout l hj (hkj ▸ hl)
      rw [hfirst] at hwho
      exact fun hin => hwho (List.mem_cons_of_mem first hin)
  · exact hout m hj hm

theorem Act.listen_keepsTo (place : Place) (i k : Nat) :
    (Act.listen i k : Act ρ Unit).KeepsTo (asListener place i) (fun _ _ => True) () := by
  refine Run.KeepsTo.iterate (p := fun _ _ => True) (fun _ _ _ => ?_) _ trivial
  refine Run.KeepsTo.andThen (q := fun _ _ => True) (.obtain fun s taken v' _ _ hv => ?_) ?_
  · obtain ⟨l, l', hl, htake, hset⟩ := Venue.onListener_eq_some hv
    refine ⟨(), fun who size c => ⟨?_, fits_of_take hl htake hset⟩, trivial, trivial⟩
    rw [Venue.hall_set c.1 hset]
    exact Hall.run_take who (Venue.getElem?_hall c.1 hl) htake
  · -- Whom it calls and what it tells is nothing to the hall.
    rintro ⟨_ | _, _ | _⟩ _ _
    all_goals exact .quiet (fun s => ⟨.inl (), _, rfl, rfl, rfl⟩) fun r => by cases r <;> trivial

/-! ## §4. All of them. -/

/-- A venue with an activity that makes calls, and one for each listener of an engine. -/
structure Room (ρ : Type) where
  venue : Venue ρ
  caller : Activity Event (Venue ρ) Unit
  listeners : List (Activity Event (Venue ρ) Unit)

namespace Room

/-- The room before anything has had its turn. -/
def opening (v : Venue ρ) (i size : Nat) (calls : List Listener.Call) : Room ρ where
  venue := v
  caller := .waiting (Act.callAll i calls)
  listeners := (List.range size).map fun k => .waiting (Act.listen i k)

/-- A turn of the caller or of a listener, with any credit and in any relay, or something in the
venue that leaves these listeners alone. -/
inductive Turn (i : Nat) (who : Place) (place : Nat → Place) (r : Room ρ) : Room ρ → Prop
  | caller (go : Run Event (Venue ρ) Unit) (s t : Stage Event (Venue ρ))
      (b : Activity Event (Venue ρ) Unit) (hcaller : r.caller = .waiting go)
      (hstate : s.state = r.venue) (hplace : s.place = who) (hgo : go s = some (b, t)) :
      Turn i who place r { r with venue := t.state, caller := b }
  | listener (k : Nat) (go : Run Event (Venue ρ) Unit) (s t : Stage Event (Venue ρ))
      (b : Activity Event (Venue ρ) Unit) (hlistener : r.listeners[k]? = some (.waiting go))
      (hstate : s.state = r.venue) (hplace : s.place = place k) (hgo : go s = some (b, t)) :
      Turn i who place r { r with venue := t.state, listeners := r.listeners.set k b }
  | elsewhere (v : Venue ρ) (hv : v.listeners i = r.venue.listeners i) :
      Turn i who place r { r with venue := v }

/-- What is known in a room after some turns: they came to moves in the hall, and everybody keeps to
its manner. -/
structure Follows (who : Place) (place : Nat → Place) (i : Nat) (h₀ : Hall Place)
    (calls : List Listener.Call) (c : Reached) (r : Room ρ) : Prop where
  moved : ∃ moves, h₀.run who moves = some (r.venue.hall i c.1)
  fits : (asCaller who i h₀.seats.length).fits c r.venue
  caller : r.caller.KeepsTo (asCaller who i h₀.seats.length)
    (fun c' _ => c'.1.past = plan who h₀.seats.length calls) c
  listeners : ∀ (k : Nat) (a : Activity Event (Venue ρ) Unit), r.listeners[k]? = some a →
    a.KeepsTo (asListener (place k) i) (fun _ _ => True) ()

variable {place : Nat → Place} {h₀ : Hall Place} {calls : List Listener.Call} {c : Reached}
  {r r' : Room ρ}

theorem Follows.turn (h : Follows who place i h₀ calls c r) (hturn : Turn i who place r r') :
    ∃ c', Follows who place i h₀ calls c' r' := by
  obtain ⟨moves, hmoves⟩ := h.moved
  cases hturn with
  | caller go s t b hcaller hstate hplace hgo =>
    have hkeeps := h.caller
    rw [hcaller] at hkeeps
    have hturn := hkeeps s hplace (hstate ▸ h.fits)
    rw [hgo] at hturn
    obtain ⟨-, c', ⟨more, hmore⟩, hfits, hb⟩ := hturn
    refine ⟨c', ⟨moves ++ more, ?_⟩, hfits, hb, h.listeners⟩
    rw [Hall.run_append, hmoves, Option.bind_some, ← hstate, hmore]
  | listener k go s t b hlistener hstate hplace hgo =>
    have hturn := h.listeners k _ hlistener s hplace trivial
    rw [hgo] at hturn
    obtain ⟨-, _, hmoved, -, hb⟩ := hturn
    obtain ⟨⟨more, hmore⟩, hfits⟩ := hmoved who h₀.seats.length c
    refine ⟨c, ⟨moves ++ more, ?_⟩, hfits (hstate ▸ h.fits), h.caller, fun j a ha => ?_⟩
    · rw [Hall.run_append, hmoves, Option.bind_some, ← hstate, hmore]
    · rw [List.getElem?_set] at ha
      split at ha
      · rename_i hkj
        split at ha
        · obtain rfl := Option.some.inj ha
          exact hkj ▸ hb
        · cases ha
      · exact h.listeners j a ha
  | elsewhere v hv =>
    have hhall : v.hall i c.1 = r.venue.hall i c.1 := by simp [Venue.hall, hv]
    exact ⟨c, ⟨moves, by rw [hmoves, hhall]⟩, ⟨hv ▸ h.fits.1, fun hown k d l hposting hl =>
      h.fits.2 hown k d l hposting (hv ▸ hl)⟩, h.caller, h.listeners⟩

/-- However the caller, the listeners and others in the venue have their turns, these come to moves
in the hall; and the caller has returned from all calls when it is at its end. -/
theorem turns_are_moves (who : Place) (place : Nat → Place) (v : Venue ρ) (i capacity : Nat)
    (reactions : List (Announcement → Reaction)) (calls : List Listener.Call)
    (hv : v.listeners i = (Audience.new capacity reactions).subscribers)
    (hturns : Relation.ReflTransGen (Turn i who place) (opening v i reactions.length calls) r) :
    ∃ moves h, (Hall.opening who capacity reactions calls).run who moves = some h
      ∧ h.seats = (r.venue.listeners i).map (⟨·, false⟩)
      ∧ ∀ u, r.caller = .ended u → h.returned = calls := by
  have hsize : (Hall.opening who capacity reactions calls).seats.length = reactions.length :=
    (Hall.Inv.opening who capacity reactions calls).seated
  have hfollows : ∃ c,
      Follows who place i (Hall.opening who capacity reactions calls) calls c r := by
    induction hturns with
    | refl =>
      refine ⟨(Hall.opening who capacity reactions calls, false), ⟨[], ?_⟩, fits_unplaced ?_, ?_, ?_⟩
      · simp [Hall.run, Venue.hall, opening, hv, Hall.opening]
      · rw [hsize]
        simp [opening, hv, Audience.new]
      · rw [hsize]
        exact Act.callAll_keepsTo rfl rfl
      · intro k a ha
        simp only [opening, List.getElem?_map] at ha
        obtain ⟨j, -, rfl⟩ := Option.map_eq_some_iff.mp ha
        exact Act.listen_keepsTo (place k) i j
    | tail _ hturn ih =>
      obtain ⟨c, hc⟩ := ih
      exact hc.turn hturn
  obtain ⟨c, ⟨moves, hmoves⟩, -, hcaller, -⟩ := hfollows
  refine ⟨moves, r.venue.hall i c.1, hmoves, rfl, fun u hu => ?_⟩
  rw [hu, hsize] at hcaller
  have hpast : c.1.past = plan who reactions.length calls := hcaller
  show returns c.1.past = calls
  rw [hpast, returns_plan]

/-- So each listener hears what is announced, in order, as far as it has got; and when the caller is
at its end, each has heard all that was announced before a flush. -/
theorem heard_in_order (who : Place) (place : Nat → Place) (v : Venue ρ) (i capacity : Nat)
    (reactions : List (Announcement → Reaction)) (calls : List Listener.Call)
    (hv : v.listeners i = (Audience.new capacity reactions).subscribers)
    (hturns : Relation.ReflTransGen (Turn i who place) (opening v i reactions.length calls) r)
    {l : Subscriber Place} (hl : l ∈ r.venue.listeners i) :
    l.started.map (·.1) <+: newsOf calls
    ∧ ∀ u, r.caller = .ended u → ∀ before after, calls = before ++ .flush :: after →
      newsOf before <+: l.started.map (·.1) := by
  obtain ⟨moves, h, hrun, hseats, hreturned⟩ :=
    turns_are_moves who place v i capacity reactions calls hv hturns
  have hinv := (Hall.Inv.opening who capacity reactions calls).run hrun
  obtain ⟨k, hk⟩ := List.mem_iff_getElem?.mp hl
  have hs : h.seats[k]? = some ⟨l, false⟩ := by simp [hseats, hk]
  exact ⟨hinv.heard_in_turn hs, fun u hu before after hcalls =>
    hinv.flushed ((hreturned u hu).trans hcalls) hs⟩

end Room

end Parley
