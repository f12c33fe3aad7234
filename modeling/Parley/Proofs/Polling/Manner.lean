/-
  Parley.Proofs.Polling.Manner
  ────────────────────────────────
  **WHAT AN ACTIVITY DOES IN ITS TURNS.**

  An activity has turns, and others act on the state in between.  A manner says
  what it may do to the state in a turn, and what it can rely on when it has its
  next one; how far it has got is said by a control.  An activity keeps to a
  manner if each of its turns, from whatever state it may find, is such a turn,
  and if it is at its end as is demanded (`Activity.KeepsTo`).

  The rules follow the ways in which activities are put together: one after the
  other (`Run.KeepsTo.andThen`), again and again (`Run.KeepsTo.iterate`), and the
  waits: `Run.KeepsTo.pay`, `waitWhile`, `obtain`.
-/
import Parley.Polling.Activity

namespace Parley.Polling

/-! ## §1. Manners. -/

/-- The place of an activity, what it finds in its turns when it has got so far, and what it may do
in a turn. -/
structure Manner (κ σ : Type) where
  place : Place
  fits : κ → σ → Prop
  turn : κ → σ → κ → σ → Prop
  still : ∀ c v, turn c v c v
  trans : ∀ {c₁ v₁ c₂ v₂ c₃ v₃}, turn c₁ v₁ c₂ v₂ → turn c₂ v₂ c₃ v₃ → turn c₁ v₁ c₃ v₃

variable {ε σ κ α β : Type}

mutual

/-- The activity has got as far as the control says; what it does from now on keeps to the manner,
and at its end it has got as far as is demanded. -/
def Activity.KeepsTo (m : Manner κ σ) (ends : κ → α → Prop) : Activity ε σ α → κ → Prop
  | .ended a, c => ends c a
  | .waiting go, c => ∀ s, s.place = m.place → m.fits c s.state →
    keepsToOption m ends (go s) c s.state

/-- The same for what a turn that was begun so far, in that state, comes to; it may have failed. -/
def keepsToOption (m : Manner κ σ) (ends : κ → α → Prop) :
    Option (Activity ε σ α × Stage ε σ) → κ → σ → Prop
  | none, _, _ => True
  | some p, c, v => keepsToPair m ends p c v

/-- The same for an activity with the stage that it left. -/
def keepsToPair (m : Manner κ σ) (ends : κ → α → Prop) :
    Activity ε σ α × Stage ε σ → κ → σ → Prop
  | (a, t), c, v => t.place = m.place
    ∧ ∃ c', m.turn c v c' t.state ∧ m.fits c' t.state ∧ a.KeepsTo m ends c'

end

/-- What a run does from so far on keeps to the manner. -/
def Run.KeepsTo (m : Manner κ σ) (ends : κ → α → Prop) (run : Run ε σ α) (c : κ) : Prop :=
  ∀ s, s.place = m.place → m.fits c s.state → keepsToOption m ends (run s) c s.state

/-! ## §2. One after the other. -/

variable {m : Manner κ σ} {q : κ → α → Prop} {ends : κ → β → Prop} {f : α → Run ε σ β}

/-- What was done in a turn so far comes before the rest of it. -/
theorem keepsToOption_of_turn {r : Option (Activity ε σ β × Stage ε σ)} {c c' : κ} {v v' : σ}
    (hturn : m.turn c v c' v') (h : keepsToOption m ends r c' v') : keepsToOption m ends r c v := by
  match r, h with
  | none, _ => exact trivial
  | some (_, _), ⟨hplace, c'', hrest, hfits, ha⟩ =>
    exact ⟨hplace, c'', m.trans hturn hrest, hfits, ha⟩

mutual

theorem Activity.KeepsTo.andThen (hf : ∀ a c, q c a → (f a).KeepsTo m ends c) :
    ∀ (a : Activity ε σ α) (c : κ), a.KeepsTo m q c → ∀ s, s.place = m.place →
      m.fits c s.state → keepsToOption m ends (a.andThen f s) c s.state
  | .ended a, c, h, s, hplace, hfits => hf a c h s hplace hfits
  | .waiting go, c, h, _, hplace, hfits =>
    ⟨hplace, c, m.still c _, hfits, fun t htplace htfits =>
      keepsToOption_andThen hf (go t) c _ (h t htplace htfits)⟩

theorem keepsToOption_andThen (hf : ∀ a c, q c a → (f a).KeepsTo m ends c) :
    ∀ (r : Option (Activity ε σ α × Stage ε σ)) (c : κ) (v : σ), keepsToOption m q r c v →
      keepsToOption m ends (andThenOption f r) c v
  | none, _, _, _ => trivial
  | some p, c, v, h => keepsToPair_andThen hf p c v h

theorem keepsToPair_andThen (hf : ∀ a c, q c a → (f a).KeepsTo m ends c) :
    ∀ (p : Activity ε σ α × Stage ε σ) (c : κ) (v : σ), keepsToPair m q p c v →
      keepsToOption m ends (andThenPair f p) c v
  | (a, t), _, _, ⟨hplace, c', hturn, hfits, ha⟩ =>
    keepsToOption_of_turn hturn (Activity.KeepsTo.andThen hf a c' ha t hplace hfits)

end

namespace Run

/-- First the one run, then the other. -/
theorem KeepsTo.andThen {run : Run ε σ α} {c : κ} (h : run.KeepsTo m q c)
    (hf : ∀ a c, q c a → (f a).KeepsTo m ends c) : (run >>= f).KeepsTo m ends c :=
  fun s hplace hfits => keepsToOption_andThen hf (run s) c s.state (h s hplace hfits)

/-- What is done in thought only may be done first. -/
theorem KeepsTo.inThought {run : Run ε σ α} {c d : κ}
    (hturn : ∀ v, m.fits c v → m.turn c v d v ∧ m.fits d v) (h : run.KeepsTo m q d) :
    run.KeepsTo m q c := by
  intro s hplace hfits
  obtain ⟨hturn, hfits⟩ := hturn s.state hfits
  exact keepsToOption_of_turn hturn (h s hplace hfits)

/-- A run that is at its end at once. -/
theorem KeepsTo.pure {a : α} {c : κ} (h : q c a) :
    (Pure.pure a : Run ε σ α).KeepsTo m q c :=
  fun _ hplace hfits => ⟨hplace, c, m.still c _, hfits, h⟩

/-- Again and again: each round begins as the one before has left it. -/
theorem KeepsTo.iterate {step : β → Run ε σ (β ⊕ α)} {p : κ → β → Prop}
    (hstep : ∀ b c, p c b → (step b).KeepsTo m (fun c => Sum.elim (p c) (q c)) c)
    (n : Nat) {b : β} {c : κ} (hb : p c b) : (iterate step n b).KeepsTo m q c := by
  induction n generalizing b c with
  | zero => exact fun _ _ _ => trivial
  | succ n ih =>
    refine (hstep b c hb).andThen fun r c hr => ?_
    cases r with
    | inl b => exact ih hr
    | inr a => exact .pure hr

/-! ## §3. Single actions. -/

/-- What is done to the state at once. -/
theorem KeepsTo.act {g : σ → Option (α × σ)} {c : κ}
    (h : ∀ v a v', m.fits c v → g v = some (a, v') →
      ∃ c', m.turn c v c' v' ∧ m.fits c' v' ∧ q c' a) :
    (Run.act g : Run ε σ α).KeepsTo m q c := by
  intro s hplace hfits
  unfold Run.act
  cases hg : g s.state with
  | none => exact trivial
  | some p => exact ⟨hplace, h s.state p.1 p.2 hfits hg⟩

/-- What leaves the state and the place alone. -/
theorem KeepsTo.quiet {run : Run ε σ α} {c : κ}
    (hrun : ∀ s, ∃ a t, run s = some (.ended a, t) ∧ t.state = s.state ∧ t.place = s.place)
    (h : ∀ a, q c a) : run.KeepsTo m q c := by
  intro s hplace hfits
  obtain ⟨a, t, hs, hstate, ht⟩ := hrun s
  rw [hs]
  exact ⟨ht.trans hplace, c, hstate ▸ m.still c _, hstate ▸ hfits, h a⟩

/-- The place is the one of the manner. -/
theorem KeepsTo.here {q : κ → Place → Prop} {c : κ} (h : q c m.place) :
    (Run.here : Run ε σ Place).KeepsTo m q c :=
  fun _ hplace hfits => ⟨hplace, c, m.still c _, hfits, hplace ▸ h⟩

/-- After a wait things may be as they are then. -/
theorem KeepsTo.wait {q : κ → Unit → Prop} {c : κ} {waits : List (Wait ε)} (h : q c ()) :
    (Run.wait waits : Run ε σ Unit).KeepsTo m q c :=
  fun _ hplace hfits => ⟨hplace, c, m.still c _, hfits, fun _ htplace htfits =>
    ⟨htplace, c, m.still c _, htfits, h⟩⟩

/-! ## §4. Waits. -/

/-- Who waits for credit does nothing. -/
theorem KeepsTo.afford (c : κ) : (Run.afford : Run ε σ Unit).KeepsTo m (fun c' _ => c = c') c := by
  refine KeepsTo.iterate (p := fun c' _ => c = c') ?_ _ rfl
  rintro _ _ rfl
  refine KeepsTo.andThen (q := fun c' _ => c = c') ?_ ?_
  · exact .quiet (fun s => ⟨s.credit, s, rfl, rfl, rfl⟩) fun _ => rfl
  rintro credit _ rfl
  split
  · refine KeepsTo.andThen (q := fun c' _ => c = c') (.wait rfl) ?_
    rintro _ _ rfl
    exact .pure rfl
  · exact .pure rfl

theorem KeepsTo.pay (c : κ) : (Run.pay : Run ε σ Unit).KeepsTo m (fun c' _ => c = c') c := by
  refine (KeepsTo.afford c).andThen ?_
  rintro _ _ rfl
  exact .quiet (fun s => ⟨(), { s with credit := s.credit - 1 }, rfl, rfl, rfl⟩) fun _ => rfl

/-- Who waits as long as something is so goes on from a state in which it is not so. -/
theorem KeepsTo.waitWhile {q : κ → Unit → Prop} {busy : σ → Bool} {c : κ}
    (h : ∀ v, m.fits c v → busy v = false → ∃ c', m.turn c v c' v ∧ m.fits c' v ∧ q c' ()) :
    (Run.waitWhile busy : Run ε σ Unit).KeepsTo m q c := by
  refine KeepsTo.iterate (p := fun c' _ => c = c') ?_ _ rfl
  rintro _ _ rfl
  refine KeepsTo.andThen (q := fun c' b => if b then c = c' else q c' ()) (.act ?_) ?_
  · rintro v b v' hfits heq
    obtain ⟨rfl, rfl⟩ := Prod.mk.inj (Option.some.inj heq)
    cases hbusy : busy v with
    | true => exact ⟨_, m.still _ _, hfits, rfl⟩
    | false => exact h v hfits hbusy
  · rintro (_ | _) c' hc'
    · exact .pure hc'
    · obtain rfl : c = c' := hc'
      refine KeepsTo.andThen (q := fun c' _ => c = c') (.wait rfl) ?_
      rintro _ _ rfl
      exact .pure rfl

/-- What is obtained is taken from the state as it is at that time. -/
theorem KeepsTo.obtain {waits : List (Wait ε)} {g : Stage ε σ → Option (α × σ)} {c : κ}
    (h : ∀ s a v, s.place = m.place → m.fits c s.state → g s = some (a, v) →
      ∃ c', m.turn c s.state c' v ∧ m.fits c' v ∧ q c' a) :
    (Run.obtain waits g : Run ε σ α).KeepsTo m q c := by
  refine KeepsTo.iterate (p := fun c' _ => c = c') ?_ _ rfl
  rintro _ _ rfl
  refine (KeepsTo.afford _).andThen ?_
  rintro _ _ rfl
  refine KeepsTo.andThen (q := fun c' r => r.elim (c = c') (q c')) ?_ ?_
  · intro s hplace hfits
    unfold Run.attempt
    cases hg : g s with
    | none => exact ⟨hplace, _, m.still _ _, hfits, rfl⟩
    | some p => exact ⟨hplace, h s p.1 p.2 hplace hfits hg⟩
  · rintro (_ | a) c' hc'
    · obtain rfl : c = c' := hc'
      refine KeepsTo.andThen (q := fun c' _ => c = c') (.wait rfl) ?_
      rintro _ _ rfl
      exact .pure rfl
    · refine KeepsTo.andThen (q := fun c _ => c' = c)
        (.quiet (fun s => ⟨(), { s with credit := s.credit - 1 }, rfl, rfl, rfl⟩) fun _ => rfl) ?_
      rintro _ _ rfl
      exact .pure hc'

end Run

end Parley.Polling
