/-
  Parley.Proofs.Batch.Order
  ────────────────────────────────
  **THE ORDER IN WHICH A BATCH IS HANDLED.**

  The records of a batch are handled side by side, a few or many at a time
  (`someAtATime`), and which of them goes on next is left to chance.  As long as
  every lease has an end it makes no difference: a strand that keeps to one
  record (`Strand.IsAbout`) sees nothing of what is done to the others, so each
  comes to the same as if it were alone (`IsAbout.meets_alone`), and together
  they come to what each comes to (`run_interleaved`).

  Handling a record keeps to it if the action does (`isAbout_handleOne`); and an
  action that takes its course does (`isAbout_take`).  So a batch may be handled in
  any order, and as many records at a time as one likes (`handling_order_unseen`).
-/
import Parley.Proofs.Batch.Process
import Parley.Proofs.Ledger.Names

namespace Parley.Batch

open Parley.Query

/-! ## §1. Strands about one record. -/

/-- What is to be seen of a scene by one who looks at the clock and at one record. -/
def Scene.view (s : Scene) (id : String) : Instant × Option Negotiation :=
  (s.world.now, s.world.ledger.find? id)

/-- Whether the lease on the record of an id, if there is one, has an end. -/
def Scene.leaseEnds (s : Scene) (id : String) : Prop :=
  s.world.ledger.leaseEnds id = true

/-- Every step reads and writes the record of an id only, and leaves the clock alone.  As long as the
lease on the record has an end, it goes on having one and the strand does not break down. -/
def Strand.IsAbout {α : Type} (id : String) : Strand Scene α → Prop
  | ended _ => True
  | broken => False
  | step change next =>
    (∀ s k, k ≠ id → (change s).view k = s.view k)
      ∧ (∀ s s', s.view id = s'.view id →
          (change s).view id = (change s').view id ∧ next s = next s')
      ∧ ∀ s, s.leaseEnds id → (change s).leaseEnds id ∧ (next s).IsAbout id

namespace Strand

variable {α β : Type} {id : String} {s s₀ : Scene}

theorem IsAbout.andThen {p : Strand Scene α} {f : α → Strand Scene β} (hp : p.IsAbout id)
    (hf : ∀ a, (f a).IsAbout id) : (p.andThen f).IsAbout id := by
  induction p with
  | ended a => exact hf a
  | broken => exact hp
  | step change next ih =>
    obtain ⟨hothers, hown, hnext⟩ := hp
    refine ⟨hothers, fun s s' hs => ?_, fun s hends => ?_⟩
    · obtain ⟨hview, hsame⟩ := hown s s' hs
      exact ⟨hview, congrArg (·.andThen f) hsame⟩
    · obtain ⟨hkept, habout⟩ := hnext s hends
      exact ⟨hkept, ih s habout⟩

/-- A strand about a record comes to what it comes to alone, as long as others leave the record
alone; and it leaves the others alone. -/
theorem IsAbout.meets_alone {p : Strand Scene α} (hp : p.IsAbout id) (hends : s₀.leaseEnds id)
    (hs : s.view id = s₀.view id) :
    p.Meets (fun s s' => s'.view id = s.view id) (fun s s' => ∀ k, k ≠ id → s'.view k = s.view k)
      (fun a s => some a = (p.run [] s₀).1 ∧ s.view id = (p.run [] s₀).2.view id) s := by
  induction p generalizing s s₀ with
  | ended a => exact fun s' hs' => ⟨rfl, hs'.trans hs⟩
  | broken => exact hp
  | step change next ih =>
    obtain ⟨hothers, hown, hnext⟩ := hp
    intro s' hs'
    obtain ⟨hview, hsame⟩ := hown s' s₀ (hs'.trans hs)
    obtain ⟨hkept, habout⟩ := hnext s₀ hends
    refine ⟨hothers s', ?_⟩
    rw [hsame]
    exact ih s₀ habout hkept hview

end Strand

/-! ## §2. Side by side. -/

section SideBySide

variable {members : List (String × Strand Scene Bool)} {s : Scene}

/-- Strands about different records come, side by side, each to what it comes to alone: this gives
the number of those that did something, and every record as it is then. -/
theorem run_interleaved (picks : List Nat) (hnodup : (members.map (·.1)).Nodup)
    (habout : ∀ m ∈ members, m.2.IsAbout m.1) (s : Scene)
    (hends : ∀ m ∈ members, s.leaseEnds m.1) :
    let r := (interleaved picks (members.map (·.2))).run [] s
    r.1 = some (members.countP fun m => (m.2.run [] s).1 = some true)
      ∧ (∀ m ∈ members, r.2.view m.1 = (m.2.run [] s).2.view m.1)
      ∧ ∀ id, id ∉ members.map (·.1) → r.2.view id = s.view id := by
  intro r
  let leaves (id : String) (s s' : Scene) : Prop := s'.view id = s.view id
  let post (id : String) (done : Bool) (t : Scene) : Prop := ∀ m ∈ members, m.1 = id →
    some done = (m.2.run [] s).1 ∧ t.view id = (m.2.run [] s).2.view id
  have hrefl : ∀ id s, leaves id s s := fun _ _ => rfl
  have htrans : ∀ id s s' s'', leaves id s s' → leaves id s' s'' → leaves id s s'' :=
    fun _ _ _ _ h h' => h'.trans h
  have hmind : AllMind leaves post members s := by
    intro m hm
    refine ((habout m hm).meets_alone (hends m hm) rfl).mono (fun _ _ h => h) (fun _ _ h => h) ?_
    rintro done t hend m' hm' hid
    rw [List.inj_on_of_nodup_map hnodup hm' hm hid]
    exact hend
  let spared (t : Scene) : Prop := ∀ id, id ∉ members.map (·.1) → t.view id = s.view id
  have hkept : ∀ t t' : Scene, (∀ id, leaves id t t') → spared t → spared t' :=
    fun _ _ h ht id hid => (h id).trans (ht id hid)
  have hown : ∀ t t' : Scene, (∀ id, id ∉ members.map (·.1) → leaves id t t') → spared t →
      spared t' := fun _ _ h ht id hid => (h id hid).trans (ht id hid)
  have hmeets := (meets_interleaved hrefl htrans picks hnodup hmind).framed hkept hown fun _ _ => rfl
  have hall : ∀ other ∈ ([] : List (Scene → Scene)), ∀ t, ∀ id, leaves id t (other t) := nofun
  obtain ⟨total, htotal, ⟨ends, hids, hcount, hends⟩, hspared⟩ := hmeets.run (fun _ _ => rfl) hall
  have hclosed : ∀ e ∈ ends, post e.1 e.2 r.2 := fun e he => hends e he r.2 rfl
  have hended : ∀ m ∈ members, ∃ e ∈ ends, e.1 = m.1 := fun m hm =>
    List.mem_map.mp (hids ▸ List.mem_map_of_mem hm)
  -- Which strands did something is told by what they are about.
  let did (id : String) : Bool :=
    members.any fun m => decide (m.1 = id) && decide ((m.2.run [] s).1 = some true)
  have hdid : ∀ m ∈ members, did m.1 = decide ((m.2.run [] s).1 = some true) := by
    intro m hm
    rw [Bool.eq_iff_iff, List.any_eq_true]
    constructor
    · rintro ⟨m', hm', hdone⟩
      obtain ⟨hid, hdone⟩ := Bool.and_eq_true_iff.mp hdone
      rw [← List.inj_on_of_nodup_map hnodup hm' hm (of_decide_eq_true hid)]
      exact hdone
    · exact fun hdone => ⟨m, hm, Bool.and_eq_true_iff.mpr ⟨decide_eq_true rfl, hdone⟩⟩
  refine ⟨?_, fun m hm => ?_, hspared⟩
  · have hends' : ∀ e ∈ ends, e.2 = did e.1 := by
      intro e he
      obtain ⟨m, hm, hid⟩ := List.mem_map.mp (hids ▸ List.mem_map_of_mem he)
      rw [← hid, hdid m hm, ← (hclosed e he m hm hid).1]
      cases e.2 <;> rfl
    have htotal' : total = members.countP fun m => (m.2.run [] s).1 = some true := by
      calc total = (members.map (·.1)).countP did := hcount.trans (countP_ends hids hends')
        _ = members.countP (did ∘ (·.1)) := List.countP_map
        _ = members.countP (fun m => (m.2.run [] s).1 = some true) :=
            List.countP_congr fun m hm => by rw [Function.comp, hdid m hm]
    rw [← htotal']
    exact htotal
  · obtain ⟨e, he, hid⟩ := hended m hm
    rw [← hid]
    exact (hclosed e he m hm hid.symm).2

/-- Strands in another order, and with their steps mixed in another way, come to the same. -/
theorem run_interleaved_perm {members' : List (String × Strand Scene Bool)}
    (hperm : members.Perm members') (picks picks' : List Nat) (hnodup : (members.map (·.1)).Nodup)
    (habout : ∀ m ∈ members, m.2.IsAbout m.1) (s : Scene)
    (hends : ∀ m ∈ members, s.leaseEnds m.1) :
    let r := (interleaved picks (members.map (·.2))).run [] s
    let r' := (interleaved picks' (members'.map (·.2))).run [] s
    r.1.isSome = true ∧ r.1 = r'.1 ∧ r.2.world.ledger.Rearranges r'.2.world.ledger := by
  intro r r'
  obtain ⟨hcount, hown, hothers⟩ := run_interleaved picks hnodup habout s hends
  obtain ⟨hcount', hown', hothers'⟩ := run_interleaved picks' ((hperm.map _).nodup_iff.mp hnodup)
    (fun m hm => habout m (hperm.mem_iff.mpr hm)) s (fun m hm => hends m (hperm.mem_iff.mpr hm))
  refine ⟨Option.isSome_of_eq_some hcount,
    hcount.trans ((congrArg some (hperm.countP_eq _)).trans hcount'.symm), ?_⟩
  have hview : ∀ id, r'.2.view id = r.2.view id := by
    intro id
    by_cases hid : id ∈ members.map (·.1)
    · obtain ⟨m, hm, rfl⟩ := List.mem_map.mp hid
      exact (hown' m (hperm.mem_iff.mp hm)).trans (hown m hm).symm
    · have hid' : id ∉ members'.map (·.1) := fun h => hid ((hperm.map _).mem_iff.mpr h)
      exact (hothers' id hid').trans (hothers id hid).symm
  exact Ledger.rearranges_of_find? fun id => congrArg Prod.snd (hview id)

end SideBySide

/-! ## §3. Some at a time. -/

/-- Whether a strand has come to its end. -/
def Strand.isOver {σ α : Type} : Strand σ α → Bool
  | ended _ => true
  | broken | step .. => false

/-- Work off strands side by side, but begin with one only when fewer than so many of those ahead of
it are still at work.  Which of the strands at work takes the next step is listed. -/
def someAtATime {σ : Type} (limit : Nat) : List Nat → Gather (Strand σ)
  | [], strands => inOrder strands
  | k :: picks, strands =>
    match strands[k]? with
    | some (.step change next) =>
      if (strands.take k).countP (!·.isOver) < limit then
        .step change fun s =>
          (next s).unbroken fun strand => someAtATime limit picks (strands.set k strand)
      else someAtATime limit picks strands
    | some .broken =>
      if (strands.take k).countP (!·.isOver) < limit then .broken
      else someAtATime limit picks strands
    | _ => someAtATime limit picks strands

/-- Every such way to work off strands is one of those without a limit. -/
theorem run_someAtATime {σ : Type} (limit : Nat) (picks : List Nat) (strands : List (Strand σ Bool))
    (s : σ) : ∃ picks', (someAtATime limit picks strands).run [] s
      = (interleaved picks' strands).run [] s := by
  induction picks generalizing strands s with
  | nil => exact ⟨[], rfl⟩
  | cons k picks ih =>
    unfold someAtATime
    cases hk : strands[k]? with
    | none => exact ih strands s
    | some p =>
      cases p with
      | ended a => exact ih strands s
      | broken =>
        simp only
        split
        · refine ⟨[k], ?_⟩
          unfold interleaved
          rw [hk]
        · exact ih strands s
      | step change next =>
        simp only
        split
        · obtain ⟨picks', hsame⟩ := ih (strands.set k (next s)) (change s)
          refine ⟨k :: picks', ?_⟩
          unfold interleaved
          rw [hk]
          show ((next s).unbroken fun strand =>
              someAtATime limit picks (strands.set k strand)).run [] (change s)
            = ((next s).unbroken fun strand =>
              interleaved picks' (strands.set k strand)).run [] (change s)
          cases hnext : next s with
          | broken => rfl
          | _ =>
            rw [hnext] at hsame
            exact hsame
        · exact ih strands s

/-! ## §4. What is about one record. -/

section About

variable {α : Type} {id : String}

/-- A use of the store that reads and writes one record: whether it breaks down, what it gives, and
what becomes of the record, depends on the record and the time. -/
theorem isAbout_use {judged : Ledger → Bool} {f : Instant → Ledger → α × Ledger}
    (own : Instant → Option Negotiation → α × Option Negotiation)
    (hcongr : ∀ l l' : Ledger, l.find? id = l'.find? id → judged l = judged l')
    (hjudged : ∀ l : Ledger, l.leaseEnds id = true → judged l = true)
    (hanswer : ∀ now l, (f now l).1 = (own now (l.find? id)).1)
    (hstored : ∀ now l k,
      (f now l).2.find? k = if k = id then (own now (l.find? id)).2 else l.find? k)
    (hends : ∀ now l, l.leaseEnds id = true → (f now l).2.leaseEnds id = true) :
    (stepwise.use judged f).IsAbout id := by
  let change (now : Instant) (s : Scene) : Scene :=
    if judged s.world.ledger then s.withLedger (f now s.world.ledger).2 else s
  let used (now : Instant) : Strand Scene α :=
    .step (change now) fun s =>
      if judged s.world.ledger then .ended (f now s.world.ledger).1 else .broken
  have hused (now : Instant) : (used now).IsAbout id := by
    refine ⟨fun s k hk => ?_, fun s s' hs => ?_, fun s hs => ?_⟩
    · show (change now s).view k = s.view k
      unfold change
      split
      · refine Prod.ext rfl ?_
        show (f now s.world.ledger).2.find? k = s.world.ledger.find? k
        rw [hstored, if_neg hk]
      · rfl
    · have hfind : s.world.ledger.find? id = s'.world.ledger.find? id := congrArg Prod.snd hs
      have hsame := hcongr _ _ hfind
      show (change now s).view id = (change now s').view id
        ∧ (if judged s.world.ledger then Strand.ended (f now s.world.ledger).1 else .broken)
          = if judged s'.world.ledger then .ended (f now s'.world.ledger).1 else .broken
      have hnow : s.world.now = s'.world.now := congrArg Prod.fst hs
      unfold change
      rw [hsame]
      split
      · refine ⟨Prod.ext hnow ?_, ?_⟩
        · show (f now s.world.ledger).2.find? id = (f now s'.world.ledger).2.find? id
          rw [hstored, hstored, hfind]
        · rw [hanswer, hanswer, hfind]
      · exact ⟨hs, rfl⟩
    · have hyes := hjudged _ hs
      show (change now s).leaseEnds id
        ∧ (if judged s.world.ledger then Strand.ended (f now s.world.ledger).1
          else .broken).IsAbout id
      unfold change
      rw [if_pos hyes, if_pos hyes]
      exact ⟨hends now _ hs, trivial⟩
  refine ⟨fun _ _ _ => rfl, fun s s' hs => ⟨hs, ?_⟩, fun asked hs => ⟨hs, hused asked.world.now⟩⟩
  exact congrArg (fun view => used view.1) hs

/-- What the store answers to a use that it may refuse, and what becomes of one record.  No lease is
left on it. -/
inductive Affects (id : String) (l : Ledger) :
    Except StoreError (α × Option Negotiation) → Except StoreError (α × Ledger) → Prop
  | refused (e : StoreError) : Affects id l (.error e) (.error e)
  | done (a : α) (stored : Option Negotiation) (l' : Ledger)
      (hl' : ∀ k, l'.find? k = if k = id then stored else l.find? k)
      (hlease : stored.bind (·.lease) = none) : Affects id l (.ok (a, stored)) (.ok (a, l'))

/-- A use that judges the lease on the record, and that the store may refuse. -/
theorem isAbout_attempt {f : Instant → Ledger → Except StoreError (α × Ledger)}
    (own : Instant → Option Negotiation → Except StoreError (α × Option Negotiation))
    (h : ∀ now l, Affects id l (own now (l.find? id)) (f now l)) :
    (stepwise.attempt (·.leaseEnds id) f).IsAbout id := by
  refine isAbout_use (fun now stored => match own now stored with
    | .error e => (.error e, stored)
    | .ok (a, stored) => (.ok a, stored)) (fun _ _ hl => Ledger.leaseEnds_congr hl)
    (fun _ hl => hl) (fun now l => ?_) (fun now l k => ?_) fun now l hl => ?_
  · have hl := h now l
    generalize own now (l.find? id) = r, f now l = r' at hl
    cases hl <;> rfl
  · have hl := h now l
    generalize own now (l.find? id) = r, f now l = r' at hl
    cases hl with
    | refused e =>
      by_cases hk : k = id
      · rw [if_pos hk, hk]
      · rw [if_neg hk]
    | done a stored l' hl' hlease => exact hl' k
  · have hown := h now l
    generalize own now (l.find? id) = r, f now l = r' at hown
    cases hown with
    | refused e => exact hl
    | done a stored l' hl' hlease =>
      refine Ledger.leaseEnds_iff.mpr fun lease hfound => ?_
      unfold Ledger.lease? at hfound
      rw [hl', if_pos rfl, hlease] at hfound
      cases hfound

/-- What saving a record comes to, from what is stored under its id. -/
def saveOwn (h : Handle) (n : Negotiation) (now : Instant) :
    Option Negotiation → Except StoreError (Unit × Option Negotiation)
  | none => .ok ((), some (n.withLease none))
  | some stored => (h.checkLease now stored).map fun _ => ((), some (n.withLease none))

/-- What ending a lease comes to, from what is stored under its id. -/
def breakOwn (h : Handle) (id : String) (now : Instant) :
    Option Negotiation → Except StoreError (Unit × Option Negotiation)
  | none => .error (.notFound id)
  | some stored => (h.checkLease now stored).map fun _ => ((), some (stored.withLease none))

/-- Saving a record. -/
theorem isAbout_save (h : Handle) (n : Negotiation) : (stepwise.save h n).IsAbout n.id := by
  refine isAbout_attempt (saveOwn h n) fun now l => ?_
  have hput : ∀ k, (l.put (n.withLease none)).find? k
      = if k = n.id then some (n.withLease none) else l.find? k := fun k => by
    rw [Ledger.find?_put]
    exact if_congr eq_comm rfl rfl
  unfold Ledger.save
  cases l.find? n.id with
  | none => exact .done () _ _ hput rfl
  | some stored =>
    simp only [saveOwn]
    cases h.checkLease now stored with
    | error e => exact .refused e
    | ok _ => exact .done () _ _ hput rfl

/-- Ending a lease. -/
theorem isAbout_release (h : Handle) (id : String) : (stepwise.release h id).IsAbout id := by
  have hbreak : (stepwise.breakLease h id).IsAbout id := by
    refine isAbout_attempt (breakOwn h id) fun now l => ?_
    unfold Ledger.breakLease
    cases hfound : l.find? id with
    | none => exact .refused _
    | some stored =>
      simp only [breakOwn]
      cases h.checkLease now stored with
      | error e => exact .refused e
      | ok _ =>
        refine .done () _ _ (fun k => ?_) rfl
        rw [Ledger.find?_setLease]
        by_cases hk : k = id
        · rw [if_pos hk, if_pos hk, hk, hfound]
          rfl
        · rw [if_neg hk, if_neg hk]
  exact hbreak.andThen fun _ => trivial

/-- Deleting a record. -/
theorem isAbout_erase (id : String) : (stepwise.erase id).IsAbout id :=
  isAbout_use (fun _ stored => (stored.isSome, none)) (fun _ _ _ => rfl) (fun _ _ => rfl)
    (fun _ _ => rfl) (fun _ l k => l.find?_erase id k) fun _ l _ =>
    Ledger.leaseEnds_iff.mpr fun lease hlease => by
      obtain ⟨n, hn, _⟩ := Ledger.find?_of_lease? hlease
      rw [Ledger.find?_erase, if_pos rfl] at hn
      cases hn

end About

/-- An action that takes its course keeps to its record, unless it collapses. -/
theorem isAbout_take (h : Handle) (n : Negotiation) {course : Course}
    (hcourse : course ≠ .collapses) : (course.take stepwise .broken h n).IsAbout n.id := by
  cases course with
  | collapses => exact absurd rfl hcourse
  | reports v => trivial
  | saves form v =>
    refine (isAbout_save h { form with id := n.id }).andThen fun saved => ?_
    cases saved <;> trivial
  | deletes v => exact (isAbout_erase n.id).andThen fun _ => trivial

/-- So does the handling of a record, if the action does. -/
theorem isAbout_handleOne (j : Job) {action : Action (Strand Scene)} {n : Negotiation}
    (h : (action n).IsAbout n.id) : (j.handleOne stepwise action n).IsAbout n.id := by
  have hrelease : (do stepwise.release j.handle n.id; return false : Strand Scene Bool).IsAbout n.id :=
    (isAbout_release j.handle n.id).andThen fun _ => trivial
  unfold Job.handleOne
  split
  · have hpark : (j.park stepwise n).IsAbout n.id :=
      (isAbout_save j.handle (n.withPending true)).andThen fun _ => trivial
    exact hpark.andThen fun _ => trivial
  · refine h.andThen fun v => ?_
    cases v with
    | handled => trivial
    | _ => exact hrelease

/-! ## §5. A batch. -/

/-- When nothing happens in between, the batch is leased, and then it is handled. -/
theorem outcome_undisturbed (j : Job) {w : World} (hw : w.IsTimely j.handle) :
    ((batch j w).map (·.id)).Nodup ∧ ∃ s : Scene, s.world.ledger.leasesEnd = true
      ∧ ∀ gather action, outcome j gather action [] w
        = (gather ((batch j w).map (j.handleOne stepwise action))).run [] s := by
  obtain ⟨later, l, hlater, houtcome, hends, hnodup, _⟩ := outcome_eq j [] hw
  have hidle : ∀ other ∈ later.map Scene.meets, ∀ s, other s = s := by
    intro other hother s
    obtain ⟨happenings, hin, rfl⟩ := List.mem_map.mp hother
    obtain rfl := (hlater happenings hin).resolve_right List.not_mem_nil
    rfl
  refine ⟨hnodup, opening (w.withLedger l), hends, fun gather action => ?_⟩
  rw [houtcome gather action]
  exact Strand.run_idle hidle _ _

/-- Records may be handled in any order, with their steps mixed in any way. -/
theorem run_handleOne_perm (j : Job) {action : Action (Strand Scene)}
    (hown : ∀ n, (action n).IsAbout n.id) {ns ns' : List Negotiation}
    (hnodup : (ns.map (·.id)).Nodup) (hperm : ns.Perm ns') (picks picks' : List Nat) (s : Scene)
    (hends : ∀ n ∈ ns, s.leaseEnds n.id) :
    let r := (interleaved picks (ns.map (j.handleOne stepwise action))).run [] s
    let r' := (interleaved picks' (ns'.map (j.handleOne stepwise action))).run [] s
    r.1.isSome = true ∧ r.1 = r'.1 ∧ r.2.world.ledger.Rearranges r'.2.world.ledger := by
  let member (n : Negotiation) : String × Strand Scene Bool := (n.id, j.handleOne stepwise action n)
  have hids : (ns.map member).map (·.1) = ns.map (·.id) := List.map_map
  have hstrands (ns : List Negotiation) :
      (ns.map member).map (·.2) = ns.map (j.handleOne stepwise action) := List.map_map
  have habout : ∀ m ∈ ns.map member, m.2.IsAbout m.1 := by
    intro m hm
    obtain ⟨n, _, rfl⟩ := List.mem_map.mp hm
    exact isAbout_handleOne j (hown n)
  have hall : ∀ m ∈ ns.map member, s.leaseEnds m.1 := by
    intro m hm
    obtain ⟨n, hn, rfl⟩ := List.mem_map.mp hm
    exact hends n hn
  have hsame := run_interleaved_perm (hperm.map member) picks picks' (hids ▸ hnodup) habout s hall
  rw [hstrands, hstrands] at hsame
  exact hsame

/-- For actions that read and write their own records only, whatever the guard holds back, as long as
the leases that are judged have ends:

    • records with different ids may be handled in any order, from whatever is stored: this gives the
      same number and leaves the same records stored;
    • a job does the same however many records it handles at a time, and whichever of those goes on
      next. -/
theorem handling_order_unseen (j : Job) (action : Action (Strand Scene))
    (hown : ∀ n, (action n).IsAbout n.id) :
    (∀ (ns ns' : List Negotiation) (s : Scene), (ns.map (·.id)).Nodup → ns.Perm ns' →
        (∀ n ∈ ns, s.leaseEnds n.id) →
        let r := (inOrder (ns.map (j.handleOne stepwise action))).run [] s
        let r' := (inOrder (ns'.map (j.handleOne stepwise action))).run [] s
        r.1.isSome = true ∧ r.1 = r'.1 ∧ r.2.world.ledger.Rearranges r'.2.world.ledger)
      ∧ ∀ w : World, w.IsTimely j.handle → ∀ (limit limit' : Nat) (picks picks' : List Nat),
        let r := outcome j (someAtATime limit picks) action [] w
        let r' := outcome j (someAtATime limit' picks') action [] w
        r.1.isSome = true ∧ r.1 = r'.1 ∧ r.2.world.ledger.Rearranges r'.2.world.ledger := by
  refine ⟨fun ns ns' s hnodup hperm hends =>
    run_handleOne_perm j hown hnodup hperm [] [] s hends, ?_⟩
  intro w hw limit limit' picks picks'
  obtain ⟨hnodup, s, hends, hs⟩ := outcome_undisturbed j hw
  rw [hs, hs]
  obtain ⟨free, hfree⟩ :=
    run_someAtATime limit picks ((batch j w).map (j.handleOne stepwise action)) s
  obtain ⟨free', hfree'⟩ :=
    run_someAtATime limit' picks' ((batch j w).map (j.handleOne stepwise action)) s
  rw [hfree, hfree']
  exact run_handleOne_perm j hown hnodup (List.Perm.refl _) free free' s fun n _ =>
    Ledger.leaseEnds_of_leasesEnd hends n.id

/-- Six records: leased and handled one at a time or up to three at a time, and once leased handled in
order or from the last to the first. -/
theorem mixed_batch_order_unseen :
    let action (n : Negotiation) := (mixedCourses n).take stepwise .broken mixedJob.handle n
    let r := outcome mixedJob (someAtATime 1 []) action [] mixedRecords
    let r' := outcome mixedJob (someAtATime 3 [2, 0, 1, 4, 0, 2, 3, 5, 1]) action [] mixedRecords
    let (ns, w) := mixedJob.lease Access.direct mixedRecords
    let handled (ns : List Negotiation) :=
      (inOrder (ns.map (mixedJob.handleOne stepwise action))).run [] (opening w)
    (∀ n, (action n).IsAbout n.id) ∧ (ns.map (·.id)).Nodup ∧ ns.Perm ns.reverse
      ∧ mixedRecords.IsTimely mixedJob.handle
      ∧ r.1 = some 3 ∧ r.1 = r'.1 ∧ r.2.world.ledger.Rearranges r'.2.world.ledger
      ∧ ns.length = 6 ∧ (handled ns).1 = (handled ns.reverse).1
      ∧ (handled ns).2.world.ledger.Rearranges (handled ns.reverse).2.world.ledger := by
  intro action r r'
  have hown : ∀ n, (action n).IsAbout n.id := by
    intro n
    refine isAbout_take mixedJob.handle n ?_
    unfold mixedCourses
    split
    · exact Course.noConfusion
    · split
      · exact Course.noConfusion
      · split <;> exact Course.noConfusion
  obtain ⟨horder, hlimit⟩ := handling_order_unseen mixedJob action hown
  have hw : mixedRecords.IsTimely mixedJob.handle := by decide +kernel
  obtain ⟨_, hcount, hstored⟩ := hlimit mixedRecords hw 1 3 [] [2, 0, 1, 4, 0, 2, 3, 5, 1]
  have hnodup : ((mixedJob.lease Access.direct mixedRecords).1.map (·.id)).Nodup := by
    decide +kernel
  have hends : ∀ n ∈ (mixedJob.lease Access.direct mixedRecords).1,
      (opening (mixedJob.lease Access.direct mixedRecords).2).leaseEnds n.id := fun n _ =>
    Ledger.leaseEnds_of_leasesEnd (by decide +kernel) n.id
  have hperm := (List.reverse_perm (mixedJob.lease Access.direct mixedRecords).1).symm
  obtain ⟨_, hback, hsame⟩ := horder _ _ (opening (mixedJob.lease Access.direct mixedRecords).2)
    hnodup hperm hends
  exact ⟨hown, hnodup, hperm, hw, by decide +kernel, hcount, hstored, by decide +kernel, hback,
    hsame⟩

end Parley.Batch
