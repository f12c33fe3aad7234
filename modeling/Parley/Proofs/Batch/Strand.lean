/-
  Parley.Proofs.Batch.Strand
  ────────────────────────────────
  **WORK DONE STEP BY STEP, WITH OTHERS IN BETWEEN.**

  A strand changes a state that it shares, one step at a time.  Several strands
  can be worked off side by side, their steps in any order (`interleaved`), and
  before any step others may have changed the state (`Strand.run`).  Where one of
  them breaks down, so does the whole work, and the state stays as it is then.

  What a strand comes to does not depend on any of this if each side keeps to
  what it owes the other (`Strand.Meets`):

      rely     what a strand takes of the others between two of its steps
      pledge   what each of its own steps keeps to
      post     what then holds at its end, whatever the others go on to do

  and then it does come to an end.  Strands that leave each other alone come to the
  same side by side as alone (`meets_interleaved`); if one of them always breaks
  down, so does the work (`breaks_interleaved`).
-/
import Parley.Batch.Job
import Mathlib.Data.List.Nodup

namespace Parley.Batch

/-! ## §1. Strands. -/

/-- A computation that changes a shared state step by step.  What comes next depends on the state
that the step was taken in. -/
inductive Strand (σ α : Type) where
  | ended (a : α)
  | broken
  | step (change : σ → σ) (next : σ → Strand σ α)

namespace Strand

variable {σ α β : Type}

/-- One strand after another. -/
def andThen : Strand σ α → (α → Strand σ β) → Strand σ β
  | ended a, f => f a
  | broken, _ => broken
  | step change next, f => .step change fun s => (next s).andThen f

instance : Monad (Strand σ) where
  pure := ended
  bind := andThen

/-- A single step. -/
def once (change : σ → σ) : Strand σ Unit :=
  .step change fun _ => .ended ()

/-- Carry a strand out: what it comes to, unless it breaks down.  Before each step others have changed
the state, as listed; once the list is at its end they have not. -/
def run : Strand σ α → List (σ → σ) → σ → Option α × σ
  | ended a, _, s => (some a, s)
  | broken, _, s => (none, s)
  | step change next, [], s => (next s).run [] (change s)
  | step change next, other :: others, s => (next (other s)).run others (change (other s))

theorem andThen_assoc {γ : Type} (p : Strand σ α) (f : α → Strand σ β) (g : β → Strand σ γ) :
    (p.andThen f).andThen g = p.andThen fun a => (f a).andThen g := by
  induction p with
  | ended a => rfl
  | broken => rfl
  | step change next ih => exact congrArg (Strand.step change) (funext ih)

/-- With no one in between, the one strand is carried out and then the other. -/
theorem run_andThen (p : Strand σ α) (f : α → Strand σ β) (s : σ) :
    (p.andThen f).run [] s = match p.run [] s with
      | (some a, s') => (f a).run [] s'
      | (none, s') => (none, s') := by
  induction p generalizing s with
  | ended a => rfl
  | broken => rfl
  | step change next ih => exact ih s (change s)

/-- Others that change nothing might as well not be there. -/
theorem run_idle {others : List (σ → σ)} (h : ∀ other ∈ others, ∀ s, other s = s)
    (p : Strand σ α) (s : σ) : p.run others s = p.run [] s := by
  induction p generalizing others s with
  | ended a => rfl
  | broken => rfl
  | step change next ih =>
    cases others with
    | nil => rfl
    | cons other others =>
      have hsame : other s = s := h other List.mem_cons_self s
      show (next (other s)).run others (change (other s)) = (next s).run [] (change s)
      rw [hsame, ih s fun o ho => h o (List.mem_cons_of_mem _ ho)]

/-! ## §2. What is owed. -/

/-- Each step of a strand keeps to the pledge, and it does not break down and its end is as it should
be, as long as others do no more than the strand relies on. -/
def Meets (rely pledge : σ → σ → Prop) (post : α → σ → Prop) : Strand σ α → σ → Prop
  | ended a, s => ∀ s', rely s s' → post a s'
  | broken, _ => False
  | step change next, s =>
    ∀ s', rely s s' → pledge s' (change s') ∧ (next s').Meets rely pledge post (change s')

variable {rely rely' pledge pledge' : σ → σ → Prop} {post post' : α → σ → Prop}
  {p : Strand σ α} {s s' : σ}

/-- What others did meanwhile makes no difference. -/
theorem Meets.moved (htrans : ∀ s s' s'', rely s s' → rely s' s'' → rely s s'')
    (h : p.Meets rely pledge post s) (hs : rely s s') : p.Meets rely pledge post s' := by
  cases p with
  | ended a => exact fun s'' hs' => h s'' (htrans s s' s'' hs hs')
  | broken => exact h
  | step change next => exact fun s'' hs' => h s'' (htrans s s' s'' hs hs')

theorem Meets.mono (hrely : ∀ s s', rely' s s' → rely s s')
    (hpledge : ∀ s s', pledge s s' → pledge' s s') (hpost : ∀ a s, post a s → post' a s)
    (h : p.Meets rely pledge post s) : p.Meets rely' pledge' post' s := by
  induction p generalizing s with
  | ended a => exact fun s' hs => hpost a s' (h s' (hrely s s' hs))
  | broken => exact h
  | step change next ih =>
    intro s' hs
    obtain ⟨hstep, hnext⟩ := h s' (hrely s s' hs)
    exact ⟨hpledge _ _ hstep, ih s' hnext⟩

/-- What neither side touches is still there at the end. -/
theorem Meets.framed {frame : σ → Prop} (hrely : ∀ s s', rely s s' → frame s → frame s')
    (hpledge : ∀ s s', pledge s s' → frame s → frame s') (h : p.Meets rely pledge post s)
    (hframe : frame s) : p.Meets rely pledge (fun a s => post a s ∧ frame s) s := by
  induction p generalizing s with
  | ended a => exact fun s' hs => ⟨h s' hs, hrely s s' hs hframe⟩
  | broken => exact h
  | step change next ih =>
    intro s' hs
    obtain ⟨hstep, hnext⟩ := h s' hs
    exact ⟨hstep, ih s' hnext (hpledge _ _ hstep (hrely s s' hs hframe))⟩

/-- The end of a strand lasts. -/
theorem Meets.settled (htrans : ∀ s s' s'', rely s s' → rely s' s'' → rely s s'')
    (h : p.Meets rely pledge post s) :
    p.Meets rely pledge (fun a s => (ended a).Meets rely pledge post s) s := by
  induction p generalizing s with
  | ended a => exact fun s' hs s'' hs' => h s'' (htrans s s' s'' hs hs')
  | broken => exact h
  | step change next ih =>
    intro s' hs
    obtain ⟨hstep, hnext⟩ := h s' hs
    exact ⟨hstep, ih s' hnext⟩

theorem Meets.andThen {f : α → Strand σ β} {post' : β → σ → Prop} (hrefl : ∀ s, rely s s)
    (h : p.Meets rely pledge post s)
    (hf : ∀ a s, post a s → (f a).Meets rely pledge post' s) :
    (p.andThen f).Meets rely pledge post' s := by
  induction p generalizing s with
  | ended a => exact hf a s (h s (hrefl s))
  | broken => exact h
  | step change next ih =>
    intro s' hs
    obtain ⟨hstep, hnext⟩ := h s' hs
    exact ⟨hstep, ih s' hnext⟩

/-- A step that takes what always holds between steps to what should hold at the end. -/
theorem meets_once {change : σ → σ} {pre post : σ → Prop}
    (hpre : ∀ s s', rely s s' → pre s → pre s') (hpost : ∀ s s', rely s s' → post s → post s')
    (hchange : ∀ s, pre s → pledge s (change s) ∧ post (change s)) (h : pre s) :
    (once change).Meets rely pledge (fun _ s => post s) s := by
  intro s' hs
  obtain ⟨hpledge, hafter⟩ := hchange s' (hpre s s' hs h)
  exact ⟨hpledge, fun s'' hs' => hpost _ s'' hs' hafter⟩

/-- Others that do no more than a strand relies on leave it its end. -/
theorem Meets.run {others : List (σ → σ)} (hrefl : ∀ s, rely s s)
    (hothers : ∀ other ∈ others, ∀ s, rely s (other s)) (h : p.Meets rely pledge post s) :
    ∃ a, (p.run others s).1 = some a ∧ post a (p.run others s).2 := by
  induction p generalizing others s with
  | ended a => exact ⟨a, rfl, h s (hrefl s)⟩
  | broken => exact h.elim
  | step change next ih =>
    cases others with
    | nil => exact ih s nofun (h s (hrefl s)).2
    | cons other others =>
      exact ih (other s) (fun o ho => hothers o (List.mem_cons_of_mem _ ho))
        (h (other s) (hothers other List.mem_cons_self s)).2

/-- A strand breaks down whatever others do. -/
def Breaks : Strand σ α → Prop
  | ended _ => False
  | broken => True
  | step _ next => ∀ s, (next s).Breaks

theorem Breaks.run (h : p.Breaks) (others : List (σ → σ)) (s : σ) : (p.run others s).1 = none := by
  induction p generalizing others s with
  | ended a => exact h.elim
  | broken => rfl
  | step change next ih =>
    cases others with
    | nil => exact ih s (h s) [] (change s)
    | cons other others => exact ih (other s) (h (other s)) others (change (other s))

theorem Breaks.andThen (h : p.Breaks) (f : α → Strand σ β) : (p.andThen f).Breaks := by
  induction p with
  | ended a => exact h.elim
  | broken => trivial
  | step change next ih => exact fun s => ih s (h s)

/-- What is to follow breaks down, if the strand comes to that. -/
theorem breaks_andThen {f : α → Strand σ β} (p : Strand σ α) (hf : ∀ a, (f a).Breaks) :
    (p.andThen f).Breaks := by
  induction p with
  | ended a => exact hf a
  | broken => trivial
  | step change next ih => exact fun s => ih s

end Strand

/-! ## §3. Side by side. -/

/-- Go on with a strand, unless it has broken down. -/
def Strand.unbroken {σ α β : Type} (p : Strand σ α) (goOn : Strand σ α → Strand σ β) : Strand σ β :=
  match p with
  | broken => broken
  | p => goOn p

/-- Work off strands side by side: which of them takes the next step is listed.  What is left over
at the end of the list is worked off in order. -/
def interleaved {σ : Type} : List Nat → Gather (Strand σ)
  | [], strands => inOrder strands
  | k :: picks, strands =>
    match strands[k]? with
    | some (.step change next) =>
      .step change fun s => (next s).unbroken fun strand => interleaved picks (strands.set k strand)
    | some .broken => .broken
    | _ => interleaved picks strands

section Breakdowns

variable {σ : Type} {strands : List (Strand σ Bool)} {p : Strand σ Bool}

/-- In order, one strand is enough to break down. -/
theorem breaks_inOrder (hp : p ∈ strands) (h : p.Breaks) :
    (inOrder strands : Strand σ Nat).Breaks := by
  induction strands with
  | nil => cases hp
  | cons one rest ih =>
    rcases List.mem_cons.mp hp with rfl | hp
    · exact h.andThen _
    · exact Strand.breaks_andThen one fun _ => (ih hp).andThen _

/-- So it is side by side. -/
theorem breaks_interleaved (picks : List Nat) (hp : p ∈ strands) (h : p.Breaks) :
    (interleaved picks strands).Breaks := by
  induction picks generalizing strands p with
  | nil => exact breaks_inOrder hp h
  | cons k picks ih =>
    unfold interleaved
    cases hk : strands[k]? with
    | none => exact ih hp h
    | some picked =>
      cases picked with
      | ended a => exact ih hp h
      | broken => trivial
      | step change next =>
        intro s
        obtain ⟨hlt, hpicked⟩ := List.getElem?_eq_some_iff.mp hk
        -- Either the strand that breaks down was picked, or it is still there.
        have hleft : ∃ q ∈ strands.set k (next s), q.Breaks := by
          obtain ⟨i, hi, rfl⟩ := List.getElem_of_mem hp
          by_cases hsame : i = k
          · subst hsame
            rw [hpicked] at h
            exact ⟨next s, List.mem_set hlt _, h s⟩
          · refine ⟨strands[i], ?_, h⟩
            rw [← List.getElem_set_ne (Ne.symm hsame) (by simpa using hi)]
            exact List.getElem_mem _
        obtain ⟨q, hq, hbreaks⟩ := hleft
        have hgoes := ih hq hbreaks
        show ((next s).unbroken fun strand => interleaved picks (strands.set k strand)).Breaks
        cases hnext : next s with
        | broken => trivial
        | _ =>
          rw [hnext] at hgoes
          exact hgoes

end Breakdowns

/-- A strand that meets what it owes goes on. -/
theorem Strand.Meets.unbroken {σ α β : Type} {rely pledge : σ → σ → Prop} {post : α → σ → Prop}
    {p : Strand σ α} {s : σ} (h : p.Meets rely pledge post s) (goOn : Strand σ α → Strand σ β) :
    p.unbroken goOn = goOn p := by
  cases p with
  | broken => exact h.elim
  | _ => rfl

section Members

variable {σ ι : Type}

/-- A strand about something relies on others to leave that alone, and leaves all else alone. -/
abbrev Strand.Minds (leaves : ι → σ → σ → Prop) (post : ι → Bool → σ → Prop) (i : ι)
    (p : Strand σ Bool) (s : σ) : Prop :=
  p.Meets (leaves i) (fun s s' => ∀ k, k ≠ i → leaves k s s') (post i) s

/-- Strands about various things, each of which minds its own. -/
def AllMind (leaves : ι → σ → σ → Prop) (post : ι → Bool → σ → Prop)
    (members : List (ι × Strand σ Bool)) (s : σ) : Prop :=
  ∀ m ∈ members, m.2.Minds leaves post m.1 s

/-- All strands have come to their ends, and those that did something were counted. -/
def AllEnd (leaves : ι → σ → σ → Prop) (post : ι → Bool → σ → Prop) (ids : List ι) (count : Nat)
    (s : σ) : Prop :=
  ∃ ends : List (ι × Bool), ends.map (·.1) = ids ∧ count = ends.countP (·.2)
    ∧ ∀ e ∈ ends, (Strand.ended e.2).Minds leaves post e.1 s

/-- What was counted is what did something. -/
theorem countP_ends {ends : List (ι × Bool)} {ids : List ι} {did : ι → Bool}
    (hids : ends.map (·.1) = ids) (hdid : ∀ e ∈ ends, e.2 = did e.1) :
    ends.countP (·.2) = ids.countP did := by
  calc ends.countP (·.2) = ends.countP (did ∘ (·.1)) :=
        List.countP_congr fun e he => by rw [hdid e he]; rfl
    _ = (ends.map (·.1)).countP did := List.countP_map.symm
    _ = ids.countP did := by rw [hids]

variable {leaves : ι → σ → σ → Prop} {post : ι → Bool → σ → Prop} {s s' : σ}
  {members : List (ι × Strand σ Bool)}

theorem AllMind.moved (htrans : ∀ i s s' s'', leaves i s s' → leaves i s' s'' → leaves i s s'')
    (h : AllMind leaves post members s) (hs : ∀ m ∈ members, leaves m.1 s s') :
    AllMind leaves post members s' :=
  fun m hm => (h m hm).moved (htrans m.1) (hs m hm)

/-- In order the strands come to their ends, and no more is touched than what they are about. -/
theorem meets_inOrder (hrefl : ∀ i s, leaves i s s)
    (htrans : ∀ i s s' s'', leaves i s s' → leaves i s' s'' → leaves i s s'')
    (hnodup : (members.map (·.1)).Nodup) (h : AllMind leaves post members s) :
    (inOrder (members.map (·.2)) : Strand σ Nat).Meets (fun s s' => ∀ i, leaves i s s')
      (fun s s' => ∀ i, i ∉ members.map (·.1) → leaves i s s')
      (AllEnd leaves post (members.map (·.1))) s := by
  -- Over the members: while the first one is at work the rest stay as they are, and while the rest
  -- are at work the end of the first one lasts.
  induction members generalizing s with
  | nil => exact fun s' _ => ⟨[], rfl, rfl, nofun⟩
  | cons m rest ih =>
    rw [List.map_cons, List.nodup_cons] at hnodup
    have hapart : ∀ r ∈ rest, r.1 ≠ m.1 := fun r hr heq =>
      hnodup.1 (heq ▸ List.mem_map_of_mem hr)
    have hrest : AllMind leaves post rest s := fun r hr => h r (List.mem_cons_of_mem m hr)
    have hfirst : m.2.Meets (fun s s' => ∀ i, leaves i s s')
        (fun s s' => ∀ i, i ∉ (m :: rest).map (·.1) → leaves i s s')
        (fun b s => (Strand.ended b).Minds leaves post m.1 s ∧ AllMind leaves post rest s) s := by
      have hsettled : m.2.Meets (fun s s' => ∀ i, leaves i s s') (fun s s' => ∀ k, k ≠ m.1 →
          leaves k s s') (fun b s => (Strand.ended b).Minds leaves post m.1 s) s :=
        ((h m List.mem_cons_self).settled (htrans m.1)).mono (fun _ _ hs => hs m.1)
          (fun _ _ hs => hs) fun _ _ hp => hp
      refine (hsettled.framed ?_ ?_ hrest).mono (fun _ _ hs => hs) ?_ fun _ _ hp => hp
      · exact fun _ _ hs hr => hr.moved htrans fun r _ => hs r.1
      · exact fun _ _ hs hr => hr.moved htrans fun r hin => hs r.1 (hapart r hin)
      · exact fun _ _ hs i hi => hs i fun heq => hi (heq ▸ List.mem_cons_self)
    refine hfirst.andThen (fun s i => hrefl i s) fun b s ⟨hend, hrest⟩ => ?_
    have hlater : (inOrder (rest.map (·.2)) : Strand σ Nat).Meets (fun s s' => ∀ i, leaves i s s')
        (fun s s' => ∀ i, i ∉ (m :: rest).map (·.1) → leaves i s s')
        (fun count s => AllEnd leaves post (rest.map (·.1)) count s
          ∧ (Strand.ended b).Minds leaves post m.1 s) s := by
      refine ((ih hnodup.2 hrest).framed ?_ ?_ hend).mono (fun _ _ hs => hs) ?_ fun _ _ hp => hp
      · exact fun _ _ hs he => he.moved (htrans m.1) (hs m.1)
      · exact fun _ _ hs he => he.moved (htrans m.1) (hs m.1 hnodup.1)
      · exact fun _ _ hs i hi => hs i fun hin => hi (List.mem_cons_of_mem _ hin)
    refine hlater.andThen (fun s i => hrefl i s) fun count s ⟨⟨ends, hkeys, hcount, hends⟩, hend⟩ => ?_
    intro s' hs
    refine ⟨(m.1, b) :: ends, ?_, ?_, ?_⟩
    · rw [List.map_cons, List.map_cons, hkeys]
    · rw [List.countP_cons, ← hcount]
    · intro e he
      rcases List.mem_cons.mp he with rfl | he
      · exact hend.moved (htrans m.1) (hs m.1)
      · exact (hends e he).moved (htrans e.1) (hs e.1)

/-- A strand that has taken a step is about the same as before. -/
theorem keys_set {k : Nat} {i : ι} {p : Strand σ Bool} (hk : members[k]? = some (i, p))
    (q : Strand σ Bool) : (members.set k (i, q)).map (·.1) = members.map (·.1) := by
  obtain ⟨hlt, hmember⟩ := List.getElem?_eq_some_iff.mp hk
  have hlt' : k < (members.map (·.1)).length := by rwa [List.length_map]
  have hkey : (members.map (·.1))[k] = i := by rw [List.getElem_map, hmember]
  rw [List.map_set]
  show (members.map (·.1)).set k i = members.map (·.1)
  rw [← hkey, List.set_getElem_self]

/-- The same holds side by side, in whatever order the steps are taken. -/
theorem meets_interleaved (hrefl : ∀ i s, leaves i s s)
    (htrans : ∀ i s s' s'', leaves i s s' → leaves i s' s'' → leaves i s s'')
    (picks : List Nat) (hnodup : (members.map (·.1)).Nodup) (h : AllMind leaves post members s) :
    (interleaved picks (members.map (·.2))).Meets (fun s s' => ∀ i, leaves i s s')
      (fun s s' => ∀ i, i ∉ members.map (·.1) → leaves i s s')
      (AllEnd leaves post (members.map (·.1))) s := by
  -- Over the picks: the strand that is picked takes a step, and leaves the others as they are.
  induction picks generalizing members s with
  | nil => exact meets_inOrder hrefl htrans hnodup h
  | cons k picks ih =>
    unfold interleaved
    rw [List.getElem?_map]
    cases hk : members[k]? with
    | none => exact ih hnodup h
    | some m =>
      obtain ⟨i, p⟩ := m
      have hin : (i, p) ∈ members := List.mem_of_getElem? hk
      cases p with
      | ended a => exact ih hnodup h
      | broken => exact (h _ hin).elim
      | step change next =>
        intro s' hs
        obtain ⟨hpledge, hnext⟩ := h _ hin s' (hs i)
        refine ⟨fun j hj => hpledge j fun heq => hj (heq ▸ List.mem_map_of_mem hin), ?_⟩
        have hgoes := hnext.unbroken fun strand =>
          interleaved picks ((members.map (·.2)).set k strand)
        have hkeys := keys_set hk (next s')
        have hstrands : (members.map (·.2)).set k (next s')
            = (members.set k (i, next s')).map (·.2) := by
          rw [List.map_set]
        show Strand.Meets _ _ _ ((next s').unbroken fun strand =>
          interleaved picks ((members.map (·.2)).set k strand)) (change s')
        rw [hgoes, hstrands, ← hkeys]
        refine ih (hkeys.symm ▸ hnodup) fun m hm => ?_
        by_cases hi : m.1 = i
        · -- There is one strand only that is about this.
          have hlt : k < members.length := (List.getElem?_eq_some_iff.mp hk).1
          have hself : m = (i, next s') :=
            List.inj_on_of_nodup_map (hkeys.symm ▸ hnodup) hm (List.mem_set hlt _) hi
          rw [hself]
          exact hnext
        · rcases List.mem_or_eq_of_mem_set hm with hold | rfl
          · exact ((h m hold).moved (htrans m.1) (hs m.1)).moved (htrans m.1) (hpledge m.1 hi)
          · exact absurd rfl hi

end Members

end Parley.Batch
