/-
  Parley.Polling.Gathering
  ────────────────────────────────
  **A BATCH, SOME OF IT AT A TIME.**

  The members of a batch are activities that end with whether they did
  something.  They are begun in order, and at most so many of them are open at
  a time: when one ends, the next one begins.  Members that are called have
  their turns in the order of the calls.

  The gathering gives its own turn up when no member is called.  It also does,
  and asks for another turn at once, when as many members waited in a row as are
  open, or when two of these were called again within their own turns.
-/
import Parley.Polling.Activity

namespace Parley.Polling

/-- A batch: how many members may be open, those ahead, the number of those begun, what each open
one does next, and how many of those at their end did something. -/
structure Gathering (ε σ : Type) where
  limit : Nat
  ahead : List (Run ε σ Bool)
  begun : Nat := 0
  members : List (Nat × Run ε σ Bool) := []
  count : Nat := 0

namespace Gathering

/-! ## §1. Members. -/

/-- The number of members that are not at their end. -/
def size (g : Gathering ε σ) : Nat :=
  g.ahead.length + g.members.length

/-- The number of members that are begun at once. -/
def room (g : Gathering ε σ) : Nat :=
  g.limit - g.members.length

/-- Begin members while there is room. -/
def fill (g : Gathering ε σ) : Gathering ε σ :=
  { g with
    ahead := g.ahead.drop g.room
    begun := g.begun + (g.ahead.take g.room).length
    members := g.members
      ++ (List.range' g.begun (g.ahead.take g.room).length).zip (g.ahead.take g.room) }

/-- Call the members that `fill` begins. -/
def enroll (g : Gathering ε σ) (outer : Place) (r : Relay ε) : Relay ε :=
  (List.range' g.begun (g.ahead.take g.room).length).foldl (fun r k => r.enroll (k :: outer)) r

/-- A member that begins is not at its end yet. -/
theorem size_fill (g : Gathering ε σ) : g.fill.size = g.size := by
  simp only [size, fill, List.length_drop, List.length_append, List.length_zip, List.length_range',
    List.length_take, Nat.min_self]
  omega

/-- Take the member of a number out. -/
def draw (k : Nat) : List (Nat × α) → Option (α × List (Nat × α))
  | [] => none
  | (n, a) :: rest =>
    if n = k then some (a, rest)
    else (draw k rest).map fun p => (p.1, (n, a) :: p.2)

/-- One member is missing then. -/
theorem length_of_draw {k : Nat} {l rest : List (Nat × α)} {a : α}
    (h : draw k l = some (a, rest)) : rest.length + 1 = l.length := by
  induction l generalizing rest with
  | nil => simp [draw] at h
  | cons head tail ih =>
    obtain ⟨n, b⟩ := head
    by_cases hn : n = k
    · simp only [draw, hn, if_true, Option.some.injEq, Prod.mk.injEq] at h
      simp [← h.2]
    · simp only [draw, if_neg hn, Option.map_eq_some_iff, Prod.mk.injEq, Prod.exists] at h
      obtain ⟨c, others, hd, rfl, rfl⟩ := h
      simp [ih hd]

/-- The gathering when a member has ended. -/
def ended (g : Gathering ε σ) (others : List (Nat × Run ε σ Bool)) (done : Bool) :
    Gathering ε σ :=
  { g with members := others, count := g.count + if done then 1 else 0 }

/-- The gathering when a member waits. -/
def waiting (g : Gathering ε σ) (others : List (Nat × Run ε σ Bool)) (k : Nat)
    (go : Run ε σ Bool) : Gathering ε σ :=
  { g with members := others ++ [(k, go)] }

/-! ## §2. Turns. -/

/-- How a turn of a gathering ends: all members are at their end, or not. -/
inductive Progress (ε σ : Type) where
  | finished (count : Nat)
  | open (rest : Gathering ε σ)

/-- Where a gathering is when no member is called. -/
def progress (g : Gathering ε σ) : Progress ε σ :=
  if g.members.isEmpty then .finished g.count else .open g

/-- Give members their turns.  So many may wait before the gathering does; some were called again
within their turns. -/
def turns (g : Gathering ε σ) (outer : Place) (patience restless : Nat) (s : Stage ε σ) :
    Option (Progress ε σ × Stage ε σ) :=
  match (s.relay.within outer).head? with
  | none => some (g.progress, s)
  | some k =>
    match _h : draw k g.members with
    | none => some (g.progress, s)
    | some (go, others) =>
      match go { s with relay := s.relay.answered (k :: outer), place := k :: outer } with
      | none => none
      | some (.ended done, s) =>
        let g' := (g.ended others done).fill
        g'.turns outer g'.members.length 0
          { s with place := outer, relay := (g.ended others done).enroll outer s.relay }
      | some (.waiting go, s) =>
        let g' := g.waiting others k go
        let restless := restless + if k ∈ s.relay.within outer then 1 else 0
        if patience ≤ 1 ∨ 2 ≤ restless then
          some (.open g', { s with place := outer, relay := s.relay.call outer })
        else g'.turns outer (patience - 1) restless { s with place := outer }
termination_by (g.size, patience)
decreasing_by
  · apply Prod.Lex.left
    have := length_of_draw (by assumption)
    rw [size_fill]
    simp only [size, ended]
    omega
  · have := length_of_draw (by assumption)
    have hs : (g.waiting others k go).size = g.size := by
      simp only [size, waiting, List.length_append, List.length_singleton]
      omega
    rw [hs]
    apply Prod.Lex.right
    omega

/-- A turn of a gathering. -/
def turn (g : Gathering ε σ) (s : Stage ε σ) : Option (Progress ε σ × Stage ε σ) :=
  g.fill.turns s.place g.fill.members.length 0 { s with relay := g.enroll s.place s.relay }

/-- Give a batch its turns until all members are at their end. -/
def finish (g : Gathering ε σ) : Run ε σ Nat :=
  Run.iterate (fun g s =>
    (g.turn s).map fun
      | (.finished count, s) => (.ended (.inr count), s)
      | (.open g, s) => (.waiting fun s => some (.ended (.inl g), s), s)) Run.enough g

end Gathering

end Parley.Polling
