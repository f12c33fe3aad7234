/-
  Parley.Polling.Gate
  ────────────────────────────────
  **MANY WHO SHARE, OR ONE ALONE.**

  Behind a gate there is room for many who share it, or for one who is alone.
  Who finds no room, or others in line, stands in line, too.  When somebody
  leaves, those at the head of the line come in, as far as there is room for
  them; so nobody is overtaken.
-/

namespace Parley.Polling

/-- How a gate is passed. -/
inductive Pass where
  | shared
  | alone
deriving DecidableEq, Repr

/-- A gate: the number of those who share it, whether one is alone behind it, and the line. -/
structure Gate (τ : Type) where
  sharing : Nat := 0
  taken : Bool := false
  line : List (τ × Pass) := []
deriving Repr

namespace Gate

/-! ## §1. In. -/

/-- Whether there is room behind the gate. -/
def hasRoom (g : Gate τ) : Pass → Bool
  | .shared => !g.taken
  | .alone => !g.taken && g.sharing = 0

/-- The gate with one more behind it. -/
def pass (g : Gate τ) : Pass → Gate τ
  | .shared => { g with sharing := g.sharing + 1 }
  | .alone => { g with taken := true }

/-- Pass the gate, if there is room and nobody in line. -/
def enter? (g : Gate τ) (p : Pass) : Option (Gate τ) :=
  if g.line.isEmpty && g.hasRoom p then some (g.pass p) else none

/-- Stand in line. -/
def standInLine (g : Gate τ) (who : τ) (p : Pass) : Gate τ :=
  { g with line := g.line ++ [(who, p)] }

/-- Come to the gate: pass it, or else stand in line. -/
def arrive (g : Gate τ) (who : τ) (p : Pass) : Gate τ :=
  (g.enter? p).getD (g.standInLine who p)

/-- Whether somebody stands in line. -/
def isInLine [BEq τ] (g : Gate τ) (who : τ) : Bool :=
  (g.line.map (·.1)).contains who

/-! ## §2. Out. -/

/-- Let those in who are at the head of a line. -/
def letIn (g : Gate τ) : List (τ × Pass) → List τ × Gate τ
  | [] => ([], { g with line := [] })
  | (who, p) :: rest =>
    if g.hasRoom p then
      let (others, g) := (g.pass p).letIn rest
      (who :: others, g)
    else ([], { g with line := (who, p) :: rest })

/-- Leave, and let others in. -/
def leave (g : Gate τ) (p : Pass) : List τ × Gate τ :=
  letIn
    (match p with
      | .shared => { g with sharing := g.sharing - 1 }
      | .alone => { g with taken := false })
    g.line

/-- Two share the gate, the next wants to be alone, and another one waits behind that. -/
example :
    let two : Gate Nat := { sharing := 2 }
    let line := (two.arrive 7 .alone).arrive 8 .shared
    (two.arrive 6 .shared).isInLine 6 = false
    ∧ line.isInLine 8 = true
    ∧ (line.leave .shared).1 = []
    ∧ ((line.leave .shared).2.leave .shared).1 = [7]
    ∧ (((line.leave .shared).2.leave .shared).2.leave .alone).1 = [8] := by
  decide

end Gate

end Parley.Polling
