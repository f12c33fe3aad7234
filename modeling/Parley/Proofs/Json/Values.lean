/-
  Parley.Proofs.Json.Values
  ────────────────────────────────
  **THE TEXT OF A VALUE.**

  What is written of a value is read as the value that its numbers make of it
  (`reread`), if each of them is a number of the reader's and nothing is nested
  deeper than the reader goes (`isLegible`), and not at all otherwise
  (`read?_render`).  The steps that the reader counts never run out, since every
  one of them has a character of its own.
-/
import Parley.Proofs.Json.Numerals
import Parley.Proofs.Text.Entries

namespace Parley.Json

open Parley.Decimal
open Parley.Text

/-! ## §1. What the text of a value is read as. -/

mutual

/-- The value that the text of a value is read as, if it is read: with every number as its own text
is read, and objects in the order of their keys. -/
def reread : Json → Json
  | .null => .null
  | .bool b => .bool b
  | .int n => (numberOfText? (toString n)).getD .null
  | .float x => (numberOfText? (dataFormat.render x)).getD .null
  | .text s => .text s
  | .array xs => .array (rereadItems xs)
  | .members es => object (rereadEntries es)

/-- The items of an array as they are read. -/
def rereadItems : List Json → List Json
  | [] => []
  | x :: xs => reread x :: rereadItems xs

/-- The members of an object as they are read. -/
def rereadEntries : List (String × Json) → List (String × Json)
  | [] => []
  | (k, v) :: es => (k, reread v) :: rereadEntries es

end

mutual

/-- Whether the text of a value is read within a number of levels: all of its numbers are, and
nothing in it is nested too deep. -/
def isLegible : Json → Nat → Bool
  | .null, _ | .bool _, _ | .text _, _ => true
  | .int n, _ => (numberOfText? (toString n)).isSome
  | .float x, _ => (numberOfText? (dataFormat.render x)).isSome
  | .array xs, levels => decide (1 < levels) && areLegible xs (levels - 1)
  | .members es, levels => decide (1 < levels) && areEntriesLegible es (levels - 1)

/-- Whether the texts of the items of an array are read. -/
def areLegible : List Json → Nat → Bool
  | [], _ => true
  | x :: xs, levels => isLegible x levels && areLegible xs levels

/-- Whether the texts of the members of an object are read. -/
def areEntriesLegible : List (String × Json) → Nat → Bool
  | [], _ => true
  | (_, v) :: es, levels => isLegible v levels && areEntriesLegible es levels

end

/-! ## §2. What is written. -/

theorem toList_quote (s : String) :
    (quote s).toList = '"' :: (s.toList.flatMap escapeChar ++ ['"']) :=
  String.toList_ofList

theorem toList_array (xs : List Json) :
    (render (.array xs)).toList = '[' :: ((renderItems xs).toList ++ [']']) := by
  rw [render, String.toList_append, String.toList_append]
  rfl

theorem toList_members (es : List (String × Json)) :
    (render (.members es)).toList = '\x7b' :: ((renderEntries es).toList ++ ['\x7d']) := by
  rw [render, String.toList_append, String.toList_append]
  rfl

theorem toList_items (x y : Json) (xs : List Json) : (renderItems (x :: y :: xs)).toList
    = (render x).toList ++ ',' :: (renderItems (y :: xs)).toList := by
  rw [renderItems, String.toList_append, String.toList_append, List.append_assoc]
  rfl

theorem toList_entry (k : String) (v : Json) : (renderEntries [(k, v)]).toList
    = '"' :: (k.toList.flatMap escapeChar ++ '"' :: ':' :: (render v).toList) := by
  rw [renderEntries, String.toList_append, String.toList_append, toList_quote]
  simp

theorem toList_entries (k : String) (v : Json) (e : String × Json) (es : List (String × Json)) :
    (renderEntries ((k, v) :: e :: es)).toList = '"' :: (k.toList.flatMap escapeChar
      ++ '"' :: ':' :: ((render v).toList ++ ',' :: (renderEntries (e :: es)).toList)) := by
  rw [renderEntries, String.toList_append, String.toList_append, String.toList_append,
    String.toList_append, toList_quote]
  simp

/-- The characters that a value's text begins with. -/
def Begins (c : Char) : Prop :=
  c.isDigit = true ∨ c ∈ ['-', 'N', 'i', 'n', 't', 'f', '"', '[', '\x7b']

theorem IsNumber.begins {cs : List Char} (h : IsNumber cs) :
    ∃ c more, cs = c :: more ∧ Begins c := by
  obtain ⟨c, more, hcs, hc⟩ := h.head
  exact ⟨c, more, hcs, hc.imp_right fun hmem => List.mem_append_left _ hmem⟩

theorem render_begins (j : Json) : ∃ c more, (render j).toList = c :: more ∧ Begins c := by
  cases j with
  | null => exact ⟨'n', _, rfl, .inr (by decide)⟩
  | bool b =>
    cases b with
    | false => exact ⟨'f', _, rfl, .inr (by decide)⟩
    | true => exact ⟨'t', _, rfl, .inr (by decide)⟩
  | int n => exact (isNumber_int n).begins
  | float x => exact (isNumber_render x).begins
  | text s => exact ⟨'"', _, toList_quote s, .inr (by decide)⟩
  | array xs => exact ⟨'[', _, toList_array xs, .inr (by decide)⟩
  | members es => exact ⟨'\x7b', _, toList_members es, .inr (by decide)⟩

/-- No space, and no bracket that would close an array. -/
theorem Begins.not_space {c : Char} (h : Begins c) :
    (c = ' ' || c = '\t' || c = '\n' || c = '\r') = false ∧ c ≠ ']' := by
  rcases h with hdigit | hother
  · constructor
    · simp only [Bool.or_eq_false_iff, decide_eq_false_iff_not]
      refine ⟨⟨⟨?_, ?_⟩, ?_⟩, ?_⟩ <;> rintro rfl <;> exact absurd hdigit (by decide)
    · rintro rfl
      exact absurd hdigit (by decide)
  · simp only [List.mem_cons, List.not_mem_nil, or_false] at hother
    rcases hother with rfl | rfl | rfl | rfl | rfl | rfl | rfl | rfl | rfl <;>
      exact ⟨rfl, by decide⟩

theorem skipSpace_of_not {c : Char} (h : (c = ' ' || c = '\t' || c = '\n' || c = '\r') = false)
    (cs : List Char) : skipSpace (c :: cs) = c :: cs :=
  List.dropWhile_cons_of_neg (by rw [h]; exact Bool.false_ne_true)

/-! ## §3. Reading. -/

/-- A number is read in the place of a value. -/
theorem readValue_number {s : String} (h : IsNumber s.toList) (steps levels : Nat)
    {rest : List Char} (hrest : Ends rest) :
    readValue (steps + 1) levels (s.toList ++ rest)
      = (numberOfText? s).map fun v => (v, rest) := by
  rw [← readNumber_of_isNumber h hrest]
  obtain ⟨c, more, hcs, hc⟩ := h.head
  have hspace := (Begins.not_space (hc.imp_right fun hmem => List.mem_append_left _ hmem)).1
  rw [hcs, List.cons_append]
  unfold readValue
  rw [skipSpace_of_not hspace]
  split
  case h_8 => rfl
  case h_1 heq => cases heq
  all_goals
    rename_i heq
    cases heq
    exact absurd hc (by decide)

theorem ends_cons {c : Char} (hc : c ∈ [',', ']', '\x7d']) (rest : List Char) : Ends (c :: rest) := by
  rintro _ _ ⟨⟩
  simp only [List.mem_cons, List.not_mem_nil, or_false] at hc
  rcases hc with rfl | rfl | rfl <;> exact ⟨rfl, by decide⟩

/-- After its bracket an array is read item by item. -/
theorem readValue_array {xs : List Json} (hne : xs ≠ []) (steps levels : Nat) (rest : List Char) :
    readValue (steps + 1) levels ('[' :: ((renderItems xs).toList ++ rest))
      = if levels ≤ 1 then none
        else (readItems steps (levels - 1) ((renderItems xs).toList ++ rest)).map
          fun r => (.array r.1, r.2) := by
  have hbegins : ∃ c more, (renderItems xs).toList = c :: more ∧ Begins c := by
    obtain ⟨x, xs, rfl⟩ := List.exists_cons_of_ne_nil hne
    obtain ⟨c, more, hcs, hc⟩ := render_begins x
    cases xs with
    | nil => exact ⟨c, more, hcs, hc⟩
    | cons y xs =>
      rw [toList_items, hcs]
      exact ⟨c, _, rfl, hc⟩
  obtain ⟨c, more, hcs, hc⟩ := hbegins
  obtain ⟨hspace, hclose⟩ := hc.not_space
  rw [hcs]
  unfold readValue
  rw [skipSpace_of_not (by decide)]
  simp only
  rw [List.cons_append, skipSpace_of_not hspace]
  split
  · rfl
  · split
    · rename_i heq
      exact absurd (List.cons.inj heq).1 hclose
    · rfl

theorem readValue_members {es : List (String × Json)} (hne : es ≠ []) (steps levels : Nat)
    (rest : List Char) : readValue (steps + 1) levels ('\x7b' :: ((renderEntries es).toList ++ rest))
      = if levels ≤ 1 then none
        else (readEntries steps (levels - 1) ((renderEntries es).toList ++ rest)).map
          fun r => (object r.1, r.2) := by
  have hbegins : ∃ more, (renderEntries es).toList = '"' :: more := by
    obtain ⟨⟨k, v⟩, es, rfl⟩ := List.exists_cons_of_ne_nil hne
    cases es with
    | nil => exact ⟨_, toList_entry k v⟩
    | cons e es => exact ⟨_, toList_entries k v e es⟩
  obtain ⟨more, hcs⟩ := hbegins
  rw [hcs]
  unfold readValue
  rw [skipSpace_of_not (by decide)]
  simp only
  rw [List.cons_append, skipSpace_of_not (by decide)]
  rfl

/-- What is nested is read if there is a level for it. -/
theorem nested_eq {α β : Type} (levels : Nat) (b : Bool) (f : α → β) (a : α) :
    (if levels ≤ 1 then none else (if b then some a else none).map f)
      = if (decide (1 < levels) && b) = true then some (f a) else none := by
  by_cases hlevels : levels ≤ 1
  · rw [if_pos hlevels, decide_eq_false (Nat.not_lt.mpr hlevels)]
    rfl
  · rw [if_neg hlevels, decide_eq_true (Nat.not_le.mp hlevels)]
    cases b <;> rfl

section Steps

variable {steps levels : Nat} {b : Bool} {v : Json} {cs rest : List Char}

theorem readItems_last
    (h : readValue steps levels cs = if b then some (v, ']' :: rest) else none) :
    readItems (steps + 1) levels cs = if b then some ([v], rest) else none := by
  unfold readItems
  rw [h]
  cases b <;> rfl

theorem readItems_more
    (h : readValue steps levels cs = if b then some (v, ',' :: rest) else none) :
    readItems (steps + 1) levels cs
      = if b then (readItems steps levels rest).map fun r => (v :: r.1, r.2) else none := by
  rw [readItems, h]
  cases b <;> rfl

/-- A member is read up to its value. -/
theorem readEntries_key (k : String) : readEntries (steps + 1) levels
      ('"' :: (k.toList.flatMap escapeChar ++ '"' :: ':' :: cs))
    = match readValue steps levels cs with
      | none => none
      | some (v, rest) =>
        match skipSpace rest with
        | '\x7d' :: rest => some ([(k, v)], rest)
        | ',' :: rest => (readEntries steps levels rest).map fun r => ((k, v) :: r.1, r.2)
        | _ => none := by
  have hquote (cs : List Char) : skipSpace ('"' :: cs) = '"' :: cs := skipSpace_of_not (by decide) cs
  have hcolon (cs : List Char) : skipSpace (':' :: cs) = ':' :: cs := skipSpace_of_not (by decide) cs
  rw [readEntries, hquote]
  simp only
  rw [readText_flatMap]
  simp only
  rw [hcolon, String.ofList_toList]
  rfl

theorem readEntries_last (k : String)
    (h : readValue steps levels cs = if b then some (v, '\x7d' :: rest) else none) :
    readEntries (steps + 1) levels ('"' :: (k.toList.flatMap escapeChar ++ '"' :: ':' :: cs))
      = if b then some ([(k, v)], rest) else none := by
  rw [readEntries_key, h]
  cases b <;> rfl

theorem readEntries_more (k : String)
    (h : readValue steps levels cs = if b then some (v, ',' :: rest) else none) :
    readEntries (steps + 1) levels ('"' :: (k.toList.flatMap escapeChar ++ '"' :: ':' :: cs))
      = if b then (readEntries steps levels rest).map fun r => ((k, v) :: r.1, r.2) else none := by
  rw [readEntries_key, h]
  cases b <;> rfl

end Steps

theorem exists_step {j : Json} {steps : Nat} (h : 2 * (render j).toList.length ≤ steps) :
    ∃ k, steps = k + 1 := by
  obtain ⟨c, more, hcs, _⟩ := render_begins j
  rw [hcs, List.length_cons] at h
  exact ⟨steps - 1, by omega⟩

mutual

/-- The text of a value is read as the value that its numbers make of it, within a number of steps
that the text has characters for. -/
theorem readValue_render : ∀ (j : Json) (steps levels : Nat) {rest : List Char}, Ends rest →
    2 * (render j).toList.length ≤ steps →
    readValue steps levels ((render j).toList ++ rest)
      = if isLegible j levels then some (reread j, rest) else none
  | .null => by
    intro steps levels rest _ hsteps
    obtain ⟨steps, rfl⟩ := exists_step hsteps
    rfl
  | .bool b => by
    intro steps levels rest _ hsteps
    obtain ⟨steps, rfl⟩ := exists_step hsteps
    cases b <;> rfl
  | .int n => by
    intro steps levels rest hrest hsteps
    obtain ⟨steps, rfl⟩ := exists_step hsteps
    refine (readValue_number (isNumber_int n) steps levels hrest).trans ?_
    unfold isLegible reread
    cases numberOfText? (toString n) <;> rfl
  | .float x => by
    intro steps levels rest hrest hsteps
    obtain ⟨steps, rfl⟩ := exists_step hsteps
    refine (readValue_number (isNumber_render x) steps levels hrest).trans ?_
    unfold isLegible reread
    cases numberOfText? (dataFormat.render x) <;> rfl
  | .text s => by
    intro steps levels rest _ hsteps
    obtain ⟨steps, rfl⟩ := exists_step hsteps
    show readValue (steps + 1) levels ((quote s).toList ++ rest) = some (.text s, rest)
    rw [toList_quote, List.cons_append, List.append_assoc]
    unfold readValue
    rw [skipSpace_of_not (by decide)]
    show (readText (s.toList.flatMap escapeChar ++ '"' :: rest)).map _ = _
    rw [readText_flatMap, Option.map_some, String.ofList_toList]
  | .array [] => by
    intro steps levels rest _ hsteps
    obtain ⟨steps, rfl⟩ := exists_step hsteps
    exact nested_eq levels true (fun r => r) (Json.array [], rest)
  | .array (x :: xs) => by
    intro steps levels rest _ hsteps
    obtain ⟨steps, rfl⟩ := exists_step hsteps
    rw [toList_array, List.length_cons, List.length_append] at hsteps
    have hxs := readItems_render (x :: xs) (List.cons_ne_nil x xs) steps (levels - 1) rest (by omega)
    rw [toList_array, List.cons_append, List.append_assoc, List.singleton_append,
      readValue_array (List.cons_ne_nil x xs), hxs]
    exact nested_eq levels (areLegible (x :: xs) (levels - 1))
      (fun r : List Json × List Char => (Json.array r.1, r.2)) _
  | .members [] => by
    intro steps levels rest _ hsteps
    obtain ⟨steps, rfl⟩ := exists_step hsteps
    exact nested_eq levels true (fun r => r) (object [], rest)
  | .members (e :: es) => by
    intro steps levels rest _ hsteps
    obtain ⟨steps, rfl⟩ := exists_step hsteps
    rw [toList_members, List.length_cons, List.length_append] at hsteps
    have hes := readEntries_render (e :: es) (List.cons_ne_nil e es) steps (levels - 1) rest (by omega)
    rw [toList_members, List.cons_append, List.append_assoc, List.singleton_append,
      readValue_members (List.cons_ne_nil e es), hes]
    exact nested_eq levels (areEntriesLegible (e :: es) (levels - 1))
      (fun r : List (String × Json) × List Char => (object r.1, r.2)) _

theorem readItems_render : ∀ (xs : List Json), xs ≠ [] →
    ∀ (steps levels : Nat) (rest : List Char), 2 * (renderItems xs).toList.length + 1 ≤ steps →
    readItems steps levels ((renderItems xs).toList ++ ']' :: rest)
      = if areLegible xs levels then some (rereadItems xs, rest) else none
  | [], hne => absurd rfl hne
  | [x], _ => by
    intro steps levels rest hsteps
    obtain ⟨steps, rfl⟩ := Nat.exists_eq_add_of_le' (Nat.lt_of_lt_of_le (Nat.succ_pos _) hsteps)
    have hx := readValue_render x steps levels (ends_cons (c := ']') (by decide) rest)
      (Nat.le_of_succ_le_succ hsteps)
    show _ = if (isLegible x levels && true) = true then some ([reread x], rest) else none
    rw [Bool.and_true]
    exact readItems_last hx
  | x :: y :: xs, _ => by
    intro steps levels rest hsteps
    obtain ⟨steps, rfl⟩ := Nat.exists_eq_add_of_le' (Nat.lt_of_lt_of_le (Nat.succ_pos _) hsteps)
    rw [toList_items, List.length_append, List.length_cons] at hsteps
    have hx := readValue_render x steps levels
      (ends_cons (c := ',') (by decide) ((renderItems (y :: xs)).toList ++ ']' :: rest)) (by omega)
    have hxs := readItems_render (y :: xs) (List.cons_ne_nil y xs) steps levels rest (by omega)
    rw [toList_items, List.append_assoc, List.cons_append, readItems_more hx, hxs]
    show _ = if (isLegible x levels && areLegible (y :: xs) levels) = true
      then some (reread x :: rereadItems (y :: xs), rest) else none
    cases isLegible x levels <;> cases areLegible (y :: xs) levels <;> rfl

theorem readEntries_render : ∀ (es : List (String × Json)), es ≠ [] →
    ∀ (steps levels : Nat) (rest : List Char), 2 * (renderEntries es).toList.length + 1 ≤ steps →
    readEntries steps levels ((renderEntries es).toList ++ '\x7d' :: rest)
      = if areEntriesLegible es levels then some (rereadEntries es, rest) else none
  | [], hne => absurd rfl hne
  | [(k, v)], _ => by
    intro steps levels rest hsteps
    obtain ⟨steps, rfl⟩ := Nat.exists_eq_add_of_le' (Nat.lt_of_lt_of_le (Nat.succ_pos _) hsteps)
    rw [toList_entry] at hsteps
    simp only [List.length_cons, List.length_append] at hsteps
    have hv := readValue_render v steps levels (ends_cons (c := '\x7d') (by decide) rest) (by omega)
    have htext : (renderEntries [(k, v)]).toList ++ '\x7d' :: rest = '"' ::
        (k.toList.flatMap escapeChar ++ '"' :: ':' :: ((render v).toList ++ '\x7d' :: rest)) := by
      rw [toList_entry, List.cons_append, List.append_assoc]
      rfl
    show _ = if (isLegible v levels && true) = true then some ([(k, reread v)], rest) else none
    rw [Bool.and_true, htext]
    exact readEntries_last k hv
  | (k, v) :: e :: es, _ => by
    intro steps levels rest hsteps
    obtain ⟨steps, rfl⟩ := Nat.exists_eq_add_of_le' (Nat.lt_of_lt_of_le (Nat.succ_pos _) hsteps)
    rw [toList_entries] at hsteps
    simp only [List.length_cons, List.length_append] at hsteps
    have hv := readValue_render v steps levels
      (ends_cons (c := ',') (by decide) ((renderEntries (e :: es)).toList ++ '\x7d' :: rest)) (by omega)
    have hes := readEntries_render (e :: es) (List.cons_ne_nil e es) steps levels rest (by omega)
    have htext : (renderEntries ((k, v) :: e :: es)).toList ++ '\x7d' :: rest
        = '"' :: (k.toList.flatMap escapeChar ++ '"' :: ':' ::
          ((render v).toList ++ ',' :: ((renderEntries (e :: es)).toList ++ '\x7d' :: rest))) := by
      rw [toList_entries]
      simp only [List.cons_append, List.append_assoc]
    rw [htext, readEntries_more k hv, hes]
    show _ = if (isLegible v levels && areEntriesLegible (e :: es) levels) = true
      then some ((k, reread v) :: rereadEntries (e :: es), rest) else none
    cases isLegible v levels <;> cases areEntriesLegible (e :: es) levels <;> rfl

end

/-- The text of a value is read as the value that its numbers make of it, if it is legible. -/
theorem read?_render (j : Json) :
    read? (render j) = if isLegible j 128 then some (reread j) else none := by
  have hread := readValue_render j (2 * (render j).toList.length + 2) 128 ends_nil
    (Nat.le_add_right _ 2)
  rw [List.append_nil] at hread
  unfold read?
  simp only
  rw [hread]
  cases isLegible j 128 <;> rfl

/-! ## §4. Parts of a value. -/

theorem rereadItems_eq (xs : List Json) : rereadItems xs = xs.map reread := by
  induction xs with
  | nil => rfl
  | cons x xs ih => rw [rereadItems, ih, List.map_cons]

theorem rereadEntries_eq (es : List (String × Json)) :
    rereadEntries es = es.map fun e => (e.1, reread e.2) := by
  induction es with
  | nil => rfl
  | cons e es ih => rw [rereadEntries, ih, List.map_cons]

theorem areLegible_eq (xs : List Json) (levels : Nat) :
    areLegible xs levels = xs.all fun x => isLegible x levels := by
  induction xs with
  | nil => rfl
  | cons x xs ih => rw [areLegible, ih, List.all_cons]

theorem areEntriesLegible_eq (es : List (String × Json)) (levels : Nat) :
    areEntriesLegible es levels = es.all fun e => isLegible e.2 levels := by
  induction es with
  | nil => rfl
  | cons e es ih => rw [areEntriesLegible, ih, List.all_cons]

@[simp] theorem reread_array (xs : List Json) : reread (.array xs) = .array (xs.map reread) := by
  rw [reread, rereadItems_eq]

@[simp] theorem isLegible_array (xs : List Json) (levels : Nat) :
    isLegible (.array xs) (levels + 2) = xs.all fun x => isLegible x (levels + 1) := by
  rw [isLegible, areLegible_eq, decide_eq_true (Nat.lt_add_of_pos_left (Nat.succ_pos levels))]
  rfl

/-- An object is read member by member. -/
@[simp] theorem reread_object (es : List (String × Json)) :
    reread (object es) = object (es.map fun e => (e.1, reread e.2)) := by
  unfold object
  rw [reread, rereadEntries_eq, ← sortEntries_map]
  unfold object
  rw [sortEntries_idem]

theorem isLegible_object {es : List (String × Json)} (hkeys : (es.map (·.1)).Nodup) (levels : Nat) :
    isLegible (object es) (levels + 2) = es.all fun e => isLegible e.2 (levels + 1) := by
  unfold object
  rw [isLegible, areEntriesLegible_eq, decide_eq_true (Nat.lt_add_of_pos_left (Nat.succ_pos levels)),
    Bool.true_and, Bool.eq_iff_iff, List.all_eq_true, List.all_eq_true]
  exact forall_congr' fun e => imp_congr_left (mem_sortEntries hkeys)

end Parley.Json
