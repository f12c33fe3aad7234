/-
  Parley.Text.Dictionary
  ────────────────────────────────
  **DICTIONARIES.**

  A dictionary holds a value for each of some texts, in order of the texts, and
  each text once.  Two dictionaries that give the same values are equal.

      findEntry k (insertEntry key v d) = if k = key then some v else findEntry k d
-/

namespace Parley

/-! ## §1. Entries. -/

/-- Entries with one more, in order of the keys.  A key that is there already gets the new value. -/
def insertEntry (key : String) (value : α) : List (String × α) → List (String × α)
  | [] => [(key, value)]
  | (k, v) :: rest =>
    if key = k then (key, value) :: rest
    else if key < k then (key, value) :: (k, v) :: rest
    else (k, v) :: insertEntry key value rest

/-- Entries in order of their keys, the last of several with one key. -/
def sortEntries (entries : List (String × α)) : List (String × α) :=
  entries.foldl (fun sorted e => insertEntry e.1 e.2 sorted) []

/-- The value of a key. -/
def findEntry (key : String) (entries : List (String × α)) : Option α :=
  (entries.find? (·.1 = key)).map (·.2)

/-- Entries in strictly ascending order of their keys. -/
def Ascending (entries : List (String × α)) : Prop :=
  entries.Pairwise fun a b => a.1 < b.1

instance (entries : List (String × α)) : Decidable (Ascending entries) :=
  inferInstanceAs (Decidable (List.Pairwise _ _))

/-! ## §2. What insertion does. -/

/-- Inserting an entry changes the value of its key only. -/
theorem findEntry_insertEntry (key k : String) (value : α) (entries : List (String × α)) :
    findEntry k (insertEntry key value entries)
      = if k = key then some value else findEntry k entries := by
  induction entries with
  | nil => by_cases h : k = key <;> simp [insertEntry, findEntry, h, eq_comm]
  | cons e rest ih =>
    obtain ⟨l, v⟩ := e
    simp only [findEntry] at ih ⊢
    unfold insertEntry
    by_cases hkl : key = l
    · subst hkl
      by_cases h : k = key
      · simp [h]
      · simp [h, Ne.symm h]
    · by_cases hlt : key < l
      · by_cases h : k = key
        · simp [hkl, hlt, h]
        · simp [hkl, hlt, h, Ne.symm h]
      · by_cases hl : l = k
        · subst hl
          simp [hkl, hlt, Ne.symm hkl]
        · simp [hkl, hlt, hl, ih]

/-- In sorted entries the value of a key is the one given last. -/
theorem findEntry_sortEntries (k : String) (entries : List (String × α)) :
    findEntry k (sortEntries entries) = findEntry k entries.reverse := by
  have step : ∀ (es acc : List (String × α)),
      findEntry k (es.foldl (fun sorted e => insertEntry e.1 e.2 sorted) acc)
        = (findEntry k es.reverse).or (findEntry k acc) := by
    intro es
    induction es with
    | nil => intro acc; simp [findEntry]
    | cons e es ih =>
      intro acc
      obtain ⟨key, v⟩ := e
      rw [List.foldl_cons, ih, findEntry_insertEntry]
      simp only [findEntry, List.reverse_cons, List.find?_append]
      by_cases h : k = key
      · subst h
        cases List.find? (fun x => decide (x.1 = k)) es.reverse <;> simp
      · cases List.find? (fun x => decide (x.1 = k)) es.reverse <;> simp [h, Ne.symm h]
  have h := step entries []
  simpa [sortEntries, findEntry] using h

/-- The keys after an insertion are the old ones and the new one. -/
theorem mem_insertEntry {key : String} {value : α} {e : String × α} {entries : List (String × α)}
    (h : e ∈ insertEntry key value entries) : e = (key, value) ∨ e ∈ entries := by
  induction entries with
  | nil => simpa [insertEntry] using h
  | cons f rest ih =>
    obtain ⟨k, v⟩ := f
    unfold insertEntry at h
    split at h
    · rcases List.mem_cons.mp h with h | h
      · exact .inl h
      · exact .inr (List.mem_cons_of_mem _ h)
    · split at h
      · rcases List.mem_cons.mp h with h | h
        · exact .inl h
        · exact .inr h
      · rcases List.mem_cons.mp h with h | h
        · exact .inr (by simp [h])
        · exact (ih h).imp_right (List.mem_cons_of_mem _)

/-- Insertion keeps entries ascending. -/
theorem ascending_insertEntry {key : String} {value : α} {entries : List (String × α)}
    (h : Ascending entries) : Ascending (insertEntry key value entries) := by
  induction entries with
  | nil => simp [insertEntry, Ascending]
  | cons f rest ih =>
    obtain ⟨k, v⟩ := f
    obtain ⟨hk, hrest⟩ := List.pairwise_cons.mp h
    unfold insertEntry
    split
    · rename_i heq
      subst heq
      exact List.pairwise_cons.mpr ⟨hk, hrest⟩
    · split
      · rename_i hlt
        refine List.pairwise_cons.mpr ⟨?_, h⟩
        intro e he
        rcases List.mem_cons.mp he with he | he
        · rw [he]; exact hlt
        · exact String.lt_trans hlt (hk e he)
      · rename_i hne hnlt
        refine List.pairwise_cons.mpr ⟨?_, ih hrest⟩
        intro e he
        rcases mem_insertEntry he with he | he
        · rw [he]
          rcases Decidable.em (k < key) with hlt | hlt
          · exact hlt
          · exact absurd (String.le_antisymm (String.not_lt.mp hlt) (String.not_lt.mp hnlt)) hne
        · exact hk e he

/-- Sorted entries are ascending. -/
theorem ascending_sortEntries (entries : List (String × α)) : Ascending (sortEntries entries) := by
  have step : ∀ (es acc : List (String × α)), Ascending acc →
      Ascending (es.foldl (fun sorted e => insertEntry e.1 e.2 sorted) acc) := by
    intro es
    induction es with
    | nil => intro acc h; exact h
    | cons e es ih => intro acc h; exact ih _ (ascending_insertEntry h)
  exact step entries [] List.Pairwise.nil

/-! ## §3. Dictionaries. -/

/-- A dictionary. -/
structure Dictionary (α : Type) where
  entries : List (String × α)
  ascending : Ascending entries
deriving DecidableEq, Repr

namespace Dictionary

/-- The dictionary without entries. -/
def empty : Dictionary α := ⟨[], List.Pairwise.nil⟩

instance : Inhabited (Dictionary α) := ⟨empty⟩

/-- The dictionary of some entries, the last of several with one key. -/
def ofList (entries : List (String × α)) : Dictionary α :=
  ⟨sortEntries entries, ascending_sortEntries entries⟩

/-- The value of a key. -/
def get? (d : Dictionary α) (key : String) : Option α :=
  findEntry key d.entries

end Dictionary

end Parley
