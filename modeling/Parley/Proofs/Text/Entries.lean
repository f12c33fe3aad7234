/-
  Parley.Proofs.Text.Entries
  ────────────────────────────────
  **ENTRIES IN THE ORDER OF THEIR KEYS.**

  Entries that are in order stay as they are, and in entries that have each key
  once nothing gets lost when they are put in order (`findEntry_object`,
  `mem_sortEntries`).  The order depends on the keys only, so values may be
  changed before or after (`sortEntries_map`).
-/
import Parley.Text.Dictionary

namespace Parley

/-! ## §1. Entries in order. -/

/-- A key that is greater than all others comes last. -/
theorem insertEntry_of_last {key : String} (value : α) {entries : List (String × α)}
    (h : ∀ e ∈ entries, e.1 < key) : insertEntry key value entries = entries ++ [(key, value)] := by
  induction entries with
  | nil => rfl
  | cons e rest ih =>
    obtain ⟨k, v⟩ := e
    have hlt : k < key := h (k, v) List.mem_cons_self
    have hne : key ≠ k := fun heq => String.lt_irrefl k (heq ▸ hlt)
    have hnot : ¬ key < k := String.lt_asymm hlt
    unfold insertEntry
    rw [if_neg hne, if_neg hnot, ih fun e he => h e (List.mem_cons_of_mem _ he)]
    rfl

/-- Entries that are in order stay as they are. -/
theorem sortEntries_of_ascending {entries : List (String × α)} (h : Ascending entries) :
    sortEntries entries = entries := by
  have hfold (es sorted : List (String × α)) (h : Ascending (sorted ++ es)) :
      es.foldl (fun sorted e => insertEntry e.1 e.2 sorted) sorted = sorted ++ es := by
    induction es generalizing sorted with
    | nil => rw [List.append_nil, List.foldl_nil]
    | cons e es ih =>
      have hlast : ∀ s ∈ sorted, s.1 < e.1 := fun s hs =>
        (List.pairwise_append.mp h).2.2 s hs e List.mem_cons_self
      have hnext : sorted ++ [(e.1, e.2)] ++ es = sorted ++ e :: es := by simp
      rw [List.foldl_cons, insertEntry_of_last e.2 hlast, ih _ (hnext ▸ h), hnext]
  exact hfold entries [] h

theorem insertEntry_map (f : α → β) (key : String) (value : α) (entries : List (String × α)) :
    insertEntry key (f value) (entries.map fun e => (e.1, f e.2))
      = (insertEntry key value entries).map fun e => (e.1, f e.2) := by
  induction entries with
  | nil => rfl
  | cons e rest ih =>
    rw [List.map_cons]
    unfold insertEntry
    by_cases heq : key = e.1
    · rw [if_pos heq, if_pos heq]
      rfl
    · rw [if_neg heq, if_neg heq]
      by_cases hlt : key < e.1
      · rw [if_pos hlt, if_pos hlt]
        rfl
      · rw [if_neg hlt, if_neg hlt, ih]
        rfl

/-- Values may be changed before or after the entries are put in order. -/
theorem sortEntries_map (f : α → β) (entries : List (String × α)) :
    sortEntries (entries.map fun e => (e.1, f e.2))
      = (sortEntries entries).map fun e => (e.1, f e.2) := by
  have hfold (es sorted : List (String × α)) :
      (es.map fun e => (e.1, f e.2)).foldl (fun sorted e => insertEntry e.1 e.2 sorted)
          (sorted.map fun e => (e.1, f e.2))
        = (es.foldl (fun sorted e => insertEntry e.1 e.2 sorted) sorted).map
          fun e => (e.1, f e.2) := by
    induction es generalizing sorted with
    | nil => rfl
    | cons e es ih =>
      rw [List.map_cons, List.foldl_cons, List.foldl_cons, ← ih, ← insertEntry_map]
  exact hfold entries []

theorem sortEntries_idem (entries : List (String × α)) :
    sortEntries (sortEntries entries) = sortEntries entries :=
  sortEntries_of_ascending (ascending_sortEntries entries)

/-! ## §2. Entries that have each key once. -/

theorem findEntry_of_mem {entries : List (String × α)} (hkeys : (entries.map (·.1)).Nodup)
    {key : String} {value : α} (h : (key, value) ∈ entries) :
    findEntry key entries = some value := by
  induction entries with
  | nil => cases h
  | cons e rest ih =>
    rw [List.map_cons, List.nodup_cons] at hkeys
    unfold findEntry
    rcases List.mem_cons.mp h with rfl | hrest
    · simp
    · have hne : e.1 ≠ key := fun heq => hkeys.1 (heq ▸ List.mem_map_of_mem hrest)
      rw [List.find?_cons_of_neg (by simpa using hne)]
      exact ih hkeys.2 hrest

/-- In an object that has each key once, what is given for a key is found under it. -/
theorem findEntry_object {entries : List (String × α)} (hkeys : (entries.map (·.1)).Nodup)
    {key : String} {value : α} (h : (key, value) ∈ entries) :
    findEntry key (sortEntries entries) = some value := by
  rw [findEntry_sortEntries]
  refine findEntry_of_mem ?_ (List.mem_reverse.mpr h)
  rw [List.map_reverse]
  exact (List.reverse_perm _).nodup_iff.mpr hkeys

theorem findEntry_object_none {entries : List (String × α)} {key : String}
    (h : key ∉ entries.map (·.1)) : findEntry key (sortEntries entries) = none := by
  rw [findEntry_sortEntries]
  unfold findEntry
  rw [Option.map_eq_none_iff, List.find?_eq_none]
  intro e he hkey
  exact h (of_decide_eq_true hkey ▸ List.mem_map_of_mem (List.mem_reverse.mp he))

theorem mem_of_findEntry {key : String} {value : α} {entries : List (String × α)}
    (h : findEntry key entries = some value) : (key, value) ∈ entries := by
  obtain ⟨e, he, rfl⟩ := Option.map_eq_some_iff.mp h
  have hfound := List.find?_some he
  have hkey : e.1 = key := of_decide_eq_true hfound
  exact hkey ▸ List.mem_of_find?_eq_some he

/-- Nothing gets lost. -/
theorem mem_sortEntries {entries : List (String × α)} (hkeys : (entries.map (·.1)).Nodup)
    {e : String × α} : e ∈ sortEntries entries ↔ e ∈ entries := by
  have hfold (es sorted : List (String × α))
      (h : e ∈ es.foldl (fun sorted e => insertEntry e.1 e.2 sorted) sorted) :
      e ∈ es ∨ e ∈ sorted := by
    induction es generalizing sorted with
    | nil => exact .inr h
    | cons d es ih =>
      rcases ih _ h with hes | hinsert
      · exact .inl (List.mem_cons_of_mem d hes)
      · rcases mem_insertEntry hinsert with rfl | hsorted
        · exact .inl List.mem_cons_self
        · exact .inr hsorted
  constructor
  · intro h
    exact (hfold entries [] h).resolve_right List.not_mem_nil
  · intro h
    exact mem_of_findEntry (findEntry_object hkeys h)

end Parley
