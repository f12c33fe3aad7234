/-
  Parley.Proofs.Settings.Defaults
  ────────────────────────────────
  **DEFAULTS BENEATH OTHER LAYERS.**

  The defaults are merged in twice: as the lowest layer, and when the merged
  tree is read.  The layer makes no difference.  At the place of a setting there
  is the same with it and without it, or the default and nothing, and every
  entry of a later layer keeps that so (`IsBeneath.overlay`); so a setting is
  what the other layers give, and else the default (`readsAs_given?`).
-/
import Parley.Proofs.Settings.Places

namespace Parley.Settings

open Parley.Json Parley.Decimal Setting

variable {d : Json} {name : String}

/-! ## §1. A default beneath other layers. -/

/-- What is found at a place over a default, and what without it. -/
inductive Beneath (d : Json) : Option Json → Option Json → Prop
  | same (found : Option Json) : Beneath d found found
  | absent : Beneath d (some d) none
  | emptied : Beneath d (some d) (some (.members []))

/-- An empty tree is as good as nothing. -/
theorem changed_empty (value : Json) (rest : List Step) :
    changed value rest (some (.members [])) = changed value rest none := by
  rcases changed_plain (d := .members []) rfl rfl value rest with hsame | ⟨hkept, hnone⟩
  · exact hsame
  · rw [hkept, hnone]

theorem Beneath.changed (hentries : entriesOf d = []) (hitems : itemsOf d = [])
    {upper lower : Option Json} (h : Beneath d upper lower) (value : Json) (rest : List Step) :
    Beneath d (some (changed value rest upper)) (some (changed value rest lower)) := by
  have hnone : Beneath d (some (Settings.changed value rest (some d)))
      (some (Settings.changed value rest none)) := by
    rcases changed_plain hentries hitems value rest with hsame | ⟨hkept, hempty⟩
    · rw [hsame]
      exact .same _
    · rw [hkept, hempty]
      exact .emptied
  cases h with
  | same => exact .same _
  | absent => exact hnone
  | emptied =>
    rw [changed_empty]
    exact hnone

/-- The same for a section, of which one setting is looked at: once the section is no tree any more,
the defaults are gone. -/
inductive SectionBeneath (name : String) (d : Json) : Option Json → Option Json → Prop
  | same (found : Option Json) : SectionBeneath name d found found
  | trees {upper : Json} {lower : Option Json} (hupper : isTree upper = true)
      (hlower : ∀ j, lower = some j → isTree j = true)
      (h : Beneath d (child name upper) (lower.bind (child name))) :
      SectionBeneath name d (some upper) lower

/-- Trees stay one above the other when both take the same entries in. -/
theorem Beneath.assignAll (hentries : entriesOf d = []) (hitems : itemsOf d = [])
    {upper lower : Json} (h : Beneath d (child name upper) (child name lower))
    (incoming : List (String × Json)) :
    Beneath d (child name (assignAll upper incoming)) (child name (assignAll lower incoming)) := by
  induction incoming generalizing upper lower with
  | nil =>
    unfold Settings.assignAll
    exact h
  | cons e incoming ih =>
    unfold Settings.assignAll
    refine ih ?_
    rw [child_assign, child_assign]
    by_cases hkey : name = lowerCase e.1
    · rw [if_pos hkey, if_pos hkey, ← hkey]
      exact h.changed hentries hitems e.2 []
    · rw [if_neg hkey, if_neg hkey]
      exact h

theorem SectionBeneath.changed (hentries : entriesOf d = []) (hitems : itemsOf d = [])
    {upper lower : Option Json} (h : SectionBeneath name d upper lower) (value : Json)
    (rest : List Step) :
    SectionBeneath name d (some (changed value rest upper)) (some (changed value rest lower)) := by
  cases h with
  | same => exact .same _
  | @trees upper lower hupper hlower h =>
    cases rest with
    | nil =>
      cases value with
      | members incoming =>
        show SectionBeneath name d (some (assignAll upper incoming))
          (some (assignAll (lower.getD (.members [])) incoming))
        have htree : isTree (lower.getD (.members [])) = true := by
          cases lower with
          | none => rfl
          | some j => exact hlower j rfl
        have hchild : lower.bind (child name) = child name (lower.getD (.members [])) := by
          cases lower <;> rfl
        rw [hchild] at h
        refine .trees (isTree_assignAll hupper incoming) ?_ (h.assignAll hentries hitems incoming)
        rintro _ ⟨⟩
        exact isTree_assignAll htree incoming
      | _ => exact .same _
    | cons step rest =>
      have hchild : lower.bind (child name) = child name (lower.getD .null) := by
        cases lower <;> rfl
      show SectionBeneath name d (some (assignPath upper value (step :: rest)))
        (some (assignPath (lower.getD .null) value (step :: rest)))
      cases step with
      | key key =>
        refine .trees (isTree_assignPath key rest upper value) ?_ ?_
        · rintro _ ⟨⟩
          exact isTree_assignPath key rest _ value
        · rw [Option.bind_some, child_assignPath, child_assignPath]
          by_cases hkey : name = lowerCase key
          · rw [if_pos hkey, if_pos hkey, ← hkey]
            rw [hchild] at h
            exact h.changed hentries hitems value rest
          · rw [if_neg hkey, if_neg hkey, ← hchild]
            exact h
      | index place =>
        -- Neither has items, so both become the same list.
        obtain ⟨entries, rfl⟩ := eq_members_of_isTree hupper
        have hnone : itemsOf (lower.getD .null) = [] := by
          cases lower with
          | none => rfl
          | some j =>
            obtain ⟨entries', rfl⟩ := eq_members_of_isTree (hlower j rfl)
            rfl
        have hsame : assignPath (.members entries) value (.index place :: rest)
            = assignPath (lower.getD .null) value (.index place :: rest) := by
          cases rest <;> (unfold assignPath; rw [hnone]; rfl)
        rw [hsame]
        exact .same _

/-! ## §2. The place of a setting. -/

namespace Setting

variable {x : Setting}

/-- The default of a setting, as the defaults have it. -/
def fallback (x : Setting) : Json :=
  (x.find? ({} : Settings).toJson).getD .null

theorem entriesOf_fallback (x : Setting) : entriesOf x.fallback = [] := by
  cases x <;> rfl

theorem itemsOf_fallback (x : Setting) : itemsOf x.fallback = [] := by
  cases x <;> rfl

theorem read?_fallback (x : Setting) : x.read? x.fallback = some (x.get {}) := by
  cases x with
  | strategy =>
    have hchoice : lenientChoice? RetryStrategy.ofName? (.text "exponential")
        = some .exponential := by decide +kernel
    exact hchoice
  | _ => rfl

/-- Two trees, with the defaults and without them, at the place of a setting. -/
def IsBeneath (x : Setting) (upper lower : Json) : Prop :=
  match x.section? with
  | none => Beneath x.fallback (child x.name upper) (child x.name lower)
  | some sec => SectionBeneath x.name x.fallback (child sec.name upper) (child sec.name lower)

/-- The defaults, before there are layers. -/
theorem isBeneath_defaults (x : Setting) : x.IsBeneath ({} : Settings).toJson (.members []) := by
  cases x with
  | participantId | callbackAddress => exact .absent
  | _ => exact .trees rfl nofun .absent

theorem IsBeneath.assignPath {upper lower : Json} (h : x.IsBeneath upper lower) (value : Json)
    (key : String) (rest : List Step) :
    x.IsBeneath (assignPath upper value (.key key :: rest))
      (assignPath lower value (.key key :: rest)) := by
  unfold IsBeneath at h ⊢
  cases hsec : x.section? with
  | none =>
    simp only [hsec] at h ⊢
    rw [child_assignPath, child_assignPath]
    by_cases hkey : x.name = lowerCase key
    · rw [if_pos hkey, if_pos hkey, ← hkey]
      exact h.changed x.entriesOf_fallback x.itemsOf_fallback value rest
    · rw [if_neg hkey, if_neg hkey]
      exact h
  | some sec =>
    simp only [hsec] at h ⊢
    rw [child_assignPath, child_assignPath]
    by_cases hkey : sec.name = lowerCase key
    · rw [if_pos hkey, if_pos hkey, ← hkey]
      exact h.changed x.entriesOf_fallback x.itemsOf_fallback value rest
    · rw [if_neg hkey, if_neg hkey]
      exact h

/-- Every layer keeps it. -/
theorem IsBeneath.overlay {upper lower : Json} (h : x.IsBeneath upper lower)
    (layer : List (String × Json)) : x.IsBeneath (overlay upper layer) (overlay lower layer) := by
  induction layer generalizing upper lower with
  | nil => exact h
  | cons e layer ih =>
    obtain ⟨key, rest, hsteps⟩ := stepsOf_eq_cons e.1
    rw [overlay_cons, overlay_cons, hsteps]
    exact ih (h.assignPath e.2 key rest)

/-- In a tree a section's setting is under its name. -/
theorem within?_of_isTree {j : Json} (h : isTree j = true) (sec : Section) (name : String) :
    within? sec name j = child name j := by
  obtain ⟨entries, rfl⟩ := eq_members_of_isTree h
  rfl

theorem IsBeneath.find? {upper lower : Json} (h : x.IsBeneath upper lower) :
    Beneath x.fallback (x.find? upper) (x.find? lower) := by
  unfold IsBeneath at h
  unfold Setting.find?
  cases hsec : x.section? with
  | none =>
    simp only [hsec] at h ⊢
    exact h
  | some sec =>
    simp only [hsec] at h ⊢
    generalize child sec.name upper = a, child sec.name lower = b at h
    cases h with
    | same => exact .same _
    | @trees upper _ hupper hlower h =>
      have hwithin : b.bind (within? sec x.name) = b.bind (child x.name) := by
        cases b with
        | none => rfl
        | some j => exact within?_of_isTree (hlower j rfl) sec x.name
      rw [hwithin, Option.bind_some, within?_of_isTree hupper]
      exact h

/-- What a tree gives for a setting: an empty tree gives nothing. -/
def given? (x : Setting) (tree : Json) : Option Json :=
  match x.find? tree with
  | some (.members []) => none
  | found => found

/-- The settings in a tree over the defaults are what the tree gives, and else the defaults. -/
theorem readsAs_given? {upper lower : Json} (h : x.IsBeneath upper lower) {v : x.Value}
    (hread : x.ReadsAs (x.find? upper) v) : x.ReadsAs (x.given? lower) v := by
  have hbeneath := h.find?
  unfold given?
  generalize x.find? upper = a, x.find? lower = b at hbeneath hread
  have hdefault (hv : x.read? x.fallback = some v) : v = x.get {} := by
    rw [read?_fallback] at hv
    exact (Option.some.inj hv).symm
  cases hbeneath with
  | same =>
    split
    -- Had an empty tree been there, nothing would have been read.
    · have hv : x.read? (.members []) = some v := hread
      rw [read?_empty] at hv
      cases hv
    · exact hread
  | absent => exact hdefault hread
  | emptied => exact hdefault hread

end Setting

end Parley.Settings
