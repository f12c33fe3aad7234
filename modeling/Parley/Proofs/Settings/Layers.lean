/-
  Parley.Proofs.Settings.Layers
  ────────────────────────────────
  **WHERE A SETTING COMES FROM.**

  Settings that are loaded are without a fault, and each comes from the variable
  that is named for it, or else from the file, or else it is the default
  (`loaded_from_layers`).  A variable gives a setting what its text reads as,
  which for a setting that is a text need not be the text: a participant whose
  id is written "007" in the environment is called "7".

  What a variable gives stays until another one meets its path (`IsGiven`), and
  what no variable meets stays as the file left it (`IsLeft`).
-/
import Parley.Proofs.Settings.Defaults

namespace Parley.Settings

open Parley.Json Parley.Decimal Setting

variable {value : Json} {rest : List Step} {key : String}

namespace Setting

variable {x : Setting}

/-! ## §1. What a variable gives. -/

/-- Whether a path leads to, through or beyond the place that keys lead to: it does not part from
them at a key. -/
def meets : List String → List Step → Bool
  | [], _ => true
  | _ :: _, [] => true
  | _ :: _, .index _ :: _ => true
  | k :: ks, .key key :: rest => decide (lowerCase key = k) && meets ks rest

/-- Whether the path that a variable's name gives is that of a setting. -/
def IsNamedBy (x : Setting) (name : String) : Prop :=
  ∃ path, variablePath? name = some path ∧ stepsOf path = x.path.map .key

/-- Whether the path that a variable's name gives meets that of a setting. -/
def IsConcernedBy (x : Setting) (name : String) : Prop :=
  ∃ path, variablePath? name = some path ∧ meets x.path (stepsOf path) = true

/-- Whether a variable gives something in the section of a setting. -/
def HasSectionNamedBy (x : Setting) (name : String) : Prop :=
  ∃ sec path key rest, x.section? = some sec ∧ variablePath? name = some path
    ∧ stepsOf path = .key key :: rest ∧ lowerCase key = sec.name

/-- Whether the last of the variables that concern a setting is named for it, with a text. -/
def IsSetTo (x : Setting) (text : String) (vars : List (String × String)) : Prop :=
  ∃ before name after, vars = before ++ (name, text) :: after ∧ x.IsNamedBy name
    ∧ ∀ v ∈ after, ¬ x.IsConcernedBy v.1

/-- The variable of a setting. -/
def variableName (x : Setting) : String :=
  "ACCORD_" ++ "__".intercalate (x.path.map String.toUpper)

/-- Each setting has its variable. -/
theorem isNamedBy_variableName (x : Setting) : x.IsNamedBy x.variableName := by
  refine ⟨".".intercalate x.path, ?_, ?_⟩ <;> cases x <;> decide +kernel

example : batchSize.variableName = "ACCORD_STATE_MACHINE__BATCH_SIZE" := by decide +kernel

/-- A variable never gives a tree. -/
theorem isTree_variableValue (text : String) : isTree (variableValue text) = false := by
  unfold variableValue
  dsimp only
  repeat' split
  all_goals rfl

/-- A value that is no tree replaces what was there. -/
theorem changed_nil (h : isTree value = false) (old : Option Json) :
    changed value [] old = value := by
  cases value with
  | members => cases h
  | _ => rfl

/-- Whether a tree has a value at the place of a setting, which is in a tree like the setting's
section. -/
def IsGiven (x : Setting) (value root : Json) : Prop :=
  match x.section? with
  | none => child x.name root = some value
  | some sec => ∃ inner, child sec.name root = some inner ∧ isTree inner = true
      ∧ child x.name inner = some value

theorem IsGiven.find? {root : Json} (h : x.IsGiven value root) : x.find? root = some value := by
  unfold IsGiven at h
  unfold Setting.find?
  cases hsec : x.section? with
  | none =>
    simp only [hsec] at h ⊢
    exact h
  | some sec =>
    simp only [hsec] at h ⊢
    obtain ⟨inner, hinner, htree, hchild⟩ := h
    rw [hinner, Option.bind_some, within?_of_isTree htree]
    exact hchild

/-- An entry whose path is that of a setting gives it its value. -/
theorem isGiven_assignPath (x : Setting) (h : isTree value = false) (root : Json) :
    x.IsGiven value (Settings.assignPath root value (x.path.map .key)) := by
  unfold IsGiven path
  cases hsec : x.section? with
  | none =>
    show child x.name (Settings.assignPath root value [.key x.name]) = some value
    rw [child_assignPath, lowerCase_name, if_pos rfl, changed_nil h]
  | some sec =>
    show ∃ inner, child sec.name (Settings.assignPath root value [.key sec.name, .key x.name])
        = some inner ∧ _
    rw [child_assignPath, Section.lowerCase_name, if_pos rfl]
    refine ⟨_, rfl, isTree_assignPath x.name [] _ value, ?_⟩
    show child x.name (Settings.assignPath _ value [.key x.name]) = some value
    rw [child_assignPath, lowerCase_name, if_pos rfl, changed_nil h]

/-- What an entry whose path parts from a setting's leaves in the section. -/
theorem parts_of_not_meets {sec : Section} (hsec : x.section? = some sec)
    (h : meets x.path (.key key :: rest) = false) (hkey : lowerCase key = sec.name) :
    ∃ inner steps, rest = .key inner :: steps ∧ x.name ≠ lowerCase inner := by
  unfold path at h
  rw [hsec] at h
  have hmeets : meets [x.name] rest = false := by
    have hboth : (decide (lowerCase key = sec.name) && meets [x.name] rest) = false := h
    rw [decide_eq_true hkey, Bool.true_and] at hboth
    exact hboth
  cases rest with
  | nil => cases hmeets
  | cons step steps =>
    cases step with
    | index place => cases hmeets
    | key inner =>
      refine ⟨inner, steps, rfl, fun heq => ?_⟩
      have hboth : (decide (lowerCase inner = x.name) && true) = false := by
        cases steps <;> exact hmeets
      rw [decide_eq_true heq.symm] at hboth
      cases hboth

/-- Outside of the sections a path parts from a setting's at its first key. -/
theorem ne_of_not_meets (hsec : x.section? = none) (h : meets x.path (.key key :: rest) = false) :
    x.name ≠ lowerCase key := by
  intro heq
  unfold path at h
  rw [hsec] at h
  have hboth : (decide (lowerCase key = x.name) && meets [] rest) = false := h
  rw [decide_eq_true heq.symm] at hboth
  cases rest <;> cases hboth

/-- An entry whose path parts from a setting's leaves it what it was given. -/
theorem IsGiven.assignPath {root : Json} (h : x.IsGiven value root) (other : Json)
    (happart : meets x.path (.key key :: rest) = false) :
    x.IsGiven value (Settings.assignPath root other (.key key :: rest)) := by
  unfold IsGiven at h ⊢
  cases hsec : x.section? with
  | none =>
    simp only [hsec] at h ⊢
    rw [child_assignPath, if_neg (ne_of_not_meets hsec happart)]
    exact h
  | some sec =>
    simp only [hsec] at h ⊢
    obtain ⟨inner, hinner, htree, hchild⟩ := h
    rw [child_assignPath]
    by_cases hkey : sec.name = lowerCase key
    · obtain ⟨field, steps, rfl, hfield⟩ := parts_of_not_meets hsec happart hkey.symm
      rw [if_pos hkey, ← hkey, hinner]
      refine ⟨_, rfl, isTree_assignPath field steps inner other, ?_⟩
      show child x.name (Settings.assignPath inner other (.key field :: steps)) = some value
      rw [child_assignPath, if_neg hfield]
      exact hchild
    · rw [if_neg hkey]
      exact ⟨inner, hinner, htree, hchild⟩

/-! ## §2. The variables as a layer. -/

variable {vars : List (String × String)}

theorem environmentLayer_cons (v : String × String) (vars : List (String × String)) :
    environmentLayer (v :: vars) = match variablePath? v.1 with
      | none => environmentLayer vars
      | some path => (path, variableValue v.2) :: environmentLayer vars := by
  unfold environmentLayer
  rw [List.filterMap_cons]
  cases variablePath? v.1 <;> rfl

theorem environmentLayer_append (before after : List (String × String)) :
    environmentLayer (before ++ after) = environmentLayer before ++ environmentLayer after :=
  List.filterMap_append

theorem meets_of_not_concerned {path : String} {v : String × String}
    (h : ¬ x.IsConcernedBy v.1) (hpath : variablePath? v.1 = some path) :
    meets x.path (stepsOf path) = false :=
  Bool.eq_false_iff.mpr fun hmeets => h ⟨path, hpath, hmeets⟩

/-- Variables that do not concern a setting leave it what it was given. -/
theorem IsGiven.environment {root : Json} (h : x.IsGiven value root)
    (hapart : ∀ v ∈ vars, ¬ x.IsConcernedBy v.1) :
    x.IsGiven value (Settings.overlay root (environmentLayer vars)) := by
  induction vars generalizing root with
  | nil => exact h
  | cons v vars ih =>
    have hrest : ∀ w ∈ vars, ¬ x.IsConcernedBy w.1 := fun w hw =>
      hapart w (List.mem_cons_of_mem v hw)
    rw [environmentLayer_cons]
    cases hpath : variablePath? v.1 with
    | none => exact ih h hrest
    | some path =>
      obtain ⟨key, rest, hsteps⟩ := stepsOf_eq_cons path
      have hmeets := meets_of_not_concerned (hapart v List.mem_cons_self) hpath
      rw [hsteps] at hmeets
      show x.IsGiven value (Settings.overlay
        (Settings.assignPath root (variableValue v.2) (stepsOf path)) (environmentLayer vars))
      rw [hsteps]
      exact ih (h.assignPath _ hmeets) hrest

/-- The variable that a setting is set to gives it the value of its text. -/
theorem IsSetTo.isGiven {text : String} (h : x.IsSetTo text vars) (root : Json) :
    x.IsGiven (variableValue text) (Settings.overlay root (environmentLayer vars)) := by
  obtain ⟨before, name, after, rfl, ⟨path, hpath, hsteps⟩, hafter⟩ := h
  rw [environmentLayer_append, overlay_append, environmentLayer_cons, hpath]
  show x.IsGiven _ (Settings.overlay (Settings.assignPath _ (variableValue text) (stepsOf path))
    (environmentLayer after))
  rw [hsteps]
  exact (isGiven_assignPath x (isTree_variableValue text) _).environment hafter

/-! ## §3. What is left of the layers below. -/

/-- What variables that do not concern a setting leave of what a tree had for it: all of it, if they
are not in its section; and else what the tree had in the section, as far as that is a tree. -/
def IsLeft (x : Setting) (touched : Prop) (base root : Json) : Prop :=
  match x.section? with
  | none => child x.name root = child x.name base
  | some sec => child sec.name root = child sec.name base
      ∨ touched ∧ ∃ inner, child sec.name root = some inner ∧ isTree inner = true
          ∧ child x.name inner = (child sec.name base).bind (child x.name)

variable {touched : Prop} {base root : Json}

theorem isLeft_self (x : Setting) (touched : Prop) (base : Json) : x.IsLeft touched base base := by
  unfold IsLeft
  cases x.section? with
  | none => exact rfl
  | some sec => exact .inl rfl

theorem IsLeft.assignPath (h : x.IsLeft touched base root) (other : Json)
    (happart : meets x.path (.key key :: rest) = false)
    (htouched : ∀ sec, x.section? = some sec → lowerCase key = sec.name → touched) :
    x.IsLeft touched base (Settings.assignPath root other (.key key :: rest)) := by
  unfold IsLeft at h ⊢
  cases hsec : x.section? with
  | none =>
    simp only [hsec] at h ⊢
    rw [child_assignPath, if_neg (ne_of_not_meets hsec happart)]
    exact h
  | some sec =>
    simp only [hsec] at h ⊢
    rw [child_assignPath]
    by_cases hkey : sec.name = lowerCase key
    · obtain ⟨field, steps, rfl, hfield⟩ := parts_of_not_meets hsec happart hkey.symm
      rw [if_pos hkey, ← hkey]
      refine .inr ⟨htouched sec hsec hkey.symm, _, rfl, isTree_assignPath field steps _ other, ?_⟩
      show child x.name (Settings.assignPath ((child sec.name root).getD .null) other
        (.key field :: steps)) = _
      rw [child_assignPath, if_neg hfield]
      rcases h with hsame | ⟨_, inner, hinner, _, hchild⟩
      · rw [hsame]
        cases child sec.name base <;> rfl
      · rw [hinner]
        exact hchild
    · rw [if_neg hkey]
      exact h

theorem IsLeft.environment (h : x.IsLeft touched base root)
    (hapart : ∀ v ∈ vars, ¬ x.IsConcernedBy v.1)
    (htouched : ∀ v ∈ vars, x.HasSectionNamedBy v.1 → touched) :
    x.IsLeft touched base (Settings.overlay root (environmentLayer vars)) := by
  induction vars generalizing root with
  | nil => exact h
  | cons v vars ih =>
    have hrest : ∀ w ∈ vars, ¬ x.IsConcernedBy w.1 := fun w hw =>
      hapart w (List.mem_cons_of_mem v hw)
    have htouchedRest : ∀ w ∈ vars, x.HasSectionNamedBy w.1 → touched := fun w hw =>
      htouched w (List.mem_cons_of_mem v hw)
    rw [environmentLayer_cons]
    cases hpath : variablePath? v.1 with
    | none => exact ih h hrest htouchedRest
    | some path =>
      obtain ⟨key, rest, hsteps⟩ := stepsOf_eq_cons path
      have hmeets := meets_of_not_concerned (hapart v List.mem_cons_self) hpath
      rw [hsteps] at hmeets
      show x.IsLeft touched base (Settings.overlay
        (Settings.assignPath root (variableValue v.2) (stepsOf path)) (environmentLayer vars))
      rw [hsteps]
      refine ih (h.assignPath _ hmeets fun sec hsec hkey => ?_) hrest htouchedRest
      exact htouched v List.mem_cons_self ⟨sec, path, key, rest, hsec, hpath, hsteps, hkey⟩

/-- Whether a tree gives the section of a setting as a list. -/
def IsListed (x : Setting) (tree : Json) : Prop :=
  ∃ sec items, x.section? = some sec ∧ child sec.name tree = some (.array items)

/-- A setting is left what it was, unless it was in a list that is a tree now. -/
theorem IsLeft.find? (h : x.IsLeft touched base root) :
    x.find? root = x.find? base ∨ touched ∧ x.IsListed base ∧ x.find? root = none := by
  unfold IsLeft at h
  unfold Setting.find? IsListed
  cases hsec : x.section? with
  | none =>
    simp only [hsec] at h ⊢
    exact .inl h
  | some sec =>
    simp only [hsec] at h ⊢
    rcases h with hsame | ⟨ht, inner, hinner, htree, hchild⟩
    · rw [hsame]
      exact .inl rfl
    · rw [hinner, Option.bind_some, within?_of_isTree htree, hchild]
      cases hbase : child sec.name base with
      | none => exact .inl rfl
      | some j =>
        cases j with
        | array items => exact .inr ⟨ht, ⟨sec, items, rfl, hbase⟩, rfl⟩
        | _ => exact .inl rfl

end Setting

/-! ## §4. Loading. -/

/-- What a file and the environment give, without the defaults. -/
def givenTree (fromFile : List (String × Json)) (vars : List (String × String)) : Json :=
  overlay (overlay (.members []) fromFile) (environmentLayer vars)

/-- What is loaded was read from a merged tree, and has no fault. -/
theorem eq_ok_of_load {φ : Type} {reader : φ → Option (List (String × Json))} {file : Option φ}
    {vars : List (String × String)} {s : Settings} (h : loadWith reader file vars = .ok s) :
    s.fault? = none ∧ ∃ fromFile, fileLayer? reader file = some fromFile
      ∧ ofTree? (mergedTree fromFile vars) = some s := by
  unfold loadWith at h
  split at h
  · cases h
  · rename_i t hread
    unfold validate at h
    cases hfault : t.fault? with
    | some fault =>
      rw [hfault] at h
      cases h
    | none =>
      rw [hfault] at h
      cases h
      refine ⟨hfault, ?_⟩
      unfold readWith? at hread
      split at hread
      · rename_i fromFile hfile
        exact ⟨fromFile, hfile, hread⟩
      · cases hread

/-- Every setting that is loaded is read where the file and the environment put it, if they do. -/
theorem readsAs_given {fromFile : List (String × Json)} {vars : List (String × String)}
    {s : Settings} (h : ofTree? (mergedTree fromFile vars) = some s) (x : Setting) :
    x.ReadsAs (x.given? (givenTree fromFile vars)) (x.get s) := by
  have htree : isTree (mergedTree fromFile vars) = true :=
    isTree_overlay (isTree_overlay rfl fromFile) (environmentLayer vars)
  have hbeneath : x.IsBeneath (mergedTree fromFile vars) (givenTree fromFile vars) :=
    ((isBeneath_defaults x).overlay fromFile).overlay (environmentLayer vars)
  exact readsAs_given? hbeneath (readsAs_of_ofTree? htree h x)

/-- A setting that a variable is named for is read from its text. -/
theorem read?_of_isSetTo {fromFile : List (String × Json)} {vars : List (String × String)}
    {s : Settings} (h : ofTree? (mergedTree fromFile vars) = some s) {x : Setting} {text : String}
    (hset : x.IsSetTo text vars) : x.read? (variableValue text) = some (x.get s) := by
  have hfound : x.find? (mergedTree fromFile vars) = some (variableValue text) :=
    (hset.isGiven _).find?
  have htree : isTree (mergedTree fromFile vars) = true :=
    isTree_overlay (isTree_overlay rfl fromFile) (environmentLayer vars)
  have hread := readsAs_of_ofTree? htree h x
  rw [hfound] at hread
  exact hread

/-- A setting that no variable concerns is as the file has it. -/
theorem readsAs_file {fromFile : List (String × Json)} {vars : List (String × String)}
    {s : Settings} (h : ofTree? (mergedTree fromFile vars) = some s) {x : Setting}
    (hapart : ∀ v ∈ vars, ¬ x.IsConcernedBy v.1) :
    x.ReadsAs (x.given? (overlay (.members []) fromFile)) (x.get s)
      ∨ x.IsListed (overlay (.members []) fromFile) ∧ (∃ v ∈ vars, x.HasSectionNamedBy v.1)
        ∧ x.get s = x.get {} := by
  have hread := readsAs_given h x
  have hleft : x.IsLeft (∃ v ∈ vars, x.HasSectionNamedBy v.1) (overlay (.members []) fromFile)
      (givenTree fromFile vars) :=
    (isLeft_self x _ _).environment hapart fun v hv hname => ⟨v, hv, hname⟩
  unfold given? at hread ⊢
  rcases hleft.find? with hsame | ⟨htouched, hlisted, hnone⟩
  · rw [hsame] at hread
    exact .inl hread
  · rw [hnone] at hread
    exact .inr ⟨hlisted, htouched, hread⟩

/-- For every file, however files are read, and every environment: settings that are loaded have no
fault, and each of them, in a section or in none, is what the text of its variable reads as, if there
is one and no later variable meets its path.  If no variable meets its path it is what the file has
for it, and else its default; what the file has in a list is lost if variables make a tree of the
section.  Whatever the paths, it is read where the merged layers have it.  A setting that is a text is
the text of its variable exactly if what that text reads as is written like it. -/
theorem loaded_from_layers {φ : Type} {reader : φ → Option (List (String × Json))}
    {file : Option φ} {vars : List (String × String)} {s : Settings}
    (h : loadWith reader file vars = .ok s) :
    s.fault? = none ∧ ∃ fromFile, fileLayer? reader file = some fromFile
      ∧ (∀ x : Setting,
          (∀ text, x.IsSetTo text vars → x.read? (variableValue text) = some (x.get s))
          ∧ ((∀ v ∈ vars, ¬ x.IsConcernedBy v.1) →
              x.ReadsAs (x.given? (overlay (.members []) fromFile)) (x.get s)
                ∨ x.IsListed (overlay (.members []) fromFile)
                  ∧ (∃ v ∈ vars, x.HasSectionNamedBy v.1) ∧ x.get s = x.get {})
          ∧ x.ReadsAs (x.given? (givenTree fromFile vars)) (x.get s))
      ∧ (∀ text, Setting.participantId.IsSetTo text vars →
          (s.participantId = text ↔ lenientText? (variableValue text) = some text))
      ∧ ∀ text, Setting.callbackAddress.IsSetTo text vars →
          (s.callbackAddress = text ↔ lenientText? (variableValue text) = some text) := by
  obtain ⟨hfault, fromFile, hfile, htree⟩ := eq_ok_of_load h
  refine ⟨hfault, fromFile, hfile, fun x => ⟨?_, ?_, readsAs_given htree x⟩, ?_, ?_⟩
  · exact fun text hset => read?_of_isSetTo htree hset
  · exact readsAs_file htree
  · intro text hset
    have hread : lenientText? (variableValue text) = some s.participantId :=
      read?_of_isSetTo htree hset
    rw [hread, Option.some.injEq]
  · intro text hset
    have hread : lenientText? (variableValue text) = some s.callbackAddress :=
      read?_of_isSetTo htree hset
    rw [hread, Option.some.injEq]

/-- A participant's id in the environment, of digits. -/
def numbered : List (String × String) :=
  [("ACCORD_PARTICIPANT_ID", "007")]

/-- A participant whose id is "007" in the environment, and in nothing else, is called "7". -/
theorem participant_renamed :
    ∃ s, load none numbered = .ok s ∧ Setting.participantId.IsSetTo "007" numbered
      ∧ s.participantId = "7" ∧ s.participantId ≠ "007" := by
  have hread : readWith? SettingsFile.layer? none numbered = some { participantId := "7" } := by
    decide +kernel
  have hfault : ({ participantId := "7" } : Settings).fault? = none := by decide +kernel
  have hload : load none numbered = .ok { participantId := "7" } := by
    unfold load loadWith validate
    rw [hread]
    simp only [hfault]
  have hset : Setting.participantId.IsSetTo "007" numbered := by
    refine ⟨[], "ACCORD_PARTICIPANT_ID", [], rfl, ?_, nofun⟩
    have hname : Setting.participantId.variableName = "ACCORD_PARTICIPANT_ID" := by decide +kernel
    rw [← hname]
    exact isNamedBy_variableName _
  obtain ⟨_, _, _, _, hparticipant, _⟩ := loaded_from_layers hload
  refine ⟨_, hload, hset, rfl, fun hkept => ?_⟩
  have hwritten := (hparticipant "007" hset).mp hkept
  revert hwritten
  decide +kernel

end Parley.Settings
