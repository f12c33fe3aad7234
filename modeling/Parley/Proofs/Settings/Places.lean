/-
  Parley.Proofs.Settings.Places
  ────────────────────────────────
  **WHERE A SETTING IS FOUND.**

  A merged tree has a place for each of eleven settings: at its root, or in one of
  four sections.  What a tree is read to is what is read at these places, and
  the default where there is nothing (`readsAs_of_ofTree?`).

  An entry of a layer changes what is under the first key of its path, and
  nothing else (`child_assignPath`); how it changes it depends on what was there
  before only as far as that is a tree or a list (`changed_plain`).
-/
import Parley.Settings.Load

namespace Parley.Settings

open Parley.Json Parley.Decimal

/-! ## §1. What is under a key. -/

/-- What a tree has under a key. -/
def child (key : String) (tree : Json) : Option Json :=
  findEntry key (entriesOf tree)

/-- Whether a value is a tree. -/
def isTree : Json → Bool
  | .members _ => true
  | _ => false

/-- What is under a key after an entry whose path leads on from there. -/
def changed (value : Json) (rest : List Step) (old : Option Json) : Json :=
  match rest, value with
  | [], .members incoming => assignAll (old.getD (.members [])) incoming
  | [], value => value
  | rest, value => assignPath (old.getD .null) value rest

variable {value : Json} {rest : List Step}

theorem eq_members_of_isTree {tree : Json} (h : isTree tree = true) :
    ∃ entries, tree = .members entries := by
  cases tree with
  | members entries => exact ⟨entries, rfl⟩
  | _ => cases h

theorem child_assign (key k : String) (root value : Json) :
    child k (assign key root value)
      = if k = lowerCase key then some (changed value [] (child (lowerCase key) root))
        else child k root := by
  cases value with
  | members incoming =>
    show findEntry k (entriesOf (assign key root (.members incoming))) = _
    unfold assign
    exact findEntry_insertEntry _ _ _ _
  | _ =>
    show findEntry k (entriesOf (assign key root _)) = _
    unfold assign
    exact findEntry_insertEntry _ _ _ _

theorem isTree_assign (key : String) (root value : Json) :
    isTree (assign key root value) = true := by
  cases value <;> (unfold assign; rfl)

/-- An entry changes what is under the first key of its path. -/
theorem child_assignPath (key k : String) (rest : List Step) (root value : Json) :
    child k (assignPath root value (.key key :: rest))
      = if k = lowerCase key then some (changed value rest (child (lowerCase key) root))
        else child k root := by
  cases rest with
  | nil =>
    unfold assignPath
    exact child_assign key k root value
  | cons step rest =>
    unfold assignPath
    exact findEntry_insertEntry _ _ _ _

theorem isTree_assignPath (key : String) (rest : List Step) (root value : Json) :
    isTree (assignPath root value (.key key :: rest)) = true := by
  cases rest with
  | nil =>
    unfold assignPath
    exact isTree_assign key root value
  | cons step rest =>
    unfold assignPath
    rfl

theorem isTree_assignAll {root : Json} (h : isTree root = true) (incoming : List (String × Json)) :
    isTree (assignAll root incoming) = true := by
  induction incoming generalizing root with
  | nil =>
    unfold assignAll
    exact h
  | cons e incoming ih =>
    unfold assignAll
    exact ih (isTree_assign e.1 root e.2)

/-! ## §2. What was there before. -/

/-- A value that is no tree with entries and no list with items leaves no trace in what it is
changed to, unless an empty tree is merged into it. -/
theorem changed_plain {d : Json} (hentries : entriesOf d = []) (hitems : itemsOf d = [])
    (value : Json) (rest : List Step) :
    changed value rest (some d) = changed value rest none
      ∨ changed value rest (some d) = d ∧ changed value rest none = .members [] := by
  have hassign (key : String) (v root : Json) (hroot : entriesOf root = []) :
      assign key d v = assign key root v := by
    cases v <;> (unfold assign; rw [hentries, hroot])
  cases rest with
  | nil =>
    cases value with
    | members incoming =>
      cases incoming with
      | nil =>
        right
        exact ⟨by unfold changed assignAll; rfl, by unfold changed assignAll; rfl⟩
      | cons e incoming =>
        left
        show assignAll d (e :: incoming) = assignAll (.members []) (e :: incoming)
        unfold assignAll
        rw [hassign e.1 e.2 (.members []) rfl]
    | _ => exact .inl rfl
  | cons step rest =>
    left
    show assignPath d value (step :: rest) = assignPath .null value (step :: rest)
    cases step with
    | key key =>
      cases rest with
      | nil =>
        unfold assignPath
        exact hassign key value .null rfl
      | cons next rest =>
        unfold assignPath
        rw [hentries]
        rfl
    | index place =>
      cases rest with
      | nil =>
        unfold assignPath
        rw [hitems]
        rfl
      | cons next rest =>
        unfold assignPath
        rw [hitems]
        rfl

/-! ## §3. Paths. -/

/-- A path begins with a key. -/
theorem stepsOf_eq_cons (text : String) : ∃ key rest, stepsOf text = .key key :: rest := by
  unfold stepsOf
  split
  · exact ⟨_, _, rfl⟩
  · split
    · exact ⟨_, _, rfl⟩
    · exact ⟨_, _, rfl⟩

theorem overlay_cons (root : Json) (e : String × Json) (layer : List (String × Json)) :
    overlay root (e :: layer) = overlay (assignPath root e.2 (stepsOf e.1)) layer := rfl

theorem overlay_append (root : Json) (first second : List (String × Json)) :
    overlay root (first ++ second) = overlay (overlay root first) second :=
  List.foldl_append

/-- Entries make trees of trees. -/
theorem isTree_overlay {root : Json} (h : isTree root = true) (layer : List (String × Json)) :
    isTree (overlay root layer) = true := by
  induction layer generalizing root with
  | nil => exact h
  | cons e layer ih =>
    rw [overlay_cons]
    obtain ⟨key, rest, hsteps⟩ := stepsOf_eq_cons e.1
    rw [hsteps]
    exact ih (isTree_assignPath key rest root e.2)

/-! ## §4. Settings. -/

/-- The sections of the settings. -/
inductive Section where
  | polling
  | retry
  | lease
  | observer
deriving DecidableEq, Repr

namespace Section

/-- The name of a section. -/
def name : Section → String
  | polling => "state_machine"
  | retry => "retry"
  | lease => "lease"
  | observer => "observer"

/-- The names of a section's settings, in the order in which a list gives them. -/
def fields : Section → List String
  | polling => ["batch_size", "iteration_wait_ms", "max_concurrent"]
  | retry => ["limit", "strategy", "base_delay_ms", "max_delay_ms"]
  | lease => ["duration_ms"]
  | observer => ["channel_capacity"]

@[simp] theorem lowerCase_name (s : Section) : lowerCase s.name = s.name := by
  cases s <;> decide +kernel

end Section

/-- The settings. -/
inductive Setting where
  | participantId
  | callbackAddress
  | batchSize
  | iterationWait
  | maxConcurrent
  | retryLimit
  | strategy
  | baseDelay
  | maxDelay
  | leaseDuration
  | channelCapacity
deriving DecidableEq, Repr

namespace Setting

/-- The section that a setting is in; two are in none. -/
def section? : Setting → Option Section
  | participantId | callbackAddress => none
  | batchSize | iterationWait | maxConcurrent => some .polling
  | retryLimit | strategy | baseDelay | maxDelay => some .retry
  | leaseDuration => some .lease
  | channelCapacity => some .observer

/-- The name of a setting. -/
def name : Setting → String
  | participantId => "participant_id"
  | callbackAddress => "callback_address"
  | batchSize => "batch_size"
  | iterationWait => "iteration_wait_ms"
  | maxConcurrent => "max_concurrent"
  | retryLimit => "limit"
  | strategy => "strategy"
  | baseDelay => "base_delay_ms"
  | maxDelay => "max_delay_ms"
  | leaseDuration => "duration_ms"
  | channelCapacity => "channel_capacity"

@[simp] theorem lowerCase_name (x : Setting) : lowerCase x.name = x.name := by
  cases x <;> decide +kernel

/-- The keys that lead to a setting. -/
def path (x : Setting) : List String :=
  (x.section?.map (·.name)).toList ++ [x.name]

/-- What a setting is. -/
def Value : Setting → Type
  | participantId | callbackAddress => String
  | strategy => RetryStrategy
  | _ => Nat

/-- How a setting is read. -/
def read? : (x : Setting) → Json → Option x.Value
  | participantId | callbackAddress => lenientText?
  | retryLimit => lenientWord?
  | strategy => lenientChoice? RetryStrategy.ofName?
  | batchSize | iterationWait | maxConcurrent | baseDelay | maxDelay | leaseDuration
  | channelCapacity => lenientNat?

/-- A setting of some settings. -/
def get (s : Settings) : (x : Setting) → x.Value
  | participantId => s.participantId
  | callbackAddress => s.callbackAddress
  | batchSize => s.polling.batchSize
  | iterationWait => s.polling.iterationWait
  | maxConcurrent => s.polling.maxConcurrent
  | retryLimit => s.retry.limit
  | strategy => s.retry.strategy
  | baseDelay => s.retry.baseDelay
  | maxDelay => s.retry.maxDelay
  | leaseDuration => s.lease.duration
  | channelCapacity => s.observer.channelCapacity

/-- What is read where something may be: the default where there is nothing. -/
def Reads (read : Json → Option α) (default : α) (found : Option Json) (v : α) : Prop :=
  match found with
  | none => v = default
  | some j => read j = some v

/-- What a section, which may be given as a list, has for one of its settings. -/
def within? (s : Section) (name : String) (j : Json) : Option Json :=
  (fieldsOf? s.fields j).bind (·.find name)

/-- What a tree has at a setting's place. -/
def find? (x : Setting) (tree : Json) : Option Json :=
  match x.section? with
  | none => child x.name tree
  | some s => (child s.name tree).bind (within? s x.name)

/-- What is read at a setting's place: the default where there is nothing. -/
def ReadsAs (x : Setting) (found : Option Json) (v : x.Value) : Prop :=
  Reads x.read? (get {} x) found v

/-- An empty tree is read as no setting. -/
theorem read?_empty (x : Setting) : x.read? (.members []) = none := by
  cases x <;> rfl

end Setting

open Setting

variable {j : Json} {s : Settings}

theorem reads_of_defaulted {f : Fields} {key : String} {d v : α} {read : Json → Option α}
    (h : f.defaulted key d read = some v) : Reads read d (f.find key) v := by
  unfold Fields.defaulted at h
  unfold Reads
  cases hfound : f.find key with
  | none =>
    rw [hfound] at h
    exact (Option.some.inj h).symm
  | some j =>
    rw [hfound] at h
    exact h

theorem within?_eq (sec : Section) {f : Fields} (h : fieldsOf? sec.fields j = some f)
    (name : String) : within? sec name j = f.find name := by
  unfold within?
  rw [h]
  rfl

theorem reads_of_pollingOf? {p : PollingSettings} (h : pollingOf? j = some p) :
    Reads lenientNat? 20 (within? .polling "batch_size" j) p.batchSize
      ∧ Reads lenientNat? 1000 (within? .polling "iteration_wait_ms" j) p.iterationWait
      ∧ Reads lenientNat? 10 (within? .polling "max_concurrent" j) p.maxConcurrent := by
  simp only [pollingOf?, Option.bind_eq_bind, Option.bind_eq_some_iff, Option.pure_def,
    Option.some.injEq] at h
  obtain ⟨f, hf, batchSize, hbatch, wait, hwait, concurrent, hconcurrent, rfl⟩ := h
  rw [within?_eq .polling hf, within?_eq .polling hf, within?_eq .polling hf]
  exact ⟨reads_of_defaulted hbatch, reads_of_defaulted hwait, reads_of_defaulted hconcurrent⟩

theorem reads_of_retryOf? {r : RetrySettings} (h : retryOf? j = some r) :
    Reads lenientWord? 7 (within? .retry "limit" j) r.limit
      ∧ Reads (lenientChoice? RetryStrategy.ofName?) .exponential (within? .retry "strategy" j)
        r.strategy
      ∧ Reads lenientNat? 1000 (within? .retry "base_delay_ms" j) r.baseDelay
      ∧ Reads lenientNat? 60000 (within? .retry "max_delay_ms" j) r.maxDelay := by
  simp only [retryOf?, Option.bind_eq_bind, Option.bind_eq_some_iff, Option.pure_def,
    Option.some.injEq] at h
  obtain ⟨f, hf, limit, hlimit, strategy, hstrategy, base, hbase, max, hmax, rfl⟩ := h
  rw [within?_eq .retry hf, within?_eq .retry hf, within?_eq .retry hf, within?_eq .retry hf]
  exact ⟨reads_of_defaulted hlimit, reads_of_defaulted hstrategy, reads_of_defaulted hbase,
    reads_of_defaulted hmax⟩

theorem reads_of_leaseOf? {l : LeaseSettings} (h : leaseOf? j = some l) :
    Reads lenientNat? 60000 (within? .lease "duration_ms" j) l.duration := by
  simp only [leaseOf?, Option.bind_eq_bind, Option.bind_eq_some_iff, Option.pure_def,
    Option.some.injEq] at h
  obtain ⟨f, hf, duration, hduration, rfl⟩ := h
  rw [within?_eq .lease hf]
  exact reads_of_defaulted hduration

theorem reads_of_observerOf? {o : ObserverSettings} (h : observerOf? j = some o) :
    Reads lenientNat? 1024 (within? .observer "channel_capacity" j) o.channelCapacity := by
  simp only [observerOf?, Option.bind_eq_bind, Option.bind_eq_some_iff, Option.pure_def,
    Option.some.injEq] at h
  obtain ⟨f, hf, capacity, hcapacity, rfl⟩ := h
  rw [within?_eq .observer hf]
  exact reads_of_defaulted hcapacity

/-- A setting in a section that is not there has its default, like the section. -/
theorem reads_of_section {read : Json → Option α} {whole default : β} (part : β → α)
    {readWhole : Json → Option β} {sec : Section} {name : String} {found : Option Json}
    (hread : ∀ j, readWhole j = some whole →
      Reads read (part default) (within? sec name j) (part whole))
    (h : Reads readWhole default found whole) :
    Reads read (part default) (found.bind (within? sec name)) (part whole) := by
  cases found with
  | none =>
    have hwhole : whole = default := h
    show part whole = part default
    rw [hwhole]
  | some j => exact hread j h

/-- A tree is read to what is read at the places of the settings. -/
theorem readsAs_of_ofTree? (htree : isTree j = true) (h : ofTree? j = some s) (x : Setting) :
    x.ReadsAs (x.find? j) (x.get s) := by
  obtain ⟨entries, rfl⟩ := eq_members_of_isTree htree
  simp only [ofTree?, fieldsOf?, Option.bind_eq_bind, Option.bind_some, Option.bind_eq_some_iff,
    Option.pure_def, Option.some.injEq] at h
  obtain ⟨participant, hparticipant, address, haddress, polling, hpolling, retry, hretry, lease,
    hlease, observer, hobserver, rfl⟩ := h
  cases x with
  | participantId => exact reads_of_defaulted hparticipant
  | callbackAddress => exact reads_of_defaulted haddress
  | batchSize =>
    exact reads_of_section PollingSettings.batchSize (fun j hj => (reads_of_pollingOf? hj).1)
      (reads_of_defaulted hpolling)
  | iterationWait =>
    exact reads_of_section PollingSettings.iterationWait (fun j hj => (reads_of_pollingOf? hj).2.1)
      (reads_of_defaulted hpolling)
  | maxConcurrent =>
    exact reads_of_section PollingSettings.maxConcurrent (fun j hj => (reads_of_pollingOf? hj).2.2)
      (reads_of_defaulted hpolling)
  | retryLimit =>
    exact reads_of_section RetrySettings.limit (fun j hj => (reads_of_retryOf? hj).1)
      (reads_of_defaulted hretry)
  | strategy =>
    exact reads_of_section RetrySettings.strategy (fun j hj => (reads_of_retryOf? hj).2.1)
      (reads_of_defaulted hretry)
  | baseDelay =>
    exact reads_of_section RetrySettings.baseDelay (fun j hj => (reads_of_retryOf? hj).2.2.1)
      (reads_of_defaulted hretry)
  | maxDelay =>
    exact reads_of_section RetrySettings.maxDelay (fun j hj => (reads_of_retryOf? hj).2.2.2)
      (reads_of_defaulted hretry)
  | leaseDuration =>
    exact reads_of_section LeaseSettings.duration (fun j hj => reads_of_leaseOf? hj)
      (reads_of_defaulted hlease)
  | channelCapacity =>
    exact reads_of_section ObserverSettings.channelCapacity (fun j hj => reads_of_observerOf? hj)
      (reads_of_defaulted hobserver)

end Parley.Settings
