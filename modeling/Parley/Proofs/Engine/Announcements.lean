/-
  Parley.Proofs.Engine.Announcements
  ────────────────────────────────
  **WHAT IS STORED IS ANNOUNCED.**

  An engine has a pool of threads: calls, batches that are leased, and the
  records of a batch.  Any of them may take the next step, so a record may be
  stored, or announced, between the storing of another one and its announcement.

      each thread     announces what it stored, as it is stored, once, and as the
                      next thing that it does
      all threads     announce the same as they store; in the same order, if none
                      stores a record while another one owes an announcement

  `announced_as_stored` says this of every run; `announced_out_of_order` is a run
  in which two records of a batch are announced the other way round.
-/
import Parley.Proofs.Engine.Threads
import Mathlib.Data.List.Perm.Basic

namespace Parley

open Parley.Batch

/-! ## §1. Threads of an engine. -/

/-- How a thread ends: with nothing that counts, with something done, or with a batch that is leased
for a duty of a role. -/
inductive Ending where
  | idle
  | done
  | leased (role : Role) (duty : Duty) (batch : List Negotiation)

namespace Ending

/-- The end of an operation that is granted or not, or of a record that is handled or not. -/
def of (counts : Bool) : Ending :=
  if counts then .done else .idle

/-- Where nothing is done there is nothing to account for. -/
def Accounts (account : Account) (ending : Ending) : Prop :=
  ending ≠ .done → account = .clear

end Ending

namespace Engine

variable (e : Engine)

/-- The thread of a call. -/
def calling (c : Call) : Thread Ending := do
  return .of (← c.perform e .threaded)

/-- The thread in which a batch is leased. -/
def leasing (role : Role) (duty : Duty) : Thread Ending := do
  return .leased role duty (← (e.job role duty).lease .threaded)

/-- The thread of a record of a batch. -/
def handling (role : Role) (duty : Duty) (n : Negotiation) : Thread Ending := do
  return .of (← e.handleRecord .threaded role duty n)

theorem accounts_of {account : Account} {counts : Bool}
    (h : counts = false → account = .clear) : Ending.Accounts account (.of counts) := by
  intro hidle
  cases counts with
  | false => exact h rfl
  | true => exact absurd rfl hidle

theorem keepsAccount_calling (c : Call) :
    (e.calling c).KeepsAccount e Ending.Accounts .clear :=
  (c.keepsAccount e).andThen fun _ _ hclosed h => ⟨hclosed, accounts_of h⟩

theorem keepsAccount_leasing (role : Role) (duty : Duty) :
    (e.leasing role duty).KeepsAccount e Ending.Accounts .clear :=
  (e.keepsAccount_lease role duty).andThen fun _ _ hclosed h => ⟨hclosed, fun _ => h⟩

theorem keepsAccount_handling (role : Role) (duty : Duty) (n : Negotiation) :
    (e.handling role duty n).KeepsAccount e Ending.Accounts .clear :=
  (e.keepsAccount_handleRecord role duty n).andThen fun _ _ hclosed h => ⟨hclosed, accounts_of h⟩

end Engine

/-! ## §2. Pools. -/

/-- The world of an engine and its threads, in the order in which they were begun; and which of them
stored and announced what, oldest first. -/
structure Pool where
  world : World
  threads : List (Thread Ending) := []
  stored : List (Nat × Announcement) := []
  told : List (Nat × Announcement) := []

namespace Pool

/-- What happens next: a call comes in, a batch is to be leased, a thread takes a step or is given the
reply that it waits for, or the records of a batch that a thread has leased are begun. -/
inductive Event where
  | call (c : Call)
  | lease (role : Role) (duty : Duty)
  | go (i : Nat)
  | reply (i : Nat) (reply : Reply)
  | spread (i : Nat)

/-- A thread of the pool; where there is none there is nothing to do. -/
def thread (p : Pool) (i : Nat) : Thread Ending :=
  p.threads[i]?.getD (.ended .idle)

/-- Begin some threads. -/
def launch (p : Pool) (threads : List (Thread Ending)) : Pool :=
  { p with threads := p.threads ++ threads }

/-- Let a thread take a step in the world; what it then owes is stored. -/
def take (p : Pool) (i : Nat) (change : World → World) (next : World → Thread Ending) : Pool :=
  { p with
    world := change p.world
    threads := p.threads.set i (next p.world)
    stored := p.stored ++ ((next p.world).owed.map (i, ·)).toList }

/-- Let a thread make an announcement. -/
def tell (p : Pool) (i : Nat) (news : Announcement) (next : Thread Ending) : Pool :=
  { p with
    world := p.world.announce news
    threads := p.threads.set i next
    told := p.told ++ [(i, news)] }

/-- Let a thread go on. -/
def go (p : Pool) (i : Nat) : Pool :=
  match p.thread i with
  | .step change next => p.take i change next
  | .tell news next => p.tell i news next
  | _ => p

/-- A pool without threads. -/
def start (w : World) : Pool where
  world := w

variable (e : Engine)

/-- What becomes of a pool. -/
def step (p : Pool) : Event → Pool
  | .call c => p.launch [e.calling c]
  | .lease role duty => p.launch [e.leasing role duty]
  | .go i => p.go i
  | .reply i reply =>
    match p.thread i with
    | .ask _ next => { p with threads := p.threads.set i (next reply) }
    | _ => p
  | .spread i =>
    match p.thread i with
    | .ended (.leased role duty batch) =>
      { p with threads := p.threads.set i (.ended .idle) }.launch (batch.map (e.handling role duty))
    | _ => p

def run (p : Pool) (events : List Event) : Pool :=
  events.foldl (step e) p

/-- What a thread has in a log. -/
def ofThread (i : Nat) (log : List (Nat × Announcement)) : List Announcement :=
  (log.filter (·.1 = i)).map (·.2)

/-- Whether a thread owes an announcement. -/
def owes (p : Pool) : Bool :=
  p.threads.any (·.owed.isSome)

/-- Whether no record is stored while a thread owes the announcement of another one. -/
def isOrderly (p : Pool) : List Event → Bool
  | [] => true
  | event :: events =>
    (!p.owes || (p.step e event).stored.length = p.stored.length)
      && (p.step e event).isOrderly events

/-! ## §3. Faithful pools. -/

/-- What an event does to the records and to the logs: nothing that concerns what the records say; or a
thread announces what it owes; or a record is parked that the guard holds back; or a thread stores a
record, and owes its announcement. -/
inductive Passes (p p' : Pool) : Prop
  | rests (hcontent : ∀ id, p'.world.ledger.content id = p.world.ledger.content id)
      (hstored : p'.stored = p.stored) (htold : p'.told = p.told)
  | announces (i : Nat) (news : Announcement) (howed : (p.thread i).owed = some news)
      (hledger : p'.world.ledger = p.world.ledger) (hstored : p'.stored = p.stored)
      (htold : p'.told = p.told ++ [(i, news)])
  | parks (n : Negotiation) (hguard : e.guard n = true)
      (hledger : p'.world.ledger = p.world.ledger.put ((n.withPending true).withLease none))
      (hstored : p'.stored = p.stored) (htold : p'.told = p.told)
  | stores (i : Nat) (news : Announcement) (howed : (p'.thread i).owed = some news)
      (hledger : p'.world.ledger = p.world.ledger.put (news.negotiation.withLease none))
      (hstored : p'.stored = p.stored ++ [(i, news)]) (htold : p'.told = p.told)

/-- What is announced is what is stored: by each thread in order, and but for what it owes; a thread
stores one record at most, and none if nothing counts at its end; a record is announced as one that
entered its state; and once no announcement is owed, all threads have announced what they have
stored. -/
structure IsFaithful (w : World) (p : Pool) : Prop where
  announced : p.world.announced = w.announced ++ p.told.map (·.2)
  each : ∀ i, ofThread i p.stored = ofThread i p.told ++ (p.thread i).owed.toList
  once : ∀ i, (ofThread i p.stored).length ≤ 1
  idle : ∀ i ending, p.thread i = .ended ending → ending ≠ .done → ofThread i p.stored = []
  kind : ∀ entry ∈ p.stored, entry.2.negotiation.state = entry.2.kind.code
  settled : p.owes = false → p.told.Perm p.stored
  step : ∀ event, p.Passes e (p.step e event)

/-- Every thread keeps its account, and the logs are what is on the accounts. -/
structure Inv (w : World) (p : Pool) : Prop where
  announced : p.world.announced = w.announced ++ p.told.map (·.2)
  account : ∀ i, ∃ account, (p.thread i).KeepsAccount e Ending.Accounts account
    ∧ ofThread i p.stored = account.stored ∧ ofThread i p.told = account.told
  kind : ∀ entry ∈ p.stored, entry.2.negotiation.state = entry.2.kind.code

/-! ## §4. What an event does. -/

variable {e : Engine} {w : World} {p : Pool}

theorem ofThread_append (i k : Nat) (log : List (Nat × Announcement)) (news : Announcement) :
    ofThread k (log ++ [(i, news)]) = ofThread k log ++ if i = k then [news] else [] := by
  unfold ofThread
  rw [List.filter_append, List.map_append]
  congr 1
  by_cases hik : i = k
  · simp [hik]
  · simp [hik]

theorem thread_of_lt {i : Nat} (hi : i < p.threads.length) : p.thread i = p.threads[i] := by
  unfold thread
  rw [List.getElem?_eq_getElem hi]
  rfl

theorem thread_of_le {i : Nat} (hi : p.threads.length ≤ i) : p.thread i = .ended .idle := by
  unfold thread
  rw [List.getElem?_eq_none hi]
  rfl

/-- A thread that has something to do is in the pool. -/
theorem lt_length {i : Nat} {t : Thread Ending} (hthread : p.thread i = t)
    (ht : t ≠ .ended .idle) : i < p.threads.length :=
  Nat.lt_of_not_le fun hle => ht (hthread.symm.trans (thread_of_le hle))

theorem thread_launch (p : Pool) (threads : List (Thread Ending)) (k : Nat) :
    (p.launch threads).thread k = p.thread k
      ∨ p.thread k = .ended .idle ∧ (p.launch threads).thread k ∈ threads := by
  unfold launch thread
  simp only [List.getElem?_append]
  split
  · exact .inl rfl
  · rename_i hk
    rw [List.getElem?_eq_none (Nat.not_lt.mp hk)]
    cases hnew : threads[k - p.threads.length]? with
    | none => exact .inl rfl
    | some t => exact .inr ⟨rfl, List.mem_of_getElem? hnew⟩

/-- A thread that a pool goes on with in place of another one. -/
theorem thread_set {p' : Pool} {i : Nat} {t : Thread Ending} (hi : i < p.threads.length)
    (hp' : p'.threads = p.threads.set i t) (k : Nat) :
    p'.thread k = if i = k then t else p.thread k := by
  unfold thread
  rw [hp', List.getElem?_set, if_pos hi]
  split <;> rfl

namespace Inv

/-- Threads that have stored nothing may join. -/
theorem launch (h : p.Inv e w) {threads : List (Thread Ending)}
    (hthreads : ∀ t ∈ threads, t.KeepsAccount e Ending.Accounts .clear) :
    (p.launch threads).Inv e w where
  announced := h.announced
  kind := h.kind
  account k := by
    obtain ⟨account, haccount, hstored, htold⟩ := h.account k
    rcases thread_launch p threads k with hsame | ⟨hidle, hnew⟩
    · exact ⟨account, hsame ▸ haccount, hstored, htold⟩
    -- Where there was no thread, nothing was stored.
    · rw [hidle] at haccount
      rw [haccount.2 Ending.noConfusion] at hstored htold
      exact ⟨.clear, hthreads _ hnew, hstored, htold⟩

/-- A thread may go on with its account as long as what happened is on it. -/
theorem replace (h : p.Inv e w) {q : Pool} {i : Nat} {t : Thread Ending} {account : Account}
    (hi : i < p.threads.length) (hq : q.threads = p.threads.set i t)
    (ht : t.KeepsAccount e Ending.Accounts account)
    (hstored : ofThread i q.stored = account.stored) (htold : ofThread i q.told = account.told)
    (hothers : ∀ k, i ≠ k → ofThread k q.stored = ofThread k p.stored
      ∧ ofThread k q.told = ofThread k p.told)
    (hannounced : q.world.announced = w.announced ++ q.told.map (·.2))
    (hkind : ∀ entry ∈ q.stored, entry.2.negotiation.state = entry.2.kind.code) :
    q.Inv e w where
  announced := hannounced
  kind := hkind
  account k := by
    rw [thread_set hi hq k]
    split
    · rename_i hik
      subst hik
      exact ⟨account, ht, hstored, htold⟩
    · rename_i hik
      obtain ⟨hsame, hsame'⟩ := hothers k hik
      rw [hsame, hsame']
      exact h.account k

/-- What is owed by a thread is what is stored of it and not announced. -/
theorem each (h : p.Inv e w) (i : Nat) :
    ofThread i p.stored = ofThread i p.told ++ (p.thread i).owed.toList := by
  obtain ⟨account, haccount, hstored, htold⟩ := h.account i
  rw [hstored, htold, haccount.owed_eq]
  exact account.stored_eq

/-- What a thread tells was owed. -/
theorem tell (h : p.Inv e w) {i : Nat} {news : Announcement} {next : Thread Ending}
    (hthread : p.thread i = .tell news next) :
    (p.tell i news next).Inv e w ∧ p.Passes e (p.tell i news next) := by
  obtain ⟨account, haccount, hstored, htold⟩ := h.account i
  rw [hthread] at haccount
  obtain ⟨rfl, hnext⟩ := haccount
  have hi : i < p.threads.length := lt_length hthread nofun
  have howed : (p.thread i).owed = some news := by
    rw [hthread]
    rfl
  refine ⟨h.replace hi rfl hnext hstored ?_ ?_ ?_ h.kind, .announces i news howed rfl rfl rfl⟩
  · show ofThread i (p.told ++ [(i, news)]) = [news]
    rw [ofThread_append, htold, if_pos rfl]
    rfl
  · intro k hik
    refine ⟨rfl, ?_⟩
    show ofThread k (p.told ++ [(i, news)]) = _
    rw [ofThread_append, if_neg hik, List.append_nil]
  · show p.world.announced ++ [news] = w.announced ++ (p.told ++ [(i, news)]).map (·.2)
    rw [h.announced, List.map_append, List.append_assoc]
    rfl

theorem stored_take_of_clear {i : Nat} {change : World → World} {next : World → Thread Ending}
    (hnone : (next p.world).owed = none) : (p.take i change next).stored = p.stored := by
  show p.stored ++ ((next p.world).owed.map (i, ·)).toList = p.stored
  rw [hnone]
  exact List.append_nil _

/-- A step of a thread is an entry in its account. -/
theorem take (h : p.Inv e w) {i : Nat} {change : World → World} {next : World → Thread Ending}
    (hthread : p.thread i = .step change next) :
    (p.take i change next).Inv e w ∧ p.Passes e (p.take i change next) := by
  obtain ⟨account, haccount, hstored, htold⟩ := h.account i
  rw [hthread] at haccount
  obtain ⟨hclosed, hsteps⟩ := haccount
  obtain ⟨hannounced, account', hentry, hnext⟩ := hsteps p.world
  have hi : i < p.threads.length := lt_length hthread nofun
  have hstill : (p.take i change next).world.announced = w.announced ++ p.told.map (·.2) :=
    hannounced.trans h.announced
  -- A step with nothing to be announced leaves the logs as they are.
  have hquiet (hnext : (next p.world).KeepsAccount e Ending.Accounts account) :
      (p.take i change next).Inv e w ∧ (p.take i change next).stored = p.stored := by
    have hsame : (p.take i change next).stored = p.stored :=
      stored_take_of_clear (hnext.owed_eq.trans hclosed)
    refine ⟨h.replace hi rfl hnext ?_ htold ?_ hstill ?_, hsame⟩
    · rw [hsame, hstored]
    · exact fun k _ => ⟨by rw [hsame], rfl⟩
    · rw [hsame]
      exact h.kind
  cases hentry with
  | kept _ hcontent =>
    obtain ⟨hinv, hsame⟩ := hquiet hnext
    exact ⟨hinv, .rests hcontent hsame rfl⟩
  | parked _ n hguard hledger =>
    obtain ⟨hinv, hsame⟩ := hquiet hnext
    exact ⟨hinv, .parks n hguard hledger hsame rfl⟩
  | stored news hkind hledger =>
    have howed : (next p.world).owed = some news := hnext.owed_eq
    have hsaved : (p.take i change next).stored = p.stored ++ [(i, news)] := by
      show p.stored ++ ((next p.world).owed.map (i, ·)).toList = _
      rw [howed]
      rfl
    have hthread' : ((p.take i change next).thread i).owed = some news := by
      rw [thread_set hi rfl, if_pos rfl]
      exact howed
    refine ⟨h.replace hi rfl hnext ?_ htold ?_ hstill ?_, .stores i news hthread' hledger hsaved rfl⟩
    · rw [hsaved, ofThread_append, hstored, if_pos rfl]
      rfl
    · intro k hik
      rw [hsaved, ofThread_append, if_neg hik, List.append_nil]
      exact ⟨rfl, rfl⟩
    · intro entry hentry
      rw [hsaved] at hentry
      rcases List.mem_append.mp hentry with hold | hnew
      · exact h.kind entry hold
      · rw [List.mem_singleton.mp hnew]
        exact hkind

/-- Every event keeps the accounts. -/
theorem step (h : p.Inv e w) (event : Event) :
    (p.step e event).Inv e w ∧ p.Passes e (p.step e event) := by
  cases event with
  | call c =>
    refine ⟨h.launch fun t ht => ?_, .rests (fun _ => rfl) rfl rfl⟩
    rw [List.mem_singleton.mp ht]
    exact e.keepsAccount_calling c
  | lease role duty =>
    refine ⟨h.launch fun t ht => ?_, .rests (fun _ => rfl) rfl rfl⟩
    rw [List.mem_singleton.mp ht]
    exact e.keepsAccount_leasing role duty
  | go i =>
    unfold Pool.step Pool.go
    simp only
    split
    · rename_i hthread
      exact h.take hthread
    · rename_i hthread
      exact h.tell hthread
    · exact ⟨h, .rests (fun _ => rfl) rfl rfl⟩
  | reply i reply =>
    unfold Pool.step
    simp only
    split
    · rename_i flight next hthread
      obtain ⟨account, haccount, hstored, htold⟩ := h.account i
      rw [hthread] at haccount
      have hi : i < p.threads.length := lt_length hthread nofun
      exact ⟨h.replace hi rfl (haccount.2 reply) hstored htold (fun _ _ => ⟨rfl, rfl⟩)
        h.announced h.kind, .rests (fun _ => rfl) rfl rfl⟩
    · exact ⟨h, .rests (fun _ => rfl) rfl rfl⟩
  | spread i =>
    unfold Pool.step
    simp only
    split
    · rename_i role duty batch hthread
      obtain ⟨account, haccount, hstored, htold⟩ := h.account i
      rw [hthread] at haccount
      have hi : i < p.threads.length := lt_length hthread nofun
      -- A thread that leased a batch has stored nothing.
      have hclear : account = .clear := haccount.2 Ending.noConfusion
      have hidle : (Thread.ended Ending.idle).KeepsAccount e Ending.Accounts account :=
        ⟨haccount.1, fun _ => hclear⟩
      have hreplaced := h.replace (q := { p with threads := p.threads.set i (.ended .idle) })
        hi rfl hidle hstored htold (fun _ _ => ⟨rfl, rfl⟩) h.announced h.kind
      refine ⟨hreplaced.launch fun t ht => ?_, .rests (fun _ => rfl) rfl rfl⟩
      obtain ⟨n, _, rfl⟩ := List.mem_map.mp ht
      exact e.keepsAccount_handling role duty n
    · exact ⟨h, .rests (fun _ => rfl) rfl rfl⟩

theorem run (h : p.Inv e w) (events : List Event) : (p.run e events).Inv e w := by
  induction events generalizing p with
  | nil => exact h
  | cons event events ih => exact ih (h.step event).1

end Inv

theorem inv_start (e : Engine) (w : World) : (start w).Inv e w where
  announced := (List.append_nil _).symm
  account i := by
    have hidle : (start w).thread i = .ended .idle := thread_of_le (Nat.zero_le i)
    rw [hidle]
    exact ⟨.clear, ⟨rfl, fun _ => rfl⟩, rfl, rfl⟩
  kind entry hentry := by cases hentry

/-! ## §5. What all threads come to. -/

theorem owed_of_owes (h : p.owes = false) (i : Nat) : (p.thread i).owed = none := by
  by_cases hi : i < p.threads.length
  · rw [thread_of_lt hi]
    have hnone := List.any_eq_false.mp h _ (List.getElem_mem hi)
    rwa [Option.not_isSome_iff_eq_none] at hnone
  · rw [thread_of_le (Nat.not_lt.mp hi)]
    rfl

theorem count_ofThread (i : Nat) (news : Announcement) (log : List (Nat × Announcement)) :
    (ofThread i log).count news = log.count (i, news) := by
  induction log with
  | nil => rfl
  | cons entry log ih =>
    obtain ⟨k, said⟩ := entry
    have hcons : ofThread i ((k, said) :: log)
        = (if k = i then [said] else []) ++ ofThread i log := by
      unfold ofThread
      by_cases hk : k = i
      · simp [hk]
      · simp [hk]
    rw [hcons, List.count_append, ih, List.count_cons]
    by_cases hk : k = i
    · simp [hk, List.count_singleton, Nat.add_comm]
    · simp [hk]

/-- Logs in which every thread has the same are the same but for the order. -/
theorem perm_of_ofThread {log log' : List (Nat × Announcement)}
    (h : ∀ i, ofThread i log = ofThread i log') : log.Perm log' := by
  refine List.perm_iff_count.mpr fun entry => ?_
  rw [← count_ofThread entry.1 entry.2 log, ← count_ofThread entry.1 entry.2 log', h]

/-- A single entry is what its thread has. -/
theorem eq_singleton {log : List (Nat × Announcement)} {i : Nat} {news : Announcement}
    (hshort : log.length ≤ 1) (hlog : ofThread i log = [news]) : log = [(i, news)] := by
  have hmem : news ∈ ofThread i log := by
    rw [hlog]
    exact List.mem_singleton_self news
  obtain ⟨⟨k, said⟩, hentry, rfl⟩ := List.mem_map.mp hmem
  obtain ⟨hin, hof⟩ := List.mem_filter.mp hentry
  obtain rfl : k = i := of_decide_eq_true hof
  obtain ⟨entry, rfl⟩ := List.length_eq_one_iff.mp
    (Nat.le_antisymm hshort (List.length_pos_of_mem hin))
  rw [List.mem_singleton.mp hin]

namespace Inv

theorem isFaithful (h : p.Inv e w) : p.IsFaithful e w where
  announced := h.announced
  each := h.each
  once i := by
    obtain ⟨account, _, hstored, _⟩ := h.account i
    rw [hstored]
    cases account <;> simp [Account.stored]
  idle i ending hthread hidle := by
    obtain ⟨account, haccount, hstored, _⟩ := h.account i
    rw [hthread] at haccount
    rw [hstored, haccount.2 hidle]
    rfl
  kind := h.kind
  settled howes := by
    refine perm_of_ofThread fun i => ?_
    rw [h.each i, owed_of_owes howes i]
    exact (List.append_nil _).symm
  step event := (h.step event).2

/-- What the logs differ in is owed. -/
theorem owed_of_append (h : p.Inv e w) {rest : List (Nat × Announcement)}
    (hrest : p.stored = p.told ++ rest) (i : Nat) :
    ofThread i rest = (p.thread i).owed.toList := by
  have heach := h.each i
  rw [hrest] at heach
  unfold ofThread at heach ⊢
  rw [List.filter_append, List.map_append] at heach
  exact List.append_cancel_left heach

/-- In an orderly run the announcements are what is stored, in order, and one may be missing. -/
theorem inStep (h : p.Inv e w) {events : List Event} (horderly : p.isOrderly e events = true)
    (hp : ∃ rest, p.stored = p.told ++ rest ∧ rest.length ≤ 1) :
    ∃ rest, (p.run e events).stored = (p.run e events).told ++ rest ∧ rest.length ≤ 1 := by
  -- Over the events: what is stored is announced before anything else is stored.
  induction events generalizing p with
  | nil => exact hp
  | cons event events ih =>
    rw [isOrderly, Bool.and_eq_true] at horderly
    obtain ⟨hnow, hlater⟩ := horderly
    refine ih (h.step event).1 hlater ?_
    obtain ⟨rest, hrest, hshort⟩ := hp
    have hpasses := (h.step event).2
    generalize p.step e event = p' at hpasses hnow ⊢
    cases hpasses with
    | rests _ hstored htold => exact ⟨rest, by rw [hstored, htold, hrest], hshort⟩
    | parks n hguard hledger hstored htold => exact ⟨rest, by rw [hstored, htold, hrest], hshort⟩
    | announces i news howed hledger hstored htold =>
      -- It is what is missing.
      have hmissing := h.owed_of_append hrest i
      rw [howed] at hmissing
      refine ⟨[], ?_, Nat.zero_le 1⟩
      rw [hstored, htold, hrest, eq_singleton hshort hmissing, List.append_nil]
    | stores i news howed hledger hstored htold =>
      have howes : p.owes = false := by
        rw [hstored, List.length_append] at hnow
        simpa using hnow
      have hnothing : rest = [] := by
        refine List.eq_nil_iff_forall_not_mem.mpr fun entry hentry => ?_
        have hmem : entry.2 ∈ ofThread entry.1 rest :=
          List.mem_map.mpr ⟨entry, List.mem_filter.mpr ⟨hentry, decide_eq_true rfl⟩, rfl⟩
        rw [h.owed_of_append hrest, owed_of_owes howes] at hmem
        cases hmem
      refine ⟨[(i, news)], ?_, Nat.le_refl 1⟩
      rw [hstored, htold, hrest, hnothing, List.append_nil]

end Inv

/-- The reply to a message whose record is gone ends its thread as soon as the record is looked up. -/
theorem land_of_gone (role : Role) (f : Flight) {reply : Reply} (hreply : reply ≠ .panicked)
    {w : World} (hgone : w.ledger.find? f.leased.id = none) :
    ∃ next, e.land .threaded role f reply = .step id next ∧ next w = .ended true := by
  cases reply with
  | panicked => exact absurd rfl hreply
  | answered response | failed failure =>
    refine ⟨_, rfl, ?_⟩
    show (Thread.andThen (Thread.andThen (.ended (w.ledger.find? f.leased.id)) _) _) = _
    rw [hgone]
    rfl

/-- In every run of an engine, whatever its guard, the replies, the calls that come meanwhile and the
order in which its threads go on, what is announced is what is stored: by each thread its one record,
as it is stored and as the next thing that the thread does; and none by a thread that is refused, puts
its record off, parks it or fails to move it on, nor by one whose record is gone.  All threads together
announce the same as they store; and in the order in which they store it, if none stores a record while
another one owes an announcement. -/
theorem announced_as_stored (e : Engine) (w : World) (events : List Event) :
    ((start w).run e events).IsFaithful e w
      ∧ ((start w).isOrderly e events = true → ∃ rest, ((start w).run e events).stored
          = ((start w).run e events).told ++ rest ∧ rest.length ≤ 1)
      ∧ ∀ (role : Role) (f : Flight) (reply : Reply) (w' : World), reply ≠ .panicked →
          w'.ledger.find? f.leased.id = none →
          ∃ next, e.land .threaded role f reply = .step id next ∧ next w' = .ended true := by
  have hstart := inv_start e w
  refine ⟨(hstart.run events).isFaithful, fun horderly => ?_, ?_⟩
  · exact hstart.inStep horderly ⟨[], rfl, Nat.zero_le 1⟩
  · exact fun role f reply w' hreply hgone => land_of_gone role f hreply hgone

/-- Two negotiations are started, and leased to be requested. -/
def untilLeased : List Event :=
  let request : ContractRequest :=
    ⟨"provider", "http://provider", "dsp", ⟨"offer", "asset", "provider", {}⟩⟩
  [.call (.initiate request), .go 0, .go 0, .go 0, .go 0, .go 0,
   .call (.initiate request), .go 1, .go 1, .go 1, .go 1, .go 1,
   .lease .consumer (.decide .initial .requesting), .go 2, .go 2, .spread 2]

/-- The one is stored and announced, and then the other. -/
def inTurn : List Event :=
  untilLeased ++ [.go 3, .go 3, .go 3, .go 3, .go 4, .go 4, .go 4, .go 4]

/-- Then they are announced in the order in which they are stored; and a reply that comes for no record
leaves nothing to be done. -/
theorem announced_in_turn :
    (start default).isOrderly Session.unhindered inTurn = true
      ∧ ((start default).run Session.unhindered inTurn).world.announced.map
          (fun news => (news.kind, news.negotiation.id))
          = [(.initial, "gen-0001"), (.initial, "gen-0002"),
             (.requesting, "gen-0001"), (.requesting, "gen-0002")]
      ∧ (∃ rest, ((start default).run Session.unhindered inTurn).stored
          = ((start default).run Session.unhindered inTurn).told ++ rest ∧ rest.length ≤ 1)
      ∧ Reply.answered (.object []) ≠ .panicked
      ∧ (default : World).ledger.find? (default : Flight).leased.id = none
      ∧ ∃ next, Session.unhindered.land .threaded .consumer default (.answered (.object []))
          = .step id next ∧ next default = .ended true := by
  have horderly : (start default).isOrderly Session.unhindered inTurn = true := by decide +kernel
  obtain ⟨_, hinStep, hgone⟩ := announced_as_stored Session.unhindered default inTurn
  exact ⟨horderly, by decide +kernel, hinStep horderly, nofun, rfl,
    hgone .consumer default _ default nofun rfl⟩

/-- The one is stored, the other is stored and announced, and only then is the one announced. -/
def overtaking : List Event :=
  untilLeased ++ [.go 3, .go 3, .go 3, .go 4, .go 4, .go 4, .go 4, .go 3]

/-- So two records of a batch may be announced the other way round than they were stored. -/
theorem announced_out_of_order :
    ((start default).run Session.unhindered overtaking).owes = false
      ∧ ((start default).run Session.unhindered overtaking).stored.map
          (fun entry => (entry.2.kind, entry.2.negotiation.id))
          = [(.initial, "gen-0001"), (.initial, "gen-0002"),
             (.requesting, "gen-0001"), (.requesting, "gen-0002")]
      ∧ ((start default).run Session.unhindered overtaking).world.announced.map
          (fun news => (news.kind, news.negotiation.id))
          = [(.initial, "gen-0001"), (.initial, "gen-0002"),
             (.requesting, "gen-0002"), (.requesting, "gen-0001")]
      ∧ ((start default).run Session.unhindered overtaking).world.announced
          ≠ ((start default).run Session.unhindered overtaking).stored.map (·.2) := by
  decide +kernel

end Pool

end Parley
