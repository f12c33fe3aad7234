/-
  Parley.Proofs.Engine.Threads
  ────────────────────────────────
  **OPERATIONS SIDE BY SIDE.**

  The operations of an engine are carried out side by side: calls from outside,
  and the records of a batch.  Each is a thread, which acts on the world one step
  at a time; between any two of its steps others may take theirs.  A record is
  stored in one step and announced in another.

  What a thread does about that does not depend on the others
  (`Thread.KeepsAccount`): it stores a record once at most, other than to park
  one, and what it does next is to announce that record, as it is stored.

      reporting    so it is with every operation of an engine
      solo         a thread that is left to itself does what the operation does
                   in a world of its own
-/
import Parley.Proofs.Engine.Breakdowns

namespace Parley

open Parley.Batch
open Parley.Query

/-! ## §1. Threads. -/

/-- A computation in a world that it shares with others: it takes a step there, makes an announcement,
or waits for the reply to a message, and what comes next depends on the world in which the step was
taken, and on the reply. -/
inductive Thread (α : Type) where
  | ended (a : α)
  | broken
  | step (change : World → World) (next : World → Thread α)
  | tell (news : Announcement) (next : Thread α)
  | ask (flight : Flight) (next : Reply → Thread α)

namespace Thread

variable {α β γ : Type}

/-- One thread after another. -/
def andThen : Thread α → (α → Thread β) → Thread β
  | ended a, f => f a
  | broken, _ => broken
  | step change next, f => .step change fun w => (next w).andThen f
  | tell news next, f => .tell news (next.andThen f)
  | ask flight next, f => .ask flight fun reply => (next reply).andThen f

instance : Monad Thread where
  pure := ended
  bind := andThen

theorem andThen_ended (t : Thread α) : t.andThen ended = t := by
  induction t with
  | ended a => rfl
  | broken => rfl
  | step change next ih => exact congrArg (step change) (funext ih)
  | tell news next ih => exact congrArg (tell news) ih
  | ask flight next ih => exact congrArg (ask flight) (funext ih)

theorem andThen_assoc (t : Thread α) (f : α → Thread β) (g : β → Thread γ) :
    (t.andThen f).andThen g = t.andThen fun a => (f a).andThen g := by
  induction t with
  | ended a => rfl
  | broken => rfl
  | step change next ih => exact congrArg (step change) (funext ih)
  | tell news next ih => exact congrArg (tell news) ih
  | ask flight next ih => exact congrArg (ask flight) (funext ih)

instance : LawfulMonad Thread :=
  LawfulMonad.mk' Thread andThen_ended (fun _ _ => rfl) andThen_assoc

/-- The announcement that a thread makes next. -/
def owed : Thread α → Option Announcement
  | tell news _ => some news
  | _ => none

end Thread

/-- Each use of the world is a step of its own.  A use of the store is two: the time is read first, and
then the store is used, if the leases that are judged have ends. -/
def Access.threaded : Access Thread where
  now := .step id fun w => .ended w.now
  advance ms := .step (·.advance ms) fun _ => .ended ()
  drawId := .step (·.drawId.2) fun w => .ended w.drawId.1
  read f := .step id fun w => .ended (f w.ledger)
  use judged f := .step id fun asked => .step
    (fun w => if judged w.ledger then { w with ledger := (f asked.now w.ledger).2 } else w)
    fun w => if judged w.ledger then .ended (f asked.now w.ledger).1 else .broken
  announce news := .tell news (.ended ())

/-- The conduct of an engine that waits for the replies to its messages. -/
def Conduct.threaded : Conduct Thread where
  toAccess := .threaded
  send flight := .ask flight .ended
  gather _ := inOrder

/-! ## §2. Accounts. -/

/-- What a thread has stored: nothing yet, or a record that it has yet to announce, or one that is
announced. -/
inductive Account where
  | clear
  | owing (news : Announcement)
  | settled (news : Announcement)

namespace Account

/-- What was stored. -/
def stored : Account → List Announcement
  | clear => []
  | owing news => [news]
  | settled news => [news]

/-- What was announced of it. -/
def told : Account → List Announcement
  | settled news => [news]
  | _ => []

/-- What is yet to be announced. -/
def owed : Account → Option Announcement
  | owing news => some news
  | _ => none

theorem stored_eq (account : Account) : account.stored = account.told ++ account.owed.toList := by
  cases account <;> rfl

/-- What a step of a thread does to the records, and to its account: they keep what they say, or one is
parked that the guard holds back, or, the first time, a record is stored. -/
inductive Entry (e : Engine) (w w' : World) : Account → Account → Prop
  | kept (account : Account) (hcontent : ∀ id, w'.ledger.content id = w.ledger.content id) :
      Entry e w w' account account
  | parked (account : Account) (n : Negotiation) (hguard : e.guard n = true)
      (hledger : w'.ledger = w.ledger.put ((n.withPending true).withLease none)) :
      Entry e w w' account account
  | stored (news : Announcement) (hkind : news.negotiation.state = news.kind.code)
      (hledger : w'.ledger = w.ledger.put (news.negotiation.withLease none)) :
      Entry e w w' clear (owing news)

end Account

namespace Thread

/-- A thread keeps its account: what it stores is what it announces next, and it comes to its end only
with nothing owed, and as is said of what is to its account then. -/
def KeepsAccount (e : Engine) (ends : Account → α → Prop) : Thread α → Account → Prop
  | ended a, account => account.owed = none ∧ ends account a
  | broken, account => account.owed = none
  | step change next, account => account.owed = none ∧ ∀ w, (change w).announced = w.announced
      ∧ ∃ account', account.Entry e w (change w) account' ∧ (next w).KeepsAccount e ends account'
  | tell news next, account => account = .owing news ∧ next.KeepsAccount e ends (.settled news)
  | ask _ next, account => account.owed = none ∧ ∀ reply, (next reply).KeepsAccount e ends account

section Rules

variable {α β : Type} {e : Engine} {t : Thread α} {account : Account} {ends : Account → α → Prop}
  {ends' : Account → β → Prop}

/-- What a thread announces next is what is owed on its account. -/
theorem KeepsAccount.owed_eq (h : t.KeepsAccount e ends account) : t.owed = account.owed := by
  cases t with
  | ended a => exact h.1.symm
  | broken => exact h.symm
  | step change next => exact h.1.symm
  | tell news next =>
    rw [h.1]
    rfl
  | ask flight next => exact h.1.symm

theorem KeepsAccount.andThen {f : α → Thread β} (h : t.KeepsAccount e ends account)
    (hf : ∀ a account, account.owed = none → ends account a → (f a).KeepsAccount e ends' account) :
    (t.andThen f).KeepsAccount e ends' account := by
  induction t generalizing account with
  | ended a => exact hf a account h.1 h.2
  | broken => exact h
  | step change next ih =>
    refine ⟨h.1, fun w => ?_⟩
    obtain ⟨hannounced, account', hentry, hnext⟩ := h.2 w
    exact ⟨hannounced, account', hentry, ih w hnext⟩
  | tell news next ih => exact ⟨h.1, ih h.2⟩
  | ask flight next ih => exact ⟨h.1, fun reply => ih reply (h.2 reply)⟩

theorem KeepsAccount.mono {ends' : Account → α → Prop} (h : t.KeepsAccount e ends account)
    (hends : ∀ account a, ends account a → ends' account a) : t.KeepsAccount e ends' account := by
  rw [← andThen_ended t]
  exact h.andThen fun a account hclosed ha => ⟨hclosed, hends account a ha⟩

/-- A step that leaves the records as they are. -/
theorem keepsAccount_step {change : World → World} {next : World → Thread α}
    (hclosed : account.owed = none) (hannounced : ∀ w, (change w).announced = w.announced)
    (hledger : ∀ w, (change w).ledger = w.ledger)
    (hnext : ∀ w, (next w).KeepsAccount e ends account) :
    (step change next).KeepsAccount e ends account :=
  ⟨hclosed, fun w => ⟨hannounced w, account,
    .kept account fun id => by rw [hledger w], hnext w⟩⟩

end Rules

section Uses

variable {α β : Type} {e : Engine} {ends : Account → β → Prop}

/-- A use of the store that the account allows, and what follows it. -/
theorem keepsAccount_attempt (after : Account) {judged : Ledger → Bool}
    {f : Instant → Ledger → Except StoreError (α × Ledger)} {g : Except StoreError α → Thread β}
    (hf : ∀ (now : Instant) (w : World) (a : α) (l : Ledger), f now w.ledger = .ok (a, l) →
      Account.clear.Entry e w { w with ledger := l } after)
    (hok : ∀ a, (g (.ok a)).KeepsAccount e ends after)
    (herror : ∀ err, (g (.error err)).KeepsAccount e ends .clear) :
    (Access.threaded.attempt judged f >>= g).KeepsAccount e ends .clear := by
  refine keepsAccount_step rfl (fun _ => rfl) (fun _ => rfl) fun asked => ⟨rfl, fun w => ?_⟩
  beta_reduce
  cases hjudged : judged w.ledger with
  | false =>
    simp only [Bool.false_eq_true, ↓reduceIte]
    exact ⟨trivial, .clear, .kept _ fun _ => rfl, rfl⟩
  | true =>
    simp only [↓reduceIte]
    refine ⟨trivial, ?_⟩
    cases hresult : f asked.now w.ledger with
    | error err => exact ⟨.clear, .kept _ fun _ => rfl, herror err⟩
    | ok result => exact ⟨after, hf asked.now w result.1 result.2 hresult, hok result.1⟩

/-- A use of the store that leaves what the records say. -/
theorem keepsAccount_attempt_of_content {judged : Ledger → Bool} {ends : Account → _ → Prop}
    {f : Instant → Ledger → Except StoreError (α × Ledger)}
    (hf : ∀ now l a l', f now l = .ok (a, l') → ∀ id, l'.content id = l.content id)
    (hends : ∀ a, ends .clear a) :
    (Access.threaded.attempt judged f).KeepsAccount e ends .clear := by
  rw [← andThen_ended (Access.threaded.attempt judged f)]
  exact keepsAccount_attempt .clear
    (fun now w a l hok => .kept .clear fun id => hf now w.ledger a l hok id)
    (fun a => ⟨rfl, hends _⟩) fun err => ⟨rfl, hends _⟩

end Uses

end Thread

/-! ## §3. Every operation. -/

open Thread

/-- What an engine does in a thread: what is stored is announced next, and nothing is stored if the
result is that nothing was announced. -/
def Access.reporting (e : Engine) : Passage threaded threaded e where
  rel idle x y := x = y ∧ x.KeepsAccount e (fun account a => idle a → account = .clear) .clear
  given _ := ⟨rfl, rfl, fun _ => rfl⟩
  andThen := by
    rintro α β idle idle' x _ f g ⟨rfl, hx⟩ hidle hbusy
    refine ⟨congrArg (x >>= ·) (funext fun v => ?_), hx.andThen fun v account hclosed hv => ?_⟩
    · by_cases hv : idle v
      · exact (hidle v hv).1
      · obtain ⟨r, hf, hg, _⟩ := hbusy v hv
        rw [hf, hg]
    · by_cases hidling : idle v
      · rw [hv hidling]
        exact (hidle v hidling).2
      · obtain ⟨r, hf, _, hr⟩ := hbusy v hidling
        rw [hf]
        exact ⟨hclosed, fun hidle' => absurd hidle' hr⟩
  now := ⟨rfl, keepsAccount_step rfl (fun _ => rfl) (fun _ => rfl) fun _ => ⟨rfl, fun _ => rfl⟩⟩
  drawId := ⟨rfl, keepsAccount_step rfl (fun _ => rfl) (fun _ => rfl) fun _ => ⟨rfl, fun _ => rfl⟩⟩
  read _ := ⟨rfl, keepsAccount_step rfl (fun _ => rfl) (fun _ => rfl) fun _ => ⟨rfl, fun _ => rfl⟩⟩
  findAndLease id := by
    refine ⟨rfl, keepsAccount_attempt_of_content ?_ fun _ _ => rfl⟩
    intro now l n l' hok other
    obtain ⟨_, _, rfl⟩ := Ledger.findAndLease_eq_ok hok
    exact Ledger.content_setLease l id other _
  breakLease id := by
    refine ⟨rfl, keepsAccount_attempt_of_content ?_ fun _ _ => rfl⟩
    intro now l _ l' hok other
    obtain ⟨_, hbreak, heq⟩ := ok_of_map hok
    cases heq
    obtain ⟨_, rfl⟩ := Ledger.breakLease_eq_ok hbreak
    exact Ledger.content_setLease l id other none
  nextNotLeased max criteria := by
    refine ⟨rfl, ?_⟩
    unfold nextNotLeased
    cases validate criteria with
    | error err => exact ⟨rfl, fun _ => rfl⟩
    | ok _ =>
      refine keepsAccount_attempt_of_content ?_ fun _ _ => rfl
      intro now l batch l' hok other
      obtain ⟨rfl, _⟩ := Ledger.nextNotLeased_eq_ok hok
      exact Ledger.content_leaseEach l _ _ other
  persist kind n hkind := by
    refine ⟨rfl, ?_⟩
    unfold Engine.persist
    refine keepsAccount_attempt (.owing ⟨kind, n⟩) ?_ ?_ ?_
    · intro now w _ l hok
      obtain ⟨_, hsave, heq⟩ := ok_of_map hok
      cases heq
      obtain ⟨_, rfl⟩ := Ledger.save_eq_ok hsave
      exact .stored ⟨kind, n⟩ hkind rfl
    · exact fun _ => ⟨rfl, rfl, fun hrefused => hrefused.elim⟩
    · exact fun err => ⟨rfl, fun _ => rfl⟩
  park role duty n hguard := by
    refine ⟨rfl, ?_⟩
    unfold Job.park
    refine keepsAccount_attempt .clear ?_ ?_ ?_
    · intro now w _ l hok
      obtain ⟨_, hsave, heq⟩ := ok_of_map hok
      cases heq
      obtain ⟨_, rfl⟩ := Ledger.save_eq_ok hsave
      exact .parked .clear n hguard rfl
    · exact fun _ => ⟨rfl, fun _ => rfl⟩
    · exact fun err => ⟨rfl, fun _ => rfl⟩

/-- A call that is not granted has stored nothing. -/
theorem Call.keepsAccount (e : Engine) (c : Call) : (c.perform e .threaded).KeepsAccount e
    (fun account granted => granted = false → account = .clear) .clear := by
  by_cases hc : ∀ ms, c ≠ .advance ms
  · exact ((Access.reporting e).performCall c hc).2
  · obtain ⟨ms, hc⟩ := Classical.not_forall.mp hc
    rw [Classical.not_not.mp hc]
    exact keepsAccount_step rfl (fun _ => rfl) (fun _ => rfl) fun _ => ⟨rfl, fun _ => rfl⟩

namespace Engine

variable (e : Engine) (role : Role) (duty : Duty)

/-- Leasing a batch stores nothing. -/
theorem keepsAccount_lease : ((e.job role duty).lease .threaded).KeepsAccount e
    (fun account _ => account = .clear) .clear :=
  ((Access.reporting e).lease role duty).2.mono fun _ _ h => h trivial

/-- A record that does not count as handled is not stored, or parked. -/
theorem keepsAccount_handleRecord (n : Negotiation) :
    (e.handleRecord .threaded role duty n).KeepsAccount e
      (fun account handled => handled = false → account = .clear) .clear := by
  have hsend : ∀ flight, (Access.reporting e).quiet (Conduct.threaded.send flight)
      (Conduct.threaded.send flight) :=
    fun _ => ⟨rfl, rfl, fun _ => ⟨rfl, fun _ => rfl⟩⟩
  exact ((Access.reporting e).handleRecord rfl rfl hsend role duty n).2

end Engine

/-! ## §4. Left to itself. -/

/-- Carry out a thread with no one in between, given how messages are answered. -/
def Thread.alone {α : Type} (send : Flight → OptionT (StateM World) Reply) :
    Thread α → OptionT (StateM World) α
  | ended a => return a
  | broken => failure
  | step change next => do
    let w ← get
    set (change w)
    (next w).alone send
  | tell news next => do
    modify (·.announce news)
    next.alone send
  | ask flight next => do (next (← send flight)).alone send

section Alone

variable (send : Flight → OptionT (StateM World) Reply)

theorem Thread.alone_andThen {α β : Type} (t : Thread α) (f : α → Thread β) :
    (t.andThen f).alone send = t.alone send >>= fun a => (f a).alone send := by
  induction t with
  | ended a => simp only [andThen, alone, pure_bind]
  | broken => rfl
  | step change next ih => simp only [andThen, alone, ih, bind_assoc]
  | tell news next ih => simp only [andThen, alone, ih, bind_assoc]
  | ask flight next ih => simp only [andThen, alone, ih, bind_assoc]

theorem Thread.alone_attempt {α : Type} (judged : Ledger → Bool)
    (f : Instant → Ledger → Except StoreError (α × Ledger)) :
    (Access.threaded.attempt judged f).alone send = Access.strict.attempt judged f := by
  refine OptionT.ext (funext fun w => ?_)
  refine Eq.trans ?_ (Access.strict_attempt judged f w).symm
  show ((if judged w.ledger then .ended _ else .broken : Thread _).alone send).run
    (if judged w.ledger then _ else w) = _
  split
  · rfl
  · rfl

/-- A thread that is left to itself does what the operation does in a world of its own. -/
def Access.solo (h : Handle) : Pairing threaded strict h where
  rel x y := x.alone send = y
  given _ := rfl
  andThen {_ _ x _ f _} hx hf := by
    subst hx
    exact (x.alone_andThen send f).trans (congrArg (x.alone send >>= ·) (funext hf))
  now := rfl
  drawId := rfl
  read _ := rfl
  save _ := Thread.alone_attempt send _ _
  findAndLease _ := Thread.alone_attempt send _ _
  breakLease _ := Thread.alone_attempt send _ _
  nextNotLeased max criteria := by
    unfold nextNotLeased
    cases validate criteria with
    | error err => rfl
    | ok _ => exact Thread.alone_attempt send _ _
  announce _ := rfl

variable (e : Engine)

theorem Call.alone_perform (c : Call) :
    (c.perform e .threaded).alone send = c.perform e .strict := by
  by_cases hc : ∀ ms, c ≠ .advance ms
  · exact (Access.solo send e.handle).passage.performCall c hc
  · obtain ⟨ms, hc⟩ := Classical.not_forall.mp hc
    rw [Classical.not_not.mp hc]
    rfl

theorem Engine.alone_lease (role : Role) (duty : Duty) :
    ((e.job role duty).lease .threaded).alone send = (e.job role duty).lease .strict :=
  (Access.solo send e.handle).passage.lease role duty

theorem Engine.alone_handleRecord (role : Role) (duty : Duty) (n : Negotiation) :
    (e.handleRecord .threaded role duty n).alone send
      = e.handleRecord (.strictly send) role duty n := by
  have hsend : ∀ flight, (Access.solo send e.handle).passage.quiet (Conduct.threaded.send flight)
      ((Conduct.strictly send).send flight) := fun flight => bind_pure (send flight)
  exact (Access.solo send e.handle).passage.handleRecord rfl rfl hsend role duty n

end Alone

end Parley
