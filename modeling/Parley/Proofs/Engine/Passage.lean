/-
  Parley.Proofs.Engine.Passage
  ────────────────────────────────
  **AN ENGINE DOES THE SAME EVERYWHERE.**

  The operations of an engine are written for any way of getting at the world.
  A passage relates what is done in one way to what is done in another: it is
  given for the single uses of the world, and goes from one step to the next.
  Then it goes through every operation.

  So what is shown of an engine in a world of its own holds where that world is
  a part of something larger; and an operation of which every use of the store
  goes well goes well itself.
-/
import Parley.Engine.Loopback
import Parley.Engine.Tick
import Parley.Proofs.Negotiation.Progress

namespace Parley

open Parley.Batch
open Parley.Query
open Parley.Retry

/-! ## §1. Passages. -/

section Structures

variable {M N : Type → Type} [Monad M] [Monad N]

/-- A relation between computations that goes from step to step, and holds between the single uses of
one access and those of another in the name of a handle. -/
structure Pairing (a : Access M) (b : Access N) (h : Handle) where
  rel : {α : Type} → M α → N α → Prop
  given : ∀ {α : Type} (x : α), rel (pure x) (pure x)
  andThen : ∀ {α β : Type} {x : M α} {y : N α} {f : α → M β} {g : α → N β},
    rel x y → (∀ v, rel (f v) (g v)) → rel (x >>= f) (y >>= g)
  now : rel a.now b.now
  drawId : rel a.drawId b.drawId
  read : ∀ {α : Type} (f : Ledger → α), rel (a.read f) (b.read f)
  save : ∀ n, rel (a.save h n) (b.save h n)
  findAndLease : ∀ id, rel (a.findAndLease h id) (b.findAndLease h id)
  breakLease : ∀ id, rel (a.breakLease h id) (b.breakLease h id)
  nextNotLeased : ∀ max criteria,
    rel (a.nextNotLeased h max criteria) (b.nextNotLeased h max criteria)
  announce : ∀ news, rel (a.announce news) (b.announce news)

/-- Whether an operation on a negotiation is refused. -/
def Handled.isRefused : Handled → Prop
  | .ok _ => False
  | .error _ => True

/-- A relation between operations of an engine, given which of their results are idle: those that say
that nothing was announced.  A record is saved together with its announcement, by an engine that moved
it to the state that is announced, and nothing comes after that; or it is saved to be parked. -/
structure Passage (a : Access M) (b : Access N) (e : Engine) where
  rel : {α : Type} → (α → Prop) → M α → N α → Prop
  given : ∀ {α : Type} {idle : α → Prop} (x : α), rel idle (pure x) (pure x)
  andThen : ∀ {α β : Type} {idle : α → Prop} {idle' : β → Prop} {x : M α} {y : N α}
    {f : α → M β} {g : α → N β}, rel idle x y → (∀ v, idle v → rel idle' (f v) (g v)) →
    (∀ v, ¬ idle v → ∃ r, f v = pure r ∧ g v = pure r ∧ ¬ idle' r) → rel idle' (x >>= f) (y >>= g)
  now : rel (fun _ => True) a.now b.now
  drawId : rel (fun _ => True) a.drawId b.drawId
  read : ∀ {α : Type} (f : Ledger → α), rel (fun _ => True) (a.read f) (b.read f)
  findAndLease : ∀ id,
    rel (fun _ => True) (a.findAndLease e.handle id) (b.findAndLease e.handle id)
  breakLease : ∀ id, rel (fun _ => True) (a.breakLease e.handle id) (b.breakLease e.handle id)
  nextNotLeased : ∀ max criteria, rel (fun _ => True) (a.nextNotLeased e.handle max criteria)
    (b.nextNotLeased e.handle max criteria)
  persist : ∀ (kind : State) (n : Negotiation), n.state = kind.code →
    rel Handled.isRefused (e.persist a kind n) (e.persist b kind n)
  park : ∀ role duty n, e.guard n = true →
    rel (fun _ => True) ((e.job role duty).park a n) ((e.job role duty).park b n)

/-- What holds between all saves and announcements holds between those of an engine. -/
def Pairing.passage {a : Access M} {b : Access N} {e : Engine} (φ : Pairing a b e.handle) :
    Passage a b e where
  rel _ := φ.rel
  given := φ.given
  andThen {_ _ idle _ _ _ _ _} hxy hidle hbusy := by
    refine φ.andThen hxy fun v => ?_
    by_cases hv : idle v
    · exact hidle v hv
    · obtain ⟨r, hf, hg, _⟩ := hbusy v hv
      rw [hf, hg]
      exact φ.given r
  now := φ.now
  drawId := φ.drawId
  read := φ.read
  findAndLease := φ.findAndLease
  breakLease := φ.breakLease
  nextNotLeased := φ.nextNotLeased
  persist kind n _ := by
    unfold Engine.persist
    refine φ.andThen (φ.save n) fun r => ?_
    cases r with
    | error err => exact φ.given _
    | ok _ => exact φ.andThen (φ.announce _) fun _ => φ.given _
  park _ _ n _ := φ.andThen (φ.save _) fun _ => φ.given _

end Structures

namespace Passage

variable {M N : Type → Type} [Monad M] [Monad N] {a : Access M} {b : Access N} {e : Engine}
variable (φ : Passage a b e)

/-- The relation between operations that announce nothing. -/
abbrev quiet {α : Type} : M α → N α → Prop := φ.rel fun _ => True

/-- Something may come before that announces nothing. -/
theorem after {α β : Type} {idle : β → Prop} {x : M α} {y : N α} {f : α → M β} {g : α → N β}
    (hxy : φ.quiet x y) (hfg : ∀ v, φ.rel idle (f v) (g v)) : φ.rel idle (x >>= f) (y >>= g) :=
  φ.andThen hxy (fun v _ => hfg v) fun _ hv => absurd trivial hv

theorem find (id : String) : φ.quiet (a.find id) (b.find id) := φ.read _

theorem release (id : String) : φ.quiet (a.release e.handle id) (b.release e.handle id) :=
  φ.after (φ.breakLease id) fun _ => φ.given _

/-! ## §2. Transitions. -/

theorem transition (n : Negotiation) (target : State) :
    φ.rel Handled.isRefused (e.transition a n target) (e.transition b n target) := by
  unfold Engine.transition
  refine φ.after φ.now fun now => ?_
  cases hmoved : n.moveTo target now with
  | error err => exact φ.given _
  | ok m =>
    obtain ⟨_, rfl⟩ := Negotiation.moveTo_eq_ok hmoved
    exact φ.persist target _ rfl

theorem transitionAgreed (n : Negotiation) (agreement : Agreement) :
    φ.rel Handled.isRefused (e.transitionAgreed a n agreement)
      (e.transitionAgreed b n agreement) := by
  unfold Engine.transitionAgreed
  refine φ.after φ.now fun now => ?_
  cases hagreed : n.agreeOn agreement now with
  | error err => exact φ.given _
  | ok m =>
    obtain ⟨_, _, rfl⟩ := Negotiation.agreeOn_eq_ok hagreed
    exact φ.persist .agreed _ rfl

theorem transitionTerminated (n : Negotiation) (detail : Option String) :
    φ.rel Handled.isRefused (e.transitionTerminated a n detail)
      (e.transitionTerminated b n detail) := by
  unfold Engine.transitionTerminated
  refine φ.after φ.now fun now => ?_
  cases hmoved : n.moveTo .terminated now with
  | error err => exact φ.given _
  | ok m =>
    obtain ⟨_, rfl⟩ := Negotiation.moveTo_eq_ok hmoved
    refine φ.persist .terminated _ ?_
    cases detail <;> rfl

/-! ## §3. Requests and messages. -/

theorem leaseById (id : String) : φ.quiet (e.leaseById a id) (e.leaseById b id) := by
  unfold Engine.leaseById
  refine φ.after (φ.findAndLease id) fun r => ?_
  cases r with
  | ok n => exact φ.given _
  | error err => cases err <;> exact φ.given _

theorem refuse (n : Negotiation) (error : NegotiationError) :
    φ.rel Handled.isRefused (e.refuse a n error) (e.refuse b n error) :=
  φ.after (φ.release n.id) fun _ => φ.given _

theorem acquire (m : Message) (role : Role) (target : State) {goOn : Negotiation → M Handled}
    {goOn' : Negotiation → N Handled}
    (hgo : ∀ n, φ.rel Handled.isRefused (goOn n) (goOn' n)) :
    φ.rel Handled.isRefused (e.acquire a m role target goOn) (e.acquire b m role target goOn') := by
  unfold Engine.acquire
  cases m.processIdFor role with
  | none => exact φ.given _
  | some id =>
    refine φ.after (φ.leaseById id) fun r => ?_
    cases r with
    | error err => exact φ.given _
    | ok n =>
      simp only
      split
      · exact φ.refuse n _
      · cases n.checkEdge target with
        | error err => exact φ.refuse n _
        | ok _ => exact hgo _

theorem initiate (r : ContractRequest) :
    φ.rel Handled.isRefused (e.initiate a r) (e.initiate b r) :=
  φ.after φ.drawId fun _ => φ.after φ.now fun _ => φ.persist .initial _ rfl

theorem terminate (id reason : String) :
    φ.rel Handled.isRefused (e.terminate a id reason) (e.terminate b id reason) := by
  unfold Engine.terminate
  refine φ.after (φ.leaseById id) fun r => ?_
  cases r with
  | error err => exact φ.given _
  | ok n =>
    simp only
    cases n.checkEdge .terminating with
    | error err => exact φ.refuse n _
    | ok _ => exact φ.transition _ _

theorem unexpected (expected : String) (m : Message) :
    φ.rel Handled.isRefused (Engine.unexpected expected m) (Engine.unexpected expected m) :=
  φ.given _

theorem notifyRequested (m : Message) :
    φ.rel Handled.isRefused (e.notifyRequested a m) (e.notifyRequested b m) := by
  unfold Engine.notifyRequested
  cases m.payload with
  | contractRequest offer callbackAddress consumerId =>
    refine φ.after (φ.read _) fun known => ?_
    cases known with
    | some n => exact φ.given _
    | none => exact φ.after φ.drawId fun _ => φ.after φ.now fun _ => φ.transition _ _
  | _ => exact φ.unexpected _ m

theorem isHeldAs (m : Message) (role : Role) :
    φ.quiet (Engine.isHeldAs a m role) (Engine.isHeldAs b m role) := by
  unfold Engine.isHeldAs
  cases m.processIdFor role with
  | none => exact φ.given _
  | some id =>
    refine φ.after (φ.find id) fun found => ?_
    cases found <;> exact φ.given _

theorem receivingRole? (m : Message) :
    φ.quiet (Engine.receivingRole? a m) (Engine.receivingRole? b m) := by
  unfold Engine.receivingRole?
  refine φ.after (φ.isHeldAs m _) fun held => ?_
  cases held with
  | true => exact φ.given _
  | false =>
    refine φ.after (φ.isHeldAs m _) fun held => ?_
    cases held <;> exact φ.given _

theorem notifyTerminated (m : Message) :
    φ.rel Handled.isRefused (e.notifyTerminated a m) (e.notifyTerminated b m) := by
  unfold Engine.notifyTerminated
  cases m.payload with
  | termination reason policy =>
    refine φ.after (φ.receivingRole? m) fun role => ?_
    cases role with
    | none => exact φ.given _
    | some role => exact φ.acquire m role .terminated fun n => φ.transitionTerminated n reason
  | _ => exact φ.unexpected _ m

/-- A message is received in the same way. -/
theorem receive (m : Message) : φ.rel Handled.isRefused (e.receive a m) (e.receive b m) := by
  unfold Engine.receive
  cases hm : m.payload with
  | contractRequest offer callbackAddress consumerId => exact φ.notifyRequested m
  | contractOffer offer =>
    simp only [Engine.notifyOffered, hm]
    exact φ.acquire m .consumer .offered fun n => φ.transition _ _
  | negotiationEvent event =>
    cases event with
    | accepted =>
      simp only [Engine.notifyAccepted, hm]
      exact φ.acquire m .provider .accepted fun n => φ.transition n _
    | finalized =>
      simp only [Engine.notifyFinalized, hm]
      exact φ.acquire m .consumer .finalized fun n => φ.transition n _
  | contractAgreement agreement =>
    simp only [Engine.notifyAgreed, hm]
    refine φ.acquire m .consumer .agreed fun n => ?_
    split
    · exact φ.refuse n _
    · exact φ.transitionAgreed n agreement
  | agreementVerification =>
    simp only [Engine.notifyVerified, hm]
    exact φ.acquire m .provider .verified fun n => φ.transition n _
  | termination reason policy => exact φ.notifyTerminated m

/-! ## §4. Single records of a batch. -/

theorem lease (role : Role) (duty : Duty) :
    φ.quiet ((e.job role duty).lease a) ((e.job role duty).lease b) := by
  unfold Job.lease
  refine φ.after (φ.nextNotLeased _ _) fun r => ?_
  cases r <;> exact φ.given _

/-- What follows an action announces nothing. -/
theorem conclude {idle : Bool → Prop} (role : Role) (duty : Duty) (n : Negotiation)
    (verdict : Verdict) : φ.rel idle ((e.job role duty).conclude a n verdict)
      ((e.job role duty).conclude b n verdict) := by
  cases verdict with
  | handled => exact φ.given _
  | unchanged | failed | panicked => exact φ.after (φ.release n.id) fun _ => φ.given _

/-- The verdict on a transition that was announced is that the record is handled. -/
theorem verdict {α : Type} {x : M Handled} {y : N Handled} {f : Verdict → α} {idle : α → Prop}
    (h : φ.rel Handled.isRefused x y) (hf : ¬ idle (f .handled)) :
    φ.rel idle (x >>= fun r => pure (f r.verdict)) (y >>= fun r => pure (f r.verdict)) := by
  refine φ.andThen h (fun _ _ => φ.given _) fun r hr => ?_
  cases r with
  | ok m => exact ⟨f .handled, rfl, rfl, hf⟩
  | error err => exact absurd trivial hr

theorem take (duty : Duty) (n : Negotiation) :
    φ.rel (· ≠ .concluded .handled) (e.take a duty n) (e.take b duty n) := by
  have hhandled : ¬ Taken.concluded .handled ≠ .concluded .handled := fun hne => hne rfl
  unfold Engine.take
  cases duty with
  | decide source target => exact φ.verdict (φ.transition n target) hhandled
  | send message =>
    refine φ.after φ.now fun now => ?_
    cases e.payloadFor message n now with
    | error reason => exact φ.verdict (φ.transitionTerminated n _) hhandled
    | ok payload =>
      simp only
      split <;> exact φ.given _

theorem onAnswer (f : Flight) (current : Negotiation) (response : Json) :
    φ.rel Handled.isRefused (e.onAnswer a f current response)
      (e.onAnswer b f current response) := by
  unfold Engine.onAnswer
  split
  · exact φ.transition _ _
  · exact φ.transitionAgreed _ _
  · exact φ.transitionTerminated _ _
  · exact φ.transition _ _

theorem onOutcome (f : Flight) (outcome : Outcome Json) :
    φ.rel (· ≠ .handled) (e.onOutcome a f outcome) (e.onOutcome b f outcome) := by
  have hverdict {x : M Handled} {y : N Handled} (h : φ.rel Handled.isRefused x y) :
      φ.rel (· ≠ .handled) (x >>= fun r => pure r.verdict) (y >>= fun r => pure r.verdict) :=
    φ.verdict (f := fun verdict => verdict) h fun hne => hne rfl
  cases outcome with
  | delayed n => exact φ.given _
  | abandoned => exact φ.given _
  | succeeded current response => exact hverdict (φ.onAnswer f current response)
  | failed current failure => exact hverdict (φ.transition current _)
  | fatal current failure => exact hverdict (φ.transitionTerminated current _)
  | exhausted current failure => exact hverdict (φ.transitionTerminated current _)

theorem settle (f : Flight) (reply : Reply) :
    φ.rel (· ≠ .handled) (e.settle a f reply) (e.settle b f reply) := by
  cases reply with
  | panicked => exact φ.given _
  | answered response | failed failure =>
    exact φ.after (φ.find f.leased.id) fun _ => φ.onOutcome f _

/-- A reply is dealt with in the same way. -/
theorem land (role : Role) (f : Flight) (reply : Reply) :
    φ.rel (· = false) (e.land a role f reply) (e.land b role f reply) := by
  refine φ.andThen (φ.settle f reply) (fun verdict _ => ?_) fun verdict hverdict => ?_
  · exact φ.conclude role _ f.leased verdict
  · rw [Classical.not_not.mp hverdict]
    exact ⟨true, rfl, rfl, Bool.noConfusion⟩

section Lawful

variable [LawfulMonad M] [LawfulMonad N]

/-- A record is begun in the same way. -/
theorem begin (role : Role) (duty : Duty) (n : Negotiation) :
    φ.rel (· ≠ .done true) (e.begin a role duty n) (e.begin b role duty n) := by
  unfold Engine.begin
  split
  · rename_i hguard
    exact φ.after (φ.park role duty n hguard) fun _ => φ.given _
  · refine φ.andThen (φ.take duty n) (fun taken _ => ?_) fun taken htaken => ?_
    · cases taken with
      | inFlight flight => exact φ.given _
      | concluded verdict =>
        exact φ.after (φ.conclude role duty n verdict) fun _ => φ.given _
    · rw [Classical.not_not.mp htaken]
      exact ⟨.done true, pure_bind _ _, pure_bind _ _, fun hne => hne rfl⟩

/-- A record is handled in the same way if messages are sent in the same way, and nothing is announced
by that. -/
theorem handleRecord {c : Conduct M} {d : Conduct N} (hleft : c.toAccess = a)
    (hright : d.toAccess = b) (hsend : ∀ f, φ.quiet (c.send f) (d.send f)) (role : Role) (duty : Duty)
    (n : Negotiation) :
    φ.rel (· = false) (e.handleRecord c role duty n) (e.handleRecord d role duty n) := by
  unfold Engine.handleRecord
  rw [hleft, hright]
  refine φ.andThen (φ.begin role duty n) (fun begun _ => ?_) fun begun hbegun => ?_
  · cases begun with
    | done handled => exact φ.given _
    | sending f => exact φ.after (hsend f) fun reply => φ.land role f reply
  · rw [Classical.not_not.mp hbegun]
    exact ⟨true, rfl, rfl, Bool.noConfusion⟩

end Lawful

end Passage

/-! ## §5. Ticks. -/

namespace Pairing

variable {M N : Type → Type} [Monad M] [Monad N] {a : Access M} {b : Access N} {e : Engine}

theorem answer (φ : Pairing a b e.handle) (m : Message) : φ.rel (e.answer a m) (e.answer b m) := by
  unfold Engine.answer
  refine φ.andThen (φ.passage.receive m) fun r => ?_
  cases r <;> exact φ.given _

/-- In order, records are handled in the same way. -/
theorem inOrder (φ : Pairing a b e.handle) (ns : List Negotiation) {one : Negotiation → M Bool}
    {one' : Negotiation → N Bool} (hone : ∀ n, φ.rel (one n) (one' n)) :
    φ.rel (Batch.inOrder (ns.map one)) (Batch.inOrder (ns.map one')) := by
  induction ns with
  | nil => exact φ.given _
  | cons n ns ih => exact φ.andThen (hone n) fun _ => φ.andThen ih fun _ => φ.given _

/-- Ways to carry out ticks that belong together: messages are sent, and records handled side by
side, in the same way. -/
structure Conducts (φ : Pairing a b e.handle) (c : Conduct M) (d : Conduct N) : Prop where
  left : c.toAccess = a
  right : d.toAccess = b
  send : ∀ f, φ.rel (c.send f) (d.send f)
  gather : ∀ most (ns : List Negotiation) (one : Negotiation → M Bool) (one' : Negotiation → N Bool),
    (∀ n, φ.rel (one n) (one' n)) → φ.rel (c.gather most (ns.map one)) (d.gather most (ns.map one'))

variable [LawfulMonad M] [LawfulMonad N] {φ : Pairing a b e.handle} {c : Conduct M} {d : Conduct N}

theorem Conducts.lookAfterAll (hc : φ.Conducts c d) (role : Role) (duties : List Duty) :
    φ.rel (e.lookAfterAll c role duties) (e.lookAfterAll d role duties) := by
  induction duties with
  | nil => exact φ.given _
  | cons duty rest ih =>
    have hone : φ.rel (e.lookAfter c role duty) (e.lookAfter d role duty) := by
      unfold Engine.lookAfter
      rw [hc.left, hc.right]
      refine φ.andThen (φ.passage.lease role duty) fun leased => ?_
      exact hc.gather _ leased _ _ fun n =>
        φ.passage.handleRecord hc.left hc.right hc.send role duty n
    exact φ.andThen hone fun _ => φ.andThen ih fun _ => φ.given _

/-- A tick is the same. -/
theorem Conducts.runRole (hc : φ.Conducts c d) (role : Role) :
    φ.rel (e.runRole c role) (e.runRole d role) :=
  hc.lookAfterAll role role.duties

/-- So are the ticks of both roles. -/
theorem Conducts.runOnce (hc : φ.Conducts c d) : φ.rel (e.runOnce c) (e.runOnce d) :=
  φ.andThen (hc.runRole .consumer) fun _ => φ.andThen (hc.runRole .provider) fun _ => φ.given _

end Pairing

end Parley
