import Mathlib.Data.Set.Insert
import Mathlib.Logic.Function.Basic
import Mathlib.Logic.Relation
import HeadLink.Link.Worker

/-!
# The outbox of a link

Much of a link is about when a worker runs: clocks, bells, signals, counts of idle workers. None of it
decides *what* is handed to the transport. An outbox is the rest: the queue, the lock, the messages in the
hands of workers, and the journal.

`Outbox.Step` says once what can happen to an outbox while workers run and the caller writes control
frames, in any order. What the workers do, and in which order, is for the simulation to show.

## Contents
- **State.** `Grip`, `Outbox`, and `Link.outbox`, what a link shows of it.
- **Steps.** `Outbox.Work` is what workers do, `Outbox.Step` adds what the caller does; `Outbox.Works` and
  `Outbox.Steps` are any number of them. Small moves such as `Outbox.release` make up a step.
- **The lock.** `Outbox.Locked`: whoever writes holds the lock. It is kept by every move, hence by
  `Outbox.Work.locked`, `Outbox.Step.locked` and `Outbox.Steps.locked`.
-/

namespace HeadLink

/-! ## State -/

/-- How a worker with a message stands to the write lock and the transport. -/
inductive Hold where
  /-- It has asked for the lock. -/
  | waiting
  /-- It has the lock and hands over frames. -/
  | writing
  /-- It has the lock, and the frame that it handed over last has failed. -/
  | failed (causes : List String)
  deriving DecidableEq

/-- A message in the hands of a worker, and how far the worker is. -/
structure Grip where
  job : Job
  hold : Hold
  deriving DecidableEq

/-- The message that a worker at the given stage has in its hands. -/
def Stage.grip : Stage → Option Grip
  | .seeking | .idle _ => none
  | .queueing job => some ⟨job, .waiting⟩
  | .writing job | .calling job _ none => some ⟨job, .writing⟩
  | .calling job _ (some causes) => some ⟨job, .failed causes⟩

/-- What decides which frames a link hands over. -/
structure Outbox where
  sessions : Sessions
  queue : List Submission
  accepted : Nat
  lastMessage : UInt32
  started : Nat
  workers : Set Nat
  ready : List Nat
  grip : Nat → Option Grip
  lock : WriteLock
  journal : List Entry

/-- The outbox of a link. -/
def Link.outbox {σ : Type} (l : Link σ) : Outbox where
  sessions := l.sessions
  queue := l.queue
  accepted := l.accepted
  lastMessage := l.lastMessage
  started := l.started
  workers := {id | ∃ w, l.workers.get? id = some w}
  ready := l.ready
  grip id := (l.stageOf id).bind Stage.grip
  lock := l.lock
  journal := l.journal.toList

/-- What the frames of a submission have in common under a message id. -/
def Submission.envelope (s : Submission) (message : UInt32) : Envelope where
  version := s.version
  service := s.service
  session := s.session
  message := message

/-- On whose behalf the frames of a job are written. -/
def Job.origin (job : Job) : Origin := .message job.submission.number job.message

/-- All frames of a submission under a message id, the ones that were handed over included. -/
def Submission.frames? {σ : Type} (env : Environment σ) (s : Submission) (message : UInt32) :
    Except Fault (List Frame) :=
  (s.envelope message).segments s.payload (env.settings.frameBudget s.version)

/-! ## Steps -/

namespace Outbox

section Moves

variable {σ : Type} (env : Environment σ)

/-- The message id that was given out last, once a submission is prepared. -/
def idAfter (o : Outbox) (s : Submission) : UInt32 :=
  match o.sessions.requireStarted s.session with
  | .error _ => o.lastMessage
  | .ok _ => o.lastMessage + 1

/-- What preparing a submission comes to. -/
def prepared (o : Outbox) (s : Submission) : Except Fault Job :=
  match o.sessions.requireStarted s.session with
  | .error fault => .error fault
  | .ok _ => (s.frames? env (o.lastMessage + 1)).map fun left =>
      { submission := s, message := o.lastMessage + 1, left }

/-- A submission leaves the queue and gets its id. -/
def take (o : Outbox) (s : Submission) (queue : List Submission) : Outbox :=
  { o with queue, lastMessage := o.idAfter s, journal := o.journal ++ [.taken s] }

/-- Something happened. -/
def note (o : Outbox) (e : Entry) : Outbox :=
  { o with journal := o.journal ++ [e] }

/-- What a worker has in its hands changes. -/
def setGrip (o : Outbox) (id : Nat) (g : Option Grip) : Outbox :=
  { o with grip := Function.update o.grip id g }

/-- A party asks for the lock. -/
def request (o : Outbox) (p : Party) : Outbox :=
  { o with lock := o.lock.request p }

/-- The line of those that run next, with one worker added unless it is in it. -/
def rouse (id : Nat) (ready : List Nat) : List Nat :=
  if id ∈ ready then ready else ready ++ [id]

/-- The line of those that run next, once the lock has passed on: the worker that gets it is in it. -/
def readyAfterRelease (o : Outbox) : List Nat :=
  match o.lock.release.holder with
  | some (.worker id) => rouse id o.ready
  | _ => o.ready

/-- The lock passes on. -/
def release (o : Outbox) : Outbox :=
  { o with lock := o.lock.release, ready := o.readyAfterRelease }

/-- A worker is started. -/
def enlist (o : Outbox) : Outbox :=
  { o with
    started := o.started + 1
    workers := insert o.started o.workers
    ready := rouse o.started o.ready }

/-- A submission is accepted. -/
def accept (o : Outbox) (x : Outbound) : Outbox :=
  { o with
    queue := enqueue { x with number := o.accepted } o.queue
    accepted := o.accepted + 1 }

/-- All that waits is dropped. -/
def clear (o : Outbox) : Outbox :=
  { o with queue := [], journal := o.journal ++ o.queue.map .dropped }

/-- A worker has a message ready and asks for the lock; it goes on at once if the lock is free. -/
def startJob (o : Outbox) (id : Nat) (job : Job) : Outbox :=
  if o.lock.holder = none then (o.request (.worker id)).setGrip id (some ⟨job, .writing⟩)
  else { (o.request (.worker id)).setGrip id (some ⟨job, .waiting⟩) with ready := o.ready.tail }

end Moves

/-- How a worker stands after a call of the transport. -/
def holdAfter : Option (List String) → Hold
  | none => .writing
  | some causes => .failed causes

/-- **What workers do to an outbox.** -/
inductive Work {σ : Type} (env : Environment σ) : Outbox → Outbox → Prop
  /-- Workers end, wait, or are to run. None is made to run that waits for the lock. -/
  | rest {o : Outbox} (ready : List Nat) (workers : Set Nat) (hsub : workers ⊆ o.workers)
      (hnodup : o.ready.Nodup → ready.Nodup)
      (hready : ∀ id ∈ ready, id ∈ o.ready ∨ ∀ g, o.grip id = some g → g.hold ≠ .waiting) :
      Work env o { o with ready, workers }
  /-- A worker takes a message that cannot be sent. -/
  | refuse {o : Outbox} {s : Submission} {queue : List Submission} {fault : Fault}
      (hqueue : o.queue = s :: queue) (hprepared : o.prepared env s = .error fault) :
      Work env o ((o.take s queue).note (.told (.fault (.sending s) fault)))
  /-- A worker takes a message on. -/
  | takeOn {o : Outbox} {id : Nat} {s : Submission} {queue : List Submission} {job : Job}
      (hturn : o.ready.head? = some id) (hworker : id ∈ o.workers) (hgrip : o.grip id = none)
      (hqueue : o.queue = s :: queue) (hprepared : o.prepared env s = .ok job) :
      Work env o ((o.take s queue).startJob id job)
  /-- A worker finds that the lock is its own. -/
  | grant {o : Outbox} {id : Nat} {job : Job} (hturn : id ∈ o.ready)
      (hgrip : o.grip id = some ⟨job, .waiting⟩) :
      Work env o (o.setGrip id (some ⟨job, .writing⟩))
  /-- A worker hands over a frame. -/
  | hand {o : Outbox} {id : Nat} {job : Job} {f : Frame} {left : List Frame}
      {failure : Option (List String)} (hturn : id ∈ o.ready)
      (hgrip : o.grip id = some ⟨job, .writing⟩) (hleft : job.left = f :: left)
      (hanswer : ∃ carrier, (env.transport.call carrier f.encode).2.failure = failure) :
      Work env o
        ((o.note (.written job.origin f failure)).setGrip id (some ⟨{ job with left }, holdAfter failure⟩))
  /-- A worker has handed over all frames of its message. -/
  | finish {o : Outbox} {id : Nat} {job : Job} (hturn : id ∈ o.ready)
      (hgrip : o.grip id = some ⟨job, .writing⟩) (hleft : job.left = []) :
      Work env o (o.release.setGrip id none)
  /-- A worker gives up a message because of the frame that has failed. -/
  | giveUp {o : Outbox} {id : Nat} {job : Job} {causes : List String} (hturn : id ∈ o.ready)
      (hgrip : o.grip id = some ⟨job, .failed causes⟩) :
      Work env o ((o.release.note (.told (.fault (.sending job.submission)
        (.transport (.failed causes))))).setGrip id none)

/-- **What happens to an outbox** while workers run and the caller writes frames, all of which are allowed
    ones. -/
inductive Step {σ : Type} (env : Environment σ) (allowed : Frame → Prop) : Outbox → Outbox → Prop
  | work {o o' : Outbox} (hwork : Work env o o') : Step env allowed o o'
  /-- The caller asks for the lock. -/
  | request {o : Outbox} : Step env allowed o (o.request .caller)
  /-- The caller hands over a frame. -/
  | control {o : Outbox} {f : Frame} {failure : Option (List String)}
      (hholder : o.lock.holder = some .caller) (hallowed : allowed f)
      (hanswer : ∃ carrier, (env.transport.call carrier f.encode).2.failure = failure) :
      Step env allowed o (o.note (.written .control f failure))
  /-- The caller gives the lock back. -/
  | release {o : Outbox} (hholder : o.lock.holder = some .caller) : Step env allowed o o.release

/-- Any number of steps of workers. -/
abbrev Works {σ : Type} (env : Environment σ) : Outbox → Outbox → Prop :=
  Relation.ReflTransGen (Work env)

/-- Any number of steps. -/
abbrev Steps {σ : Type} (env : Environment σ) (allowed : Frame → Prop) : Outbox → Outbox → Prop :=
  Relation.ReflTransGen (Step env allowed)

theorem Works.steps {σ : Type} {env : Environment σ} {allowed : Frame → Prop} {o o' : Outbox}
    (works : Works env o o') : Steps env allowed o o' := by
  induction works with
  | refl => exact .refl
  | tail _ work ih => exact ih.tail (.work work)

/-! ### One place -/

section OnePlace

variable {α : Type} {held : Nat → Option α} {id id' : Nat} {x : α}

/-- After a change in one place, what is found there is new, and what is found elsewhere was there. -/
theorem update_eq_some {new : Option α} (h : Function.update held id new id' = some x) :
    (id' = id ∧ new = some x) ∨ (id' ≠ id ∧ held id' = some x) := by
  by_cases hne : id' = id
  · subst hne
    rw [Function.update_self] at h
    exact Or.inl ⟨rfl, h⟩
  · rw [Function.update_of_ne hne] at h
    exact Or.inr ⟨hne, h⟩

/-- After one place was emptied, what is found was there, in another place. -/
theorem update_none_eq_some (h : Function.update held id none id' = some x) :
    id' ≠ id ∧ held id' = some x := by
  rcases update_eq_some h with ⟨-, hnone⟩ | hother
  · cases hnone
  · exact hother

end OnePlace

/-! ### The line -/

theorem mem_rouse {id id' : Nat} {ready : List Nat} : id' ∈ rouse id ready ↔ id' ∈ ready ∨ id' = id := by
  unfold rouse
  split
  · rename_i h
    constructor
    · exact Or.inl
    · rintro (h' | rfl)
      · exact h'
      · exact h
  · exact List.mem_append.trans (or_congr Iff.rfl List.mem_singleton)

theorem nodup_rouse {ready : List Nat} (h : ready.Nodup) (id : Nat) : (rouse id ready).Nodup := by
  unfold rouse
  split
  · exact h
  · rename_i hid
    refine List.nodup_append.mpr ⟨h, by simp, ?_⟩
    intro a ha b hb hab
    exact hid (List.mem_singleton.mp hb ▸ hab ▸ ha)

theorem readyAfterRelease_of_worker {o : Outbox} {id : Nat}
    (h : o.lock.release.holder = some (.worker id)) : o.readyAfterRelease = rouse id o.ready := by
  unfold readyAfterRelease
  rw [h]

theorem readyAfterRelease_of_not_worker {o : Outbox}
    (h : ∀ id, o.lock.release.holder ≠ some (.worker id)) : o.readyAfterRelease = o.ready := by
  unfold readyAfterRelease
  split
  · rename_i id hid
    exact absurd hid (h id)
  · rfl

/-- After the lock has passed on, those are to run that were to run before, and who gets it. -/
theorem mem_readyAfterRelease {o : Outbox} {id : Nat} (h : id ∈ o.readyAfterRelease) :
    id ∈ o.ready ∨ o.lock.release.holder = some (.worker id) := by
  unfold readyAfterRelease at h
  split at h
  · rename_i next hnext
    rcases mem_rouse.mp h with h | rfl
    · exact Or.inl h
    · exact Or.inr hnext
  · exact Or.inl h

theorem mem_readyAfterRelease_of_mem {o : Outbox} {id : Nat} (h : id ∈ o.ready) :
    id ∈ o.readyAfterRelease := by
  unfold readyAfterRelease
  split
  · exact mem_rouse.mpr (Or.inl h)
  · exact h

theorem nodup_readyAfterRelease {o : Outbox} (h : o.ready.Nodup) : o.readyAfterRelease.Nodup := by
  unfold readyAfterRelease
  split
  · exact nodup_rouse h _
  · exact h

end Outbox

/-! ## The lock -/

namespace WriteLock

/-- Everyone who has or wants the lock, in the order in which they get it. -/
def parties (l : WriteLock) : List Party := l.holder.toList ++ l.waiting

theorem count_parties_request (l : WriteLock) (p q : Party) :
    (l.request p).parties.count q = l.parties.count q + if p = q then 1 else 0 := by
  unfold request parties
  cases l.holder with
  | none =>
    show (p :: l.waiting).count q = _
    rw [List.count_cons]
    simp
  | some r =>
    show (r :: (l.waiting ++ [p])).count q = (r :: l.waiting).count q + _
    rw [← List.cons_append, List.count_append, List.count_singleton]
    simp

theorem holder_request_of_some {l : WriteLock} {r : Party} (h : l.holder = some r) (p : Party) :
    (l.request p).holder = some r := by
  unfold request
  rw [h]

theorem holder_request_of_none {l : WriteLock} (h : l.holder = none) (p : Party) :
    (l.request p).holder = some p := by
  unfold request
  rw [h]

/-- Asking for the lock gives it to nobody else. -/
theorem holder_request {l : WriteLock} {p q : Party} (h : (l.request p).holder = some q) :
    l.holder = some q ∨ l.holder = none ∧ q = p := by
  cases hholder : l.holder with
  | none =>
    rw [holder_request_of_none hholder] at h
    cases h
    exact Or.inr ⟨rfl, rfl⟩
  | some r =>
    rw [holder_request_of_some hholder] at h
    exact Or.inl h

/-- Whoever passes the lock on is the first of the parties. -/
theorem parties_eq_cons {l : WriteLock} {p : Party} (h : l.holder = some p) :
    l.parties = p :: l.release.parties := by
  unfold parties release
  rw [h]
  cases l.waiting <;> rfl

end WriteLock

namespace Outbox

/-- **Whoever writes holds the lock.** A worker has or wants the lock exactly while it has a message in
    its hands, and then it has or wants it once. It is to run with a message only while the lock is its
    own. -/
structure Locked (o : Outbox) : Prop where
  parties : ∀ id, o.lock.parties.count (.worker id) = if (o.grip id).isSome then 1 else 0
  holding : ∀ {id g}, o.grip id = some g → g.hold ≠ .waiting → o.lock.holder = some (.worker id)
  turn : ∀ {id g}, id ∈ o.ready → o.grip id = some g → o.lock.holder = some (.worker id)
  nodup : o.ready.Nodup
  known : ∀ {id}, id ∈ o.workers → id < o.started
  gripped : ∀ {id g}, o.grip id = some g → id < o.started

variable {o : Outbox}

/-- A worker that holds the lock has a message in its hands. -/
theorem Locked.exists_grip (h : o.Locked) {id : Nat} (hid : o.lock.holder = some (.worker id)) :
    ∃ g, o.grip id = some g := by
  have hcount := h.parties id
  rw [WriteLock.parties_eq_cons hid, List.count_cons_self] at hcount
  split at hcount
  · rename_i hsome
    exact Option.isSome_iff_exists.mp hsome
  · omega

/-- A worker without a message does not hold the lock. -/
theorem Locked.holder_ne (h : o.Locked) {id : Nat} (hgrip : o.grip id = none) :
    o.lock.holder ≠ some (.worker id) := by
  intro hid
  obtain ⟨g, hg⟩ := h.exists_grip hid
  rw [hgrip] at hg
  cases hg

/-- The worker that holds the lock does not get it again when it passes the lock on. -/
theorem Locked.next_ne (h : o.Locked) {id : Nat} (hid : o.lock.holder = some (.worker id)) :
    o.lock.release.holder ≠ some (.worker id) := by
  intro hnext
  -- it would be counted twice among the parties
  have hcount := h.parties id
  rw [WriteLock.parties_eq_cons hid, List.count_cons_self, WriteLock.parties_eq_cons hnext,
    List.count_cons_self] at hcount
  split at hcount <;> omega

/-- Without workers and with a free lock there is nothing to keep to. -/
theorem Locked.blank (hgrip : ∀ id, o.grip id = none) (hlock : o.lock = {}) (hready : o.ready = [])
    (hworkers : o.workers = ∅) : o.Locked := by
  have hnone : ∀ {id g}, o.grip id ≠ some g := by
    intro id g hg
    cases (hgrip id).symm.trans hg
  refine ⟨?_, fun hg => absurd hg hnone, fun _ hg => absurd hg hnone, ?_, ?_, fun hg => absurd hg hnone⟩
  · intro id
    rw [hlock, hgrip id]
    rfl
  · rw [hready]
    exact List.nodup_nil
  · intro id hid
    rw [hworkers] at hid
    exact absurd hid (Set.notMem_empty id)

theorem Locked.note (h : o.Locked) (e : Entry) : (o.note e).Locked :=
  ⟨h.parties, h.holding, h.turn, h.nodup, h.known, h.gripped⟩

theorem Locked.take (h : o.Locked) (s : Submission) (queue : List Submission) :
    (o.take s queue).Locked :=
  ⟨h.parties, h.holding, h.turn, h.nodup, h.known, h.gripped⟩

/-- The worker that holds the lock gets on with its message. -/
theorem Locked.setGrip (h : o.Locked) {id : Nat} (hid : o.lock.holder = some (.worker id)) (g : Grip) :
    (o.setGrip id (some g)).Locked where
  parties id' := by
    show o.lock.parties.count _ = if (Function.update o.grip id (some g) id').isSome then 1 else 0
    rw [h.parties id']
    by_cases hne : id' = id
    · subst hne
      -- it had a message before, so it is counted as it was
      obtain ⟨g', hg'⟩ := h.exists_grip hid
      rw [hg', Function.update_self]
      rfl
    · rw [Function.update_of_ne hne]
  holding := by
    intro id' g' hg' hhold
    rcases update_eq_some hg' with ⟨rfl, -⟩ | ⟨-, hbefore⟩
    · exact hid
    · exact h.holding hbefore hhold
  turn := by
    intro id' g' hready hg'
    rcases update_eq_some hg' with ⟨rfl, -⟩ | ⟨-, hbefore⟩
    · exact hid
    · exact h.turn hready hbefore
  nodup := h.nodup
  known := h.known
  gripped := by
    intro id' g' hg'
    rcases update_eq_some hg' with ⟨rfl, -⟩ | ⟨-, hbefore⟩
    · obtain ⟨g₀, hg₀⟩ := h.exists_grip hid
      exact h.gripped hg₀
    · exact h.gripped hbefore

/-- The worker that holds the lock lets go of its message and passes the lock on. -/
theorem Locked.letGo (h : o.Locked) {id : Nat} (hid : o.lock.holder = some (.worker id)) :
    (o.release.setGrip id none).Locked where
  parties id' := by
    show o.lock.release.parties.count _ = if (Function.update o.grip id none id').isSome then 1 else 0
    have hcount := h.parties id'
    rw [WriteLock.parties_eq_cons hid] at hcount
    by_cases hne : id' = id
    · subst hne
      -- it was counted once, and was the one who held the lock
      obtain ⟨g, hg⟩ := h.exists_grip hid
      rw [List.count_cons_self, hg] at hcount
      rw [Function.update_self]
      exact Nat.succ.inj hcount
    · have hparty : Party.worker id ≠ Party.worker id' := fun heq => hne (Party.worker.inj heq).symm
      rw [List.count_cons_of_ne hparty] at hcount
      rw [Function.update_of_ne hne, hcount]
  holding := by
    intro id' g hg hhold
    obtain ⟨hne, hbefore⟩ := update_none_eq_some hg
    -- only one worker holds the lock, and it has just let go
    have hholder := h.holding hbefore hhold
    rw [hid] at hholder
    cases hholder
    exact absurd rfl hne
  turn := by
    intro id' g hready hg
    obtain ⟨hne, hbefore⟩ := update_none_eq_some hg
    rcases mem_readyAfterRelease hready with hline | hnext
    · have hholder := h.turn hline hbefore
      rw [hid] at hholder
      cases hholder
      exact absurd rfl hne
    · exact hnext
  nodup := nodup_readyAfterRelease h.nodup
  known := h.known
  gripped hg := h.gripped (update_none_eq_some hg).2

/-! ### A new message -/

/-- While the lock is free, all who have a message wait for their turn. -/
theorem Locked.waiting_of_free (h : o.Locked) (hfree : o.lock.holder = none) {id : Nat} {g : Grip}
    (hg : o.grip id = some g) : g.hold = .waiting ∧ id ∉ o.ready := by
  constructor
  · by_contra hhold
    cases hfree.symm.trans (h.holding hg hhold)
  · intro hready
    cases hfree.symm.trans (h.turn hready hg)

/-- A worker that asks for the lock when it gets a message has or wants it once. -/
theorem Locked.count_join (h : o.Locked) {id : Nat} (hgrip : o.grip id = none) (g : Grip) (id' : Nat) :
    (o.lock.request (.worker id)).parties.count (.worker id')
      = if (Function.update o.grip id (some g) id').isSome then 1 else 0 := by
  rw [WriteLock.count_parties_request, h.parties id']
  by_cases hne : id' = id
  · subst hne
    rw [hgrip, Function.update_self]
    simp
  · have hparty : Party.worker id ≠ Party.worker id' := fun heq => hne (Party.worker.inj heq).symm
    rw [Function.update_of_ne hne, if_neg hparty, Nat.add_zero]

theorem Locked.gripped_join (h : o.Locked) {id : Nat} (hworker : id ∈ o.workers) {g g' : Grip}
    {id' : Nat} (hg' : Function.update o.grip id (some g) id' = some g') : id' < o.started := by
  rcases update_eq_some hg' with ⟨rfl, -⟩ | ⟨-, hbefore⟩
  · exact h.known hworker
  · exact h.gripped hbefore

/-- A worker that finds the lock free goes on writing. -/
theorem Locked.join_free (h : o.Locked) {id : Nat} (hworker : id ∈ o.workers) (hgrip : o.grip id = none)
    (hfree : o.lock.holder = none) (g : Grip) :
    ((o.request (.worker id)).setGrip id (some g)).Locked where
  parties := h.count_join hgrip g
  holding := by
    intro id' g' hg' hhold
    rcases update_eq_some hg' with ⟨rfl, -⟩ | ⟨-, hbefore⟩
    · exact WriteLock.holder_request_of_none hfree _
    · exact absurd (h.waiting_of_free hfree hbefore).1 hhold
  turn := by
    intro id' g' hready hg'
    rcases update_eq_some hg' with ⟨rfl, -⟩ | ⟨-, hbefore⟩
    · exact WriteLock.holder_request_of_none hfree _
    · exact absurd hready (h.waiting_of_free hfree hbefore).2
  nodup := h.nodup
  known := h.known
  gripped := h.gripped_join hworker

/-- A worker that does not find the lock free leaves the line until it gets it. -/
theorem Locked.join_busy (h : o.Locked) {id : Nat} (hturn : o.ready.head? = some id)
    (hworker : id ∈ o.workers) (hgrip : o.grip id = none) (hbusy : o.lock.holder ≠ none) {g : Grip}
    (hwaits : g.hold = .waiting) :
    Locked { (o.request (.worker id)).setGrip id (some g) with ready := o.ready.tail } := by
  obtain ⟨p, hp⟩ := Option.ne_none_iff_exists'.mp hbusy
  have hkeep : ∀ q, o.lock.holder = some q → (o.lock.request (.worker id)).holder = some q :=
    fun q hq => WriteLock.holder_request_of_some hq _
  obtain ⟨rest, hrest⟩ : ∃ rest, o.ready = id :: rest := List.head?_eq_some_iff.mp hturn
  have hnodup := h.nodup
  rw [hrest] at hnodup
  obtain ⟨hleft, hnodup⟩ := List.nodup_cons.mp hnodup
  refine ⟨h.count_join hgrip g, ?_, ?_, ?_, h.known, h.gripped_join hworker⟩
  · intro id' g' hg' hhold
    rcases update_eq_some hg' with ⟨rfl, hnew⟩ | ⟨-, hbefore⟩
    · cases hnew
      exact absurd hwaits hhold
    · exact hkeep _ (h.holding hbefore hhold)
  · intro id' g' hready hg'
    have hmem : id' ∈ rest := by
      have : id' ∈ o.ready.tail := hready
      rwa [hrest] at this
    -- the worker itself is in the line only once, and has left it
    rcases update_eq_some hg' with ⟨rfl, -⟩ | ⟨-, hbefore⟩
    · exact absurd hmem hleft
    · have hline : id' ∈ o.ready := by
        rw [hrest]
        exact List.mem_cons_of_mem id hmem
      exact hkeep _ (h.turn hline hbefore)
  · show o.ready.tail.Nodup
    rw [hrest]
    exact hnodup

/-- A worker asks for the lock with a message in its hands. -/
theorem Locked.startJob (h : o.Locked) {id : Nat} (hturn : o.ready.head? = some id)
    (hworker : id ∈ o.workers) (hgrip : o.grip id = none) (job : Job) : (o.startJob id job).Locked := by
  unfold Outbox.startJob
  split
  · rename_i hfree
    exact h.join_free hworker hgrip hfree _
  · rename_i hbusy
    exact h.join_busy hturn hworker hgrip hbusy rfl

/-! ### Other moves -/

/-- The caller asks for the lock. -/
theorem Locked.request (h : o.Locked) : (o.request .caller).Locked where
  parties id := by
    show (o.lock.request .caller).parties.count (.worker id) = _
    have hparty : Party.caller ≠ Party.worker id := nofun
    rw [WriteLock.count_parties_request, h.parties id, if_neg hparty, Nat.add_zero]
    rfl
  holding := fun hg hhold => WriteLock.holder_request_of_some (h.holding hg hhold) _
  turn := fun hready hg => WriteLock.holder_request_of_some (h.turn hready hg) _
  nodup := h.nodup
  known := h.known
  gripped := h.gripped

/-- The caller passes the lock on. -/
theorem Locked.release (h : o.Locked) (hholder : o.lock.holder = some .caller) :
    o.release.Locked where
  parties id := by
    show o.lock.release.parties.count (.worker id) = _
    have hcount := h.parties id
    rw [WriteLock.parties_eq_cons hholder, List.count_cons_of_ne (by simp)] at hcount
    exact hcount
  holding := by
    intro id g hg hhold
    have := h.holding hg hhold
    rw [hholder] at this
    cases this
  turn := by
    intro id g hready hg
    rcases mem_readyAfterRelease hready with hbefore | hnext
    · have := h.turn hbefore hg
      rw [hholder] at this
      cases this
    · exact hnext
  nodup := nodup_readyAfterRelease h.nodup
  known := h.known
  gripped := h.gripped

/-- A worker is started. -/
theorem Locked.enlist (h : o.Locked) : o.enlist.Locked where
  parties := h.parties
  holding := h.holding
  turn := by
    intro id g hready hg
    rcases mem_rouse.mp hready with hbefore | rfl
    · exact h.turn hbefore hg
    · -- the number of the new worker is above those of all who have a message
      exact absurd (h.gripped hg) (Nat.lt_irrefl _)
  nodup := nodup_rouse h.nodup _
  known := by
    intro id hid
    rcases hid with rfl | hid
    · exact Nat.lt_succ_self _
    · exact Nat.lt_succ_of_lt (h.known hid)
  gripped := fun hg => Nat.lt_succ_of_lt (h.gripped hg)

theorem Locked.clear (h : o.Locked) : o.clear.Locked :=
  ⟨h.parties, h.holding, h.turn, h.nodup, h.known, h.gripped⟩

theorem Locked.accept (h : o.Locked) (x : Outbound) : (o.accept x).Locked :=
  ⟨h.parties, h.holding, h.turn, h.nodup, h.known, h.gripped⟩

variable {σ : Type} {env : Environment σ} {allowed : Frame → Prop} {o' : Outbox}

/-- **Whoever writes holds the lock, whatever a worker does next.** -/
theorem Work.locked (work : Work env o o') (h : o.Locked) : o'.Locked := by
  cases work with
  | rest ready workers hsub hnodup hready =>
    refine ⟨h.parties, h.holding, ?_, hnodup h.nodup, fun hid => h.known (hsub hid), h.gripped⟩
    intro id g hid hg
    rcases hready id hid with hbefore | hhold
    · exact h.turn hbefore hg
    · exact h.holding hg (hhold g hg)
  | refuse hqueue hprepared => exact (h.take _ _).note _
  | takeOn hturn hworker hgrip hqueue hprepared =>
    exact (h.take _ _).startJob hturn hworker hgrip _
  | grant hturn hgrip => exact h.setGrip (h.turn hturn hgrip) _
  | hand hturn hgrip hleft hanswer => exact (h.note _).setGrip (h.turn hturn hgrip) _
  | finish hturn hgrip hleft => exact h.letGo (h.turn hturn hgrip)
  | giveUp hturn hgrip =>
    have hgone := h.letGo (h.turn hturn hgrip)
    exact ⟨hgone.parties, hgone.holding, hgone.turn, hgone.nodup, hgone.known, hgone.gripped⟩

theorem Step.locked (step : Step env allowed o o') (h : o.Locked) : o'.Locked := by
  cases step with
  | work hwork => exact hwork.locked h
  | request => exact h.request
  | control hholder hallowed hanswer => exact h.note _
  | release hholder => exact h.release hholder

theorem Steps.locked (steps : Steps env allowed o o') (h : o.Locked) : o'.Locked := by
  induction steps with
  | refl => exact h
  | tail _ step ih => exact step.locked ih

theorem Works.locked (works : Works env o o') (h : o.Locked) : o'.Locked := by
  induction works with
  | refl => exact h
  | tail _ work ih => exact work.locked ih

/-- No worker takes the lock from the caller. -/
theorem Work.holder_caller (work : Work env o o') (h : o.Locked)
    (hholder : o.lock.holder = some .caller) : o'.lock.holder = some .caller := by
  -- workers with a message are not to run, and only those would release the lock
  have hnot : ∀ {id g}, id ∈ o.ready → o.grip id ≠ some g := by
    intro id g hturn hgrip
    cases hholder.symm.trans (h.turn hturn hgrip)
  cases work with
  | rest ready workers hsub hnodup hready => exact hholder
  | refuse hqueue hprepared => exact hholder
  | @takeOn id s queue job hturn hworker hgrip hqueue hprepared =>
    have hbusy : ¬ (o.take s queue).lock.holder = none := fun hfree => by
      cases hholder.symm.trans hfree
    unfold Outbox.startJob
    rw [if_neg hbusy]
    exact WriteLock.holder_request_of_some hholder _
  | grant hturn hgrip => exact hholder
  | hand hturn hgrip hleft hanswer => exact hholder
  | finish hturn hgrip hleft => exact absurd hgrip (hnot hturn)
  | giveUp hturn hgrip => exact absurd hgrip (hnot hturn)

theorem Works.holder_caller (works : Works env o o') (h : o.Locked)
    (hholder : o.lock.holder = some .caller) : o'.lock.holder = some .caller := by
  induction works with
  | refl => exact hholder
  | tail works work ih => exact work.holder_caller (Works.locked works h) ih

end Outbox

end HeadLink
