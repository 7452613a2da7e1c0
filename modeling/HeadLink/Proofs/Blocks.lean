import HeadLink.Proofs.Outbox

/-!
# Blocks of frames

What a link hands to its transport is a sequence of blocks: a control frame, all frames of a message, or
the frames of a message up to the one that has failed. The block that is being written belongs to whoever
holds the lock.

## Contents
- **Blocks.** `Written`, `Outbox.handed` and `Block`; `Block.Good` ties a block to the messages that were
  accepted.
- **Numbers.** `Apart`: no accepted message is in two places.
- **Steps.** `Outbox.Traced` is what every step preserves (`Outbox.Work.traced`, `Outbox.Step.traced`,
  `Outbox.Steps.traced`).
- **Calls.** What is accepted, started and dropped between steps (`Outbox.Traced.accept` and the like).
- **Frames of messages.** `Outbox.Traced.of_mem_handed`: where a frame comes from that was handed over.
- **Rest.** `Outbox.Traced.handed_of_rest`: when no worker has a message in its hands, all that was handed
  over is blocks.
-/

namespace HeadLink

/-! ## Blocks -/

/-- A frame that was handed to the transport. -/
structure Written where
  origin : Origin
  frame : Frame
  failure : Option (List String)
  deriving DecidableEq

/-- The frame whose handing over an entry notes. -/
def Entry.written? : Entry → Option Written
  | .written origin frame failure => some ⟨origin, frame, failure⟩
  | _ => none

/-- What was handed to the transport, in order. -/
def Outbox.handed (o : Outbox) : List Written := o.journal.filterMap Entry.written?

/-- Frames of a submission that were handed over without failure. -/
def Submission.sent (s : Submission) (message : UInt32) (frames : List Frame) : List Written :=
  frames.map fun f => ⟨.message s.number message, f, none⟩

/-- Frames that are handed over under one grant of the lock, or one of several control frames that the
    caller writes. -/
inductive Block where
  | control (frame : Frame) (failure : Option (List String))
  /-- All frames of a submission. -/
  | whole (s : Submission) (message : UInt32) (frames : List Frame)
  /-- The frames of a submission up to the one that has failed. -/
  | broken (s : Submission) (message : UInt32) (frames : List Frame) (last : Frame)
      (causes : List String)

namespace Block

/-- What is handed over with the block. -/
def written : Block → List Written
  | control f failure => [⟨.control, f, failure⟩]
  | whole s message frames => s.sent message frames
  | broken s message frames last causes =>
    s.sent message frames ++ [⟨.message s.number message, last, some causes⟩]

/-- The number of the submission that the block belongs to. -/
def number? : Block → Option Nat
  | control _ _ => none
  | whole s _ _ | broken s _ _ _ _ => some s.number

end Block

/-- The submission is in the log of the messages that were accepted. -/
def Submission.Logged (log : List Outbound) (s : Submission) : Prop :=
  log[s.number]? = some s.toOutbound

/-- A submission is in a log that has grown. -/
theorem Submission.Logged.append {log : List Outbound} {s : Submission} (h : s.Logged log)
    (more : List Outbound) : s.Logged (log ++ more) := by
  have hlt : s.number < log.length := (List.getElem?_eq_some_iff.mp h).1
  unfold Submission.Logged
  rw [List.getElem?_append_left hlt]
  exact h

section

variable {σ : Type} (env : Environment σ) (allowed : Frame → Prop) (log : List Outbound)

/-- The transport may answer a frame in this way. -/
def Answers (f : Frame) (failure : Option (List String)) : Prop :=
  ∃ carrier, (env.transport.call carrier f.encode).2.failure = failure

/-- **What a block is made of**: an allowed control frame, or frames of an accepted message. -/
def Block.Good : Block → Prop
  | .control f failure => allowed f ∧ Answers env f failure
  | .whole s message frames => s.Logged log ∧ s.frames? env message = .ok frames
  | .broken s message frames last causes =>
    s.Logged log ∧ Answers env last (some causes)
      ∧ ∃ left, s.frames? env message = .ok (frames ++ last :: left)

/-- What a worker has handed over for the message in its hands: the frames in front of those that are
    left, which are none before it has the lock. -/
def Grip.Wrote (g : Grip) (written : List Written) : Prop :=
  match g.hold with
  | .waiting => written = [] ∧ g.job.submission.frames? env g.job.message = .ok g.job.left
  | .writing => ∃ frames, written = g.job.submission.sent g.job.message frames
      ∧ g.job.submission.frames? env g.job.message = .ok (frames ++ g.job.left)
  | .failed causes => ∃ frames last,
      written = g.job.submission.sent g.job.message frames ++ [⟨g.job.origin, last, some causes⟩]
        ∧ Answers env last (some causes)
        ∧ g.job.submission.frames? env g.job.message = .ok (frames ++ last :: g.job.left)

end

/-! ## Numbers -/

/-- No number is in two places, which are a queue, the hands of workers, and what is done. -/
structure Apart (queued : List Nat) (held : Nat → Option Nat) (done : List Nat) : Prop where
  nodup : (queued ++ done).Nodup
  not_mem : ∀ {id n}, held id = some n → n ∉ queued ++ done
  inj : ∀ {id id' n}, held id = some n → held id' = some n → id = id'

namespace Apart

variable {n id : Nat} {queued queued' done : List Nat} {held : Nat → Option Nat}

/-- A worker without a number takes the first of the queue. -/
theorem take (h : Apart (n :: queued) held done) (hfree : held id = none) :
    Apart queued (Function.update held id (some n)) done where
  nodup := (List.nodup_cons.mp h.nodup).2
  not_mem := by
    intro id' m hm
    rcases Outbox.update_eq_some hm with ⟨-, hnew⟩ | ⟨-, hbefore⟩
    · cases hnew
      exact (List.nodup_cons.mp h.nodup).1
    · exact fun hmem => h.not_mem hbefore (List.mem_cons_of_mem n hmem)
  inj := by
    intro a b m ha hb
    -- nobody else has the number, as it was in the queue
    have hother : ∀ {id'}, held id' ≠ some n := fun hn => h.not_mem hn List.mem_cons_self
    rcases Outbox.update_eq_some ha with ⟨rfl, hnew⟩ | ⟨-, hbefore⟩
    · cases hnew
      rcases Outbox.update_eq_some hb with ⟨rfl, -⟩ | ⟨-, hbefore⟩
      · rfl
      · exact absurd hbefore hother
    · rcases Outbox.update_eq_some hb with ⟨rfl, hnew⟩ | ⟨-, hbefore'⟩
      · cases hnew
        exact absurd hbefore hother
      · exact h.inj hbefore hbefore'

/-- A worker is done with its number. -/
theorem settle (h : Apart queued held done) (hn : held id = some n) :
    Apart queued (Function.update held id none) (done ++ [n]) where
  nodup := by
    rw [← List.append_assoc]
    refine List.nodup_append.mpr ⟨h.nodup, by simp, ?_⟩
    intro a ha b hb hab
    exact h.not_mem hn (List.mem_singleton.mp hb ▸ hab ▸ ha)
  not_mem := by
    intro id' m hm
    obtain ⟨hne, hbefore⟩ := Outbox.update_none_eq_some hm
    rw [← List.append_assoc]
    intro hmem
    rcases List.mem_append.mp hmem with hmem | hmem
    · exact h.not_mem hbefore hmem
    · -- two workers would have the same number
      rw [List.mem_singleton.mp hmem] at hbefore
      exact hne (h.inj hbefore hn)
  inj ha hb := h.inj (Outbox.update_none_eq_some ha).2 (Outbox.update_none_eq_some hb).2

/-- Numbers leave the queue for good. -/
theorem sublist (h : Apart queued held done) (hsub : queued'.Sublist queued) :
    Apart queued' held done where
  nodup := (hsub.append_right done).nodup h.nodup
  not_mem hm hmem := h.not_mem hm ((hsub.append_right done).subset hmem)
  inj := h.inj

/-- A new number comes into the queue. -/
theorem add (h : Apart queued held done) (hperm : queued'.Perm (n :: queued))
    (hnew : n ∉ queued ++ done) (hheld : ∀ id, held id ≠ some n) : Apart queued' held done where
  nodup := (hperm.append_right done).nodup_iff.mpr (List.nodup_cons.mpr ⟨hnew, h.nodup⟩)
  not_mem := by
    intro id m hm hmem
    rcases List.mem_cons.mp ((hperm.append_right done).subset hmem) with rfl | hmem
    · exact hheld id hm
    · exact h.not_mem hm hmem
  inj := h.inj

end Apart

/-! ## Steps -/

namespace Outbox

/-- The numbers in the hands of workers. -/
def numbers (o : Outbox) : Nat → Option Nat :=
  fun id => (o.grip id).map fun g => g.job.submission.number

theorem numbers_setGrip (o : Outbox) (id : Nat) (g : Option Grip) :
    (o.setGrip id g).numbers
      = Function.update o.numbers id (g.map fun g => g.job.submission.number) := by
  funext id'
  show (Function.update o.grip id g id').map _ = _
  by_cases hne : id' = id
  · rw [hne, Function.update_self, Function.update_self]
  · rw [Function.update_of_ne hne, Function.update_of_ne hne]
    rfl

theorem handed_note (o : Outbox) (e : Entry) :
    (o.note e).handed = o.handed ++ e.written?.toList := by
  show (o.journal ++ [e]).filterMap Entry.written? = _
  rw [List.filterMap_append]
  congr 1

variable {σ : Type} {env : Environment σ} {allowed : Frame → Prop} {log : List Outbound}
  {blocks : List Block} {o o' : Outbox}

/-- What is written of the block that is not finished: what the worker with the lock has handed over for
    its message, and nothing if no worker has the lock. -/
structure Current (env : Environment σ) (o : Outbox) (written : List Written) : Prop where
  worker : ∀ {id g}, o.lock.holder = some (.worker id) → o.grip id = some g → g.Wrote env written
  other : (∀ id, o.lock.holder ≠ some (.worker id)) → written = []

/-- **What was handed over is blocks and the beginning of another one.** All submissions are in the log
    under their numbers, and no number is in two places. -/
structure Traced (env : Environment σ) (allowed : Frame → Prop) (log : List Outbound)
    (blocks : List Block) (o : Outbox) : Prop where
  count : log.length = o.accepted
  queued : ∀ s ∈ o.queue, s.Logged log
  held : ∀ {id g}, o.grip id = some g → g.job.submission.Logged log
  apart : Apart (o.queue.map Submission.number) o.numbers (blocks.filterMap Block.number?)
  good : ∀ b ∈ blocks, b.Good env allowed log
  waiting : ∀ {id g}, o.grip id = some g → o.lock.holder ≠ some (.worker id) → g.Wrote env []
  written : ∃ current, o.handed = blocks.flatMap Block.written ++ current ∧ o.Current env current

/-- Before anything has happened there are no blocks. -/
theorem Traced.blank (hgrip : ∀ id, o.grip id = none) (hqueue : o.queue = []) (haccepted : o.accepted = 0)
    (hjournal : o.journal = []) : Traced env allowed [] [] o := by
  have hnone : ∀ {id g}, o.grip id ≠ some g := by
    intro id g hg
    cases (hgrip id).symm.trans hg
  have hnumber : ∀ {id n}, o.numbers id ≠ some n := by
    intro id n hn
    obtain ⟨g, hg, -⟩ := Option.map_eq_some_iff.mp hn
    exact hnone hg
  refine ⟨haccepted.symm, ?_, fun hg => absurd hg hnone, ?_, fun b hb => absurd hb List.not_mem_nil,
    fun hg => absurd hg hnone, [], ?_, fun _ hg => absurd hg hnone, fun _ => rfl⟩
  · intro s hs
    rw [hqueue] at hs
    cases hs
  · rw [hqueue]
    exact ⟨List.nodup_nil, fun hn => absurd hn hnumber, fun hn => absurd hn hnumber⟩
  · unfold handed
    rw [hjournal]
    rfl

/-- A prepared job has all frames of its submission ahead. -/
theorem prepared_eq_ok {s : Submission} {job : Job} (h : o.prepared env s = .ok job) :
    job.submission = s ∧ s.frames? env job.message = .ok job.left := by
  unfold prepared at h
  split at h
  · cases h
  · obtain ⟨frames, hframes⟩ : ∃ frames, s.frames? env (o.lastMessage + 1) = .ok frames := by
      cases hf : s.frames? env (o.lastMessage + 1) with
      | error fault =>
        rw [hf] at h
        cases h
      | ok frames => exact ⟨frames, rfl⟩
    rw [hframes] at h
    cases h
    exact ⟨rfl, hframes⟩

/-- An entry that is no frame leaves the blocks alone. -/
theorem Traced.note (h : Traced env allowed log blocks o) {e : Entry} (he : e.written? = none) :
    Traced env allowed log blocks (o.note e) where
  count := h.count
  queued := h.queued
  held := h.held
  apart := h.apart
  good := h.good
  waiting := h.waiting
  written := by
    obtain ⟨current, hhanded, hcurrent⟩ := h.written
    refine ⟨current, ?_, hcurrent.worker, hcurrent.other⟩
    rw [handed_note, he, hhanded]
    exact List.append_nil _

/-- A submission leaves the queue. -/
theorem Traced.take (h : Traced env allowed log blocks o) {s : Submission} {queue : List Submission}
    (hqueue : o.queue = s :: queue) : Traced env allowed log blocks (o.take s queue) where
  count := h.count
  queued := by
    intro t ht
    exact h.queued t (hqueue ▸ List.mem_cons_of_mem s ht)
  held := h.held
  apart := by
    have hsub : (queue.map Submission.number).Sublist (o.queue.map Submission.number) := by
      rw [hqueue]
      exact List.sublist_cons_self _ _
    exact h.apart.sublist hsub
  good := h.good
  waiting := h.waiting
  written := by
    obtain ⟨current, hhanded, hcurrent⟩ := h.written
    refine ⟨current, ?_, hcurrent.worker, hcurrent.other⟩
    have htake : (o.take s queue).handed = o.handed ++ [] := handed_note o (.taken s)
    rw [htake, hhanded, List.append_nil]

/-- It makes no difference which workers there are and which run next. -/
theorem Traced.rest (h : Traced env allowed log blocks o) (ready : List Nat) (workers : Set Nat)
    (started : Nat) : Traced env allowed log blocks { o with ready, workers, started } where
  count := h.count
  queued := h.queued
  held := h.held
  apart := h.apart
  good := h.good
  waiting := h.waiting
  written := by
    obtain ⟨current, hhanded, hcurrent⟩ := h.written
    exact ⟨current, hhanded, hcurrent.worker, hcurrent.other⟩

/-- A worker takes a submission on and asks for the lock; it has handed over nothing yet. -/
theorem Traced.join (h : Traced env allowed log blocks o) (hl : o.Locked) {id : Nat}
    (hgrip : o.grip id = none) {s : Submission} {queue : List Submission}
    (hqueue : o.queue = s :: queue) {g : Grip} (hsubmission : g.job.submission = s)
    (hwrote : g.Wrote env []) :
    Traced env allowed log blocks (((o.take s queue).request (.worker id)).setGrip id (some g)) where
  count := h.count
  queued := (h.take hqueue).queued
  held := by
    intro id' g' hg'
    rcases update_eq_some hg' with ⟨-, hnew⟩ | ⟨-, hbefore⟩
    · cases hnew
      rw [hsubmission]
      exact h.queued s (hqueue ▸ List.mem_cons_self)
    · exact h.held hbefore
  apart := by
    have hbefore := h.apart
    rw [hqueue, List.map_cons] at hbefore
    rw [numbers_setGrip, Option.map_some, hsubmission]
    apply hbefore.take
    unfold numbers
    rw [hgrip]
    rfl
  good := h.good
  waiting := by
    intro id' g' hg' hnot
    rcases update_eq_some hg' with ⟨-, hnew⟩ | ⟨-, hbefore⟩
    · cases hnew
      exact hwrote
    · apply h.waiting hbefore
      intro hid'
      exact hnot (WriteLock.holder_request_of_some hid' _)
  written := by
    obtain ⟨current, hhanded, hcurrent⟩ := (h.take hqueue).written
    refine ⟨current, hhanded, ?_, ?_⟩
    · intro id' g' hid' hg'
      rcases update_eq_some hg' with ⟨rfl, hnew⟩ | ⟨hne, hbefore⟩
      · cases hnew
        -- the lock was free, so that no block was begun
        rcases WriteLock.holder_request hid' with hheld | ⟨hfree, -⟩
        · exact absurd hheld (hl.holder_ne hgrip)
        · have hnone : current = [] := hcurrent.other fun id hid => by cases hfree.symm.trans hid
          rw [hnone]
          exact hwrote
      · rcases WriteLock.holder_request hid' with hheld | ⟨-, hself⟩
        · exact hcurrent.worker hheld hbefore
        · exact absurd (Party.worker.inj hself) hne
    · intro hnone
      apply hcurrent.other
      intro id' hid'
      exact hnone id' (WriteLock.holder_request_of_some hid' _)

theorem Traced.startJob (h : Traced env allowed log blocks o) (hl : o.Locked) {id : Nat}
    (hgrip : o.grip id = none) {s : Submission} {queue : List Submission}
    (hqueue : o.queue = s :: queue) {job : Job} (hprepared : o.prepared env s = .ok job) :
    Traced env allowed log blocks ((o.take s queue).startJob id job) := by
  obtain ⟨hsubmission, hframes⟩ := prepared_eq_ok hprepared
  rw [← hsubmission] at hframes
  unfold Outbox.startJob
  split
  · exact h.join hl hgrip hqueue hsubmission ⟨[], rfl, hframes⟩
  · have hjoin := h.join hl hgrip hqueue (g := ⟨job, .waiting⟩) hsubmission ⟨rfl, hframes⟩
    exact hjoin.rest _ _ _

/-- A worker that gets the lock has handed over nothing yet. -/
theorem wrote_grant {job : Job} {written : List Written}
    (h : (⟨job, .waiting⟩ : Grip).Wrote env written) : (⟨job, .writing⟩ : Grip).Wrote env written := by
  obtain ⟨rfl, hframes⟩ := h
  exact ⟨[], rfl, hframes⟩

/-- The frame that a worker hands over moves from those that are left to those that were handed over. -/
theorem wrote_hand {job : Job} {f : Frame} {left : List Frame} {failure : Option (List String)}
    {written : List Written} (hleft : job.left = f :: left) (hanswer : Answers env f failure)
    (h : (⟨job, .writing⟩ : Grip).Wrote env written) :
    (⟨{ job with left }, holdAfter failure⟩ : Grip).Wrote env (written ++ [⟨job.origin, f, failure⟩]) := by
  obtain ⟨frames, rfl, hframes⟩ := h
  rw [hleft] at hframes
  cases failure with
  | none =>
    refine ⟨frames ++ [f], ?_, ?_⟩
    · unfold Submission.sent
      rw [List.map_append]
      rfl
    · rw [List.append_assoc]
      exact hframes
  | some causes => exact ⟨frames, f, rfl, hanswer, hframes⟩

/-- The worker with the lock gets on with its message, and hands over what is new in the journal. -/
theorem Traced.progress (h : Traced env allowed log blocks o) {id : Nat}
    (hid : o.lock.holder = some (.worker id)) {g g' : Grip} (hg : o.grip id = some g)
    {new : List Written} (hwrote : ∀ written, g.Wrote env written → g'.Wrote env (written ++ new))
    (hsame : g'.job.submission = g.job.submission) {journal : List Entry}
    (hjournal : journal.filterMap Entry.written? = o.handed ++ new) :
    Traced env allowed log blocks (setGrip { o with journal } id (some g')) where
  count := h.count
  queued := h.queued
  held := by
    intro id' g₁ hg₁
    rcases update_eq_some hg₁ with ⟨-, hnew⟩ | ⟨-, hbefore⟩
    · cases hnew
      rw [hsame]
      exact h.held hg
    · exact h.held hbefore
  apart := by
    have hnumbers : (setGrip { o with journal } id (some g')).numbers = o.numbers := by
      rw [numbers_setGrip, Option.map_some, hsame]
      refine Function.update_eq_self_iff.mpr ?_
      unfold numbers
      rw [hg]
      rfl
    rw [hnumbers]
    exact h.apart
  good := h.good
  waiting := by
    intro id' g₁ hg₁ hnot
    rcases update_eq_some hg₁ with ⟨rfl, -⟩ | ⟨-, hbefore⟩
    · exact absurd hid hnot
    · exact h.waiting hbefore hnot
  written := by
    obtain ⟨current, hhanded, hcurrent⟩ := h.written
    refine ⟨current ++ new, ?_, ?_, ?_⟩
    · show journal.filterMap Entry.written? = _
      rw [hjournal, hhanded, List.append_assoc]
    · intro id' g₁ hid' hg₁
      cases hid.symm.trans hid'
      cases (Function.update_self ..).symm.trans hg₁
      exact hwrote current (hcurrent.worker hid hg)
    · exact fun hnone => absurd hid (hnone id)

/-- When the lock passes on, nothing of the next block is written yet: a worker that waits has handed over
    nothing. -/
theorem Traced.current_release (h : Traced env allowed log blocks o)
    (hnext : ∀ {id}, o.lock.release.holder = some (.worker id) → o.lock.holder ≠ some (.worker id)) :
    o.release.Current env [] where
  worker hid hg := h.waiting hg (hnext hid)
  other _ := rfl

/-- The worker with the lock lets go of its message: what it has handed over is a block. -/
theorem Traced.letGo (h : Traced env allowed log blocks o) (hl : o.Locked) {id : Nat}
    (hid : o.lock.holder = some (.worker id)) {g : Grip} (hg : o.grip id = some g)
    (hblock : ∀ written, g.Wrote env written → ∃ b : Block, b.Good env allowed log
      ∧ b.number? = some g.job.submission.number ∧ b.written = written) :
    ∃ b, Traced env allowed log (blocks ++ [b]) (o.release.setGrip id none) := by
  obtain ⟨current, hhanded, hcurrent⟩ := h.written
  -- what the worker has handed over becomes the last block, and the next one begins empty
  obtain ⟨b, hgood, hnumber, hwritten⟩ := hblock current (hcurrent.worker hid hg)
  have hnext : ∀ {id'}, o.lock.release.holder = some (.worker id') →
      o.lock.holder ≠ some (.worker id') := by
    intro id' hid' hbefore
    exact hl.next_ne hbefore hid'
  have hrelease := h.current_release hnext
  refine ⟨b, h.count, h.queued, fun hg' => h.held (update_none_eq_some hg').2, ?_, ?_, ?_, [], ?_, ?_, ?_⟩
  · rw [List.filterMap_append, List.filterMap_cons, hnumber, numbers_setGrip]
    refine h.apart.settle ?_
    unfold numbers
    rw [hg]
    rfl
  · intro b' hb'
    rcases List.mem_append.mp hb' with hb' | hb'
    · exact h.good b' hb'
    · rw [List.mem_singleton.mp hb']
      exact hgood
  · intro id' g' hg' hnot
    obtain ⟨hne, hbefore⟩ := update_none_eq_some hg'
    apply h.waiting hbefore
    intro hheld
    cases hid.symm.trans hheld
    exact hne rfl
  · show o.handed = _
    rw [hhanded, List.flatMap_append, List.flatMap_singleton, hwritten, List.append_nil]
  · exact fun hid' hg' => hrelease.worker hid' (update_none_eq_some hg').2
  · exact fun _ => rfl

/-- The caller hands over a frame, which is a block of its own. -/
theorem Traced.control (h : Traced env allowed log blocks o) (hholder : o.lock.holder = some .caller)
    {f : Frame} {failure : Option (List String)} (hallowed : allowed f)
    (hanswer : Answers env f failure) :
    Traced env allowed log (blocks ++ [.control f failure]) (o.note (.written .control f failure)) where
  count := h.count
  queued := h.queued
  held := h.held
  apart := by
    rw [List.filterMap_append]
    show Apart _ _ (blocks.filterMap Block.number? ++ [])
    rw [List.append_nil]
    exact h.apart
  good := by
    intro b hb
    rcases List.mem_append.mp hb with hb | hb
    · exact h.good b hb
    · rw [List.mem_singleton.mp hb]
      exact ⟨hallowed, hanswer⟩
  waiting := h.waiting
  written := by
    obtain ⟨current, hhanded, hcurrent⟩ := h.written
    -- the caller has the lock, so that no block of a worker is begun
    have hnone : current = [] := hcurrent.other fun id hid => by
      rw [hholder] at hid
      cases hid
    refine ⟨[], ?_, ?_, fun _ => rfl⟩
    · rw [handed_note, hhanded, hnone, List.append_nil, List.append_nil, List.flatMap_append]
      rfl
    · intro id g hid
      cases hholder.symm.trans hid

/-- The caller asks for the lock. -/
theorem Traced.request (h : Traced env allowed log blocks o) :
    Traced env allowed log blocks (o.request .caller) := by
  have hsame : ∀ id, (o.lock.request .caller).holder = some (.worker id)
      ↔ o.lock.holder = some (.worker id) := by
    intro id
    constructor
    · intro hid
      rcases WriteLock.holder_request hid with hheld | ⟨-, hcaller⟩
      · exact hheld
      · cases hcaller
    · exact fun hid => WriteLock.holder_request_of_some hid _
  obtain ⟨current, hhanded, hcurrent⟩ := h.written
  refine ⟨h.count, h.queued, h.held, h.apart, h.good, ?_, current, hhanded, ?_, ?_⟩
  · exact fun hg hnot => h.waiting hg fun hid => hnot ((hsame _).mpr hid)
  · exact fun hid hg => hcurrent.worker ((hsame _).mp hid) hg
  · exact fun hnone => hcurrent.other fun id hid => hnone id ((hsame id).mpr hid)

/-- The caller passes the lock on. -/
theorem Traced.release (h : Traced env allowed log blocks o)
    (hholder : o.lock.holder = some .caller) : Traced env allowed log blocks o.release := by
  have hnobody : ∀ id, o.lock.holder ≠ some (.worker id) := by
    intro id hid
    cases hholder.symm.trans hid
  obtain ⟨current, hhanded, hcurrent⟩ := h.written
  rw [hcurrent.other hnobody] at hhanded
  exact ⟨h.count, h.queued, h.held, h.apart, h.good, fun hg _ => h.waiting hg (hnobody _), [], hhanded,
    h.current_release fun _ => hnobody _⟩

/-- **A step of a worker adds at most a block.** -/
theorem Work.traced (work : Work env o o') (hl : o.Locked)
    (h : Traced env allowed log blocks o) : ∃ new, Traced env allowed log (blocks ++ new) o' := by
  have hsame : ∀ {o₁}, Traced env allowed log blocks o₁ →
      ∃ new, Traced env allowed log (blocks ++ new) o₁ :=
    fun h₁ => ⟨[], (List.append_nil blocks).symm ▸ h₁⟩
  cases work with
  | rest ready workers hsub hnodup hready => exact hsame (h.rest ready workers o.started)
  | refuse hqueue hprepared => exact hsame ((h.take hqueue).note rfl)
  | takeOn hturn hworker hgrip hqueue hprepared => exact hsame (h.startJob hl hgrip hqueue hprepared)
  | @grant id job hturn hgrip =>
    have hwrote : ∀ written, (⟨job, .waiting⟩ : Grip).Wrote env written →
        (⟨job, .writing⟩ : Grip).Wrote env (written ++ []) := by
      intro written hwritten
      rw [List.append_nil]
      exact wrote_grant hwritten
    exact hsame (h.progress (hl.turn hturn hgrip) hgrip hwrote rfl (List.append_nil _).symm)
  | @hand id job f left failure hturn hgrip hleft hanswer =>
    exact hsame (h.progress (hl.turn hturn hgrip) hgrip (fun _ => wrote_hand hleft hanswer) rfl
      (handed_note o (.written job.origin f failure)))
  | @finish id job hturn hgrip hleft =>
    obtain ⟨b, hb⟩ := h.letGo hl (hl.turn hturn hgrip) hgrip (by
      rintro written ⟨frames, rfl, hframes⟩
      rw [hleft, List.append_nil] at hframes
      exact ⟨.whole job.submission job.message frames, ⟨h.held hgrip, hframes⟩, rfl, rfl⟩)
    exact ⟨[b], hb⟩
  | @giveUp id job causes hturn hgrip =>
    obtain ⟨b, hb⟩ := h.letGo hl (hl.turn hturn hgrip) hgrip (by
      rintro written ⟨frames, last, rfl, hanswer, hframes⟩
      exact ⟨.broken job.submission job.message frames last causes,
        ⟨h.held hgrip, hanswer, job.left, hframes⟩, rfl, rfl⟩)
    exact ⟨[b], hb.note rfl⟩

/-- **A step adds at most a block.** -/
theorem Step.traced (step : Step env allowed o o') (hl : o.Locked)
    (h : Traced env allowed log blocks o) : ∃ new, Traced env allowed log (blocks ++ new) o' := by
  cases step with
  | work hwork => exact hwork.traced hl h
  | request => exact ⟨[], (List.append_nil blocks).symm ▸ h.request⟩
  | control hholder hallowed hanswer => exact ⟨[_], h.control hholder hallowed hanswer⟩
  | release hholder => exact ⟨[], (List.append_nil blocks).symm ▸ h.release hholder⟩

/-- **Steps add blocks.** -/
theorem Steps.traced (steps : Steps env allowed o o') (hl : o.Locked)
    (h : Traced env allowed log blocks o) : ∃ new, Traced env allowed log (blocks ++ new) o' := by
  induction steps with
  | refl => exact ⟨[], (List.append_nil blocks).symm ▸ h⟩
  | tail steps step ih =>
    obtain ⟨new, hnew⟩ := ih
    obtain ⟨more, hmore⟩ := step.traced (Steps.locked steps hl) hnew
    exact ⟨new ++ more, List.append_assoc blocks new more ▸ hmore⟩

/-! ## Calls -/

theorem good_append {b : Block} (h : b.Good env allowed log) (x : Outbound) :
    b.Good env allowed (log ++ [x]) := by
  cases b with
  | control f failure => exact h
  | whole s message frames => exact ⟨h.1.append [x], h.2⟩
  | broken s message frames last causes => exact ⟨h.1.append [x], h.2⟩

/-- The numbers of good blocks are those of the log. -/
theorem number_lt_of_good {b : Block} (h : b.Good env allowed log) {n : Nat}
    (hn : b.number? = some n) : n < log.length := by
  cases b with
  | control f failure => cases hn
  | whole s message frames =>
    cases hn
    exact (List.getElem?_eq_some_iff.mp h.1).1
  | broken s message frames last causes =>
    cases hn
    exact (List.getElem?_eq_some_iff.mp h.1).1

/-- **An accepted submission gets a number that was not used.** -/
theorem Traced.accept (h : Traced env allowed log blocks o) (x : Outbound) :
    Traced env allowed (log ++ [x]) blocks (o.accept x) where
  count := by
    rw [List.length_append, h.count]
    rfl
  queued := by
    intro s hs
    rcases mem_enqueue.mp hs with rfl | hs
    · show (log ++ [x])[o.accepted]? = some x
      rw [← h.count, List.getElem?_concat_length]
    · exact (h.queued s hs).append [x]
  held hg := (h.held hg).append [x]
  apart := by
    -- the numbers of the log are below the one that is given out next
    have hlt : ∀ {s : Submission}, s.Logged log → s.number ≠ o.accepted := by
      intro s hs hn
      have := (List.getElem?_eq_some_iff.mp hs).1
      rw [h.count, hn] at this
      exact Nat.lt_irrefl _ this
    refine h.apart.add ((perm_enqueue _ _).map Submission.number) ?_ ?_
    · intro hmem
      rcases List.mem_append.mp hmem with hmem | hmem
      · obtain ⟨s, hs, hn⟩ := List.mem_map.mp hmem
        exact hlt (h.queued s hs) hn
      · obtain ⟨b, hb, hn⟩ := List.mem_filterMap.mp hmem
        have := number_lt_of_good (h.good b hb) hn
        rw [h.count] at this
        exact Nat.lt_irrefl _ this
    · intro id hid
      obtain ⟨g, hg, hn⟩ := Option.map_eq_some_iff.mp hid
      exact hlt (h.held hg) hn
  good b hb := good_append (h.good b hb) x
  waiting := h.waiting
  written := by
    obtain ⟨current, hhanded, hcurrent⟩ := h.written
    exact ⟨current, hhanded, hcurrent.worker, hcurrent.other⟩

/-- A worker is started. -/
theorem Traced.enlist (h : Traced env allowed log blocks o) : Traced env allowed log blocks o.enlist :=
  h.rest _ _ _

/-- What waits is dropped. -/
theorem Traced.clear (h : Traced env allowed log blocks o) : Traced env allowed log blocks o.clear where
  count := h.count
  queued s hs := absurd hs List.not_mem_nil
  held := h.held
  apart := h.apart.sublist (List.nil_sublist _)
  good := h.good
  waiting := h.waiting
  written := by
    obtain ⟨current, hhanded, hcurrent⟩ := h.written
    refine ⟨current, ?_, hcurrent.worker, hcurrent.other⟩
    have hnothing : (o.queue.map Entry.dropped).filterMap Entry.written? = [] := by
      rw [List.filterMap_map]
      exact List.filterMap_eq_nil_iff.mpr fun _ _ => rfl
    show (o.journal ++ o.queue.map Entry.dropped).filterMap Entry.written? = _
    rw [List.filterMap_append, hnothing, List.append_nil]
    exact hhanded

/-! ## Frames of messages -/

/-- What is handed over of a message are frames under the id of the message. -/
theorem mem_sent {s : Submission} {message : UInt32} {frames : List Frame} {w : Written} (h : w ∈ s.sent message frames) :
    w.origin = .message s.number message ∧ w.frame ∈ frames := by
  obtain ⟨f, hf, rfl⟩ := List.mem_map.mp h
  exact ⟨rfl, hf⟩

/-- What a worker has handed over are frames of its message. -/
theorem mem_frames_of_wrote {g : Grip} {written : List Written} (h : g.Wrote env written) {w : Written}
    (hw : w ∈ written) : w.origin = g.job.origin
      ∧ ∃ frames, g.job.submission.frames? env g.job.message = .ok frames ∧ w.frame ∈ frames := by
  obtain ⟨job, hold⟩ := g
  cases hold with
  | waiting =>
    obtain ⟨rfl, -⟩ := h
    cases hw
  | writing =>
    obtain ⟨frames, rfl, hframes⟩ := h
    obtain ⟨horigin, hf⟩ := mem_sent hw
    exact ⟨horigin, _, hframes, List.mem_append_left _ hf⟩
  | failed causes =>
    obtain ⟨frames, last, rfl, -, hframes⟩ := h
    rcases List.mem_append.mp hw with hw | hw
    · obtain ⟨horigin, hf⟩ := mem_sent hw
      exact ⟨horigin, _, hframes, List.mem_append_left _ hf⟩
    · cases List.mem_singleton.mp hw
      exact ⟨rfl, _, hframes, List.mem_append_right _ List.mem_cons_self⟩

/-- What is handed over with a good block is allowed outside of messages, or belongs to an accepted message. -/
theorem of_mem_written {b : Block} (h : b.Good env allowed log) {w : Written} (hw : w ∈ b.written) :
    allowed w.frame ∨ ∃ s message frames, Submission.Logged log s ∧ s.frames? env message = .ok frames
      ∧ w.frame ∈ frames := by
  cases b with
  | control f failure =>
    rw [List.mem_singleton.mp hw]
    exact Or.inl h.1
  | whole s message frames => exact Or.inr ⟨s, message, frames, h.1, h.2, (mem_sent hw).2⟩
  | broken s message frames last causes =>
    obtain ⟨hs, -, left, hframes⟩ := h
    refine Or.inr ⟨s, message, _, hs, hframes, ?_⟩
    rcases List.mem_append.mp hw with hw | hw
    · exact List.mem_append_left _ (mem_sent hw).2
    · rw [List.mem_singleton.mp hw]
      exact List.mem_append_right _ List.mem_cons_self

/-- **Whatever was handed over is allowed outside of messages, or belongs to an accepted message**, in a block that
    is over or in the one under way. -/
theorem Traced.of_mem_handed (h : Traced env allowed log blocks o) (hl : o.Locked) {w : Written}
    (hw : w ∈ o.handed) : allowed w.frame ∨ ∃ s message frames, Submission.Logged log s
      ∧ s.frames? env message = .ok frames ∧ w.frame ∈ frames := by
  obtain ⟨current, hhanded, hcurrent⟩ := h.written
  rw [hhanded] at hw
  rcases List.mem_append.mp hw with hw | hw
  · obtain ⟨b, hb, hw⟩ := List.mem_flatMap.mp hw
    exact of_mem_written (h.good b hb) hw
  · by_cases hholder : ∃ id, o.lock.holder = some (.worker id)
    · obtain ⟨id, hid⟩ := hholder
      obtain ⟨g, hg⟩ := hl.exists_grip hid
      obtain ⟨-, frames, hframes, hmem⟩ := mem_frames_of_wrote (hcurrent.worker hid hg) hw
      exact Or.inr ⟨g.job.submission, _, frames, h.held hg, hframes, hmem⟩
    · rw [not_exists] at hholder
      rw [hcurrent.other hholder] at hw
      cases hw

/-! ## Rest -/

/-- **When no worker has a message in its hands, all that was handed over is blocks.** -/
theorem Traced.handed_of_rest (h : Traced env allowed log blocks o) (hl : o.Locked)
    (hrest : ∀ id, o.grip id = none) : o.handed = blocks.flatMap Block.written := by
  obtain ⟨current, hhanded, hcurrent⟩ := h.written
  rw [hhanded, hcurrent.other fun id => hl.holder_ne (hrest id), List.append_nil]

end Outbox

end HeadLink
