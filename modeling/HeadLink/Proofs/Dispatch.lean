import Mathlib.Data.List.Pairwise
import HeadLink.Proofs.Contiguity
import HeadLink.Proofs.Settlement

/-!
# The order in which messages leave

Three orders have to agree: the order in which messages are taken from the queue, the order in which they get
their ids, and the order in which their frames come to the transport. They do because a worker takes a message,
gets an id for it and asks for the write lock without waiting in between, and because the lock is granted first
come, first served. Messages that are more urgent may come in at any time; they go ahead of those that wait in the
queue, but not of those that a worker has taken.

A dispatch is what a link shows of this: the queue, what was taken from it, and the marks of all messages that
have come to the transport or stand in line for it. `Dispatch.Step` says once what can happen to it.

## Contents
- **State.** `Mark`, `Dispatch`, `Outbox.dispatch`, and what a link shows of it (`Link.taken`, `Link.marks`,
  `Link.idCount`).
- **Order.** `Dispatch.Ordered` and `Dispatch.Numbered` are what every step keeps.
- **The line.** `Outbox.line` and what the lock does to it.
- **Steps.** `Outbox.Work.dispatch`, `Outbox.Change.dispatch`, and from there all courses
  (`Link.Course.dispatch`).
- **Taking.** `Link.Step.taken`: who takes a message takes the first of all that wait.
- **Dispatch.** `dispatched_in_order`.
-/

namespace HeadLink

/-! ## State -/

/-- A message that a worker has taken, by its submission number and its id. -/
structure Mark where
  number : Nat
  message : UInt32
  deriving DecidableEq

/-- The mark of the message on whose behalf a frame is written. -/
def Origin.mark? : Origin → Option Mark
  | .control => none
  | .message number id => some { number, message := id }

/-- The message that a worker takes with an entry. -/
def Entry.taken? : Entry → Option Submission
  | .taken s => some s
  | _ => none

/-- Whether an entry says that a message is refused because of its session. -/
def Entry.refusesSession : Entry → Bool
  | .told (.fault (.sending _) (.notStarted _)) => true
  | _ => false

/-- What decides in which order messages leave, and in which order they have left. -/
structure Dispatch where
  queue : List Submission
  accepted : Nat
  /-- The messages that were taken, in order. -/
  taken : List Submission
  /-- How many of them were refused because of their session. -/
  refused : Nat
  lastMessage : UInt32
  /-- The messages of the frames that were handed over, and then those that stand in line for the lock. -/
  marks : List Mark

/-- How many ids were given out: one for each message that was taken, unless its session was not started. -/
def Dispatch.idCount (d : Dispatch) : Nat := d.taken.length - d.refused

/-- The mark of a message in the hands of a worker. -/
def Job.mark (job : Job) : Mark where
  number := job.submission.number
  message := job.message

/-- The mark of the message that a party has in its hands. -/
def Party.mark? (grip : Nat → Option Grip) : Party → Option Mark
  | .caller => none
  | .worker id => (grip id).map fun g => g.job.mark

namespace Outbox

/-- The messages in the hands of those who have or want the lock, in the order in which they get it. -/
def line (o : Outbox) : List Mark := o.lock.parties.filterMap (Party.mark? o.grip)

/-- The messages of the frames that were handed over. -/
def spoken (o : Outbox) : List Mark := o.handed.filterMap fun w => w.origin.mark?

/-- What an outbox shows of the order of messages. -/
def dispatch (o : Outbox) : Dispatch where
  queue := o.queue
  accepted := o.accepted
  taken := o.journal.filterMap Entry.taken?
  refused := o.journal.countP Entry.refusesSession
  lastMessage := o.lastMessage
  marks := o.spoken ++ o.line

end Outbox

namespace Link

variable {σ : Type}

/-- The messages that workers have taken, in order. -/
def taken (l : Link σ) : List Submission := l.journal.toList.filterMap Entry.taken?

/-- The messages of the frames that were handed to the transport, frame by frame. -/
def marks (l : Link σ) : List Mark := l.handed.filterMap fun w => w.origin.mark?

/-- How many message ids were given out. -/
def idCount (l : Link σ) : Nat := l.taken.length - l.journal.toList.countP Entry.refusesSession

end Link

/-! ## Order -/

namespace Dispatch

/-- **What can happen to a dispatch.** -/
inductive Step : Dispatch → Dispatch → Prop
  | idle {d : Dispatch} : Step d d
  /-- A message is taken and refused because of its session. -/
  | refuse {d : Dispatch} {s : Submission} {queue : List Submission} (hqueue : d.queue = s :: queue) :
      Step d { d with queue, taken := d.taken ++ [s], refused := d.refused + 1 }
  /-- A message is taken and cannot be split; it has got an id. -/
  | waste {d : Dispatch} {s : Submission} {queue : List Submission} (hqueue : d.queue = s :: queue) :
      Step d { d with queue, taken := d.taken ++ [s], lastMessage := d.lastMessage + 1 }
  /-- A message is taken and gets in line. -/
  | takeOn {d : Dispatch} {s : Submission} {queue : List Submission} (hqueue : d.queue = s :: queue) :
      Step d { d with
        queue
        taken := d.taken ++ [s]
        lastMessage := d.lastMessage + 1
        marks := d.marks ++ [{ number := s.number, message := d.lastMessage + 1 }] }
  /-- A frame of the message at the head of the line is handed over. -/
  | hand {d : Dispatch} {before after : List Mark} {m : Mark} (hmarks : d.marks = before ++ m :: after) :
      Step d { d with marks := before ++ m :: m :: after }
  /-- A message leaves the line. -/
  | depart {d : Dispatch} {before after : List Mark} {m : Mark} (hmarks : d.marks = before ++ m :: after) :
      Step d { d with marks := before ++ after }
  | accept {d : Dispatch} (x : Outbound) :
      Step d { d with
        queue := enqueue { x with number := d.accepted } d.queue
        accepted := d.accepted + 1 }
  | clear {d : Dispatch} : Step d { d with queue := [] }

/-- The first message was taken before the second one. -/
def TakenBefore (taken : List Submission) (n n' : Nat) : Prop :=
  [n, n'].Sublist (taken.map Submission.number)

/-- Of two messages with equal keys, the first was submitted first. -/
def Fair (s t : Submission) : Prop :=
  s.service = t.service → s.correlationId = t.correlationId → s.number < t.number

/-- **The queue is in order, and what was taken from it comes to the transport in the order of taking.** -/
structure Ordered (d : Dispatch) : Prop where
  sorted : d.queue.Pairwise fun s t => s.priority.Before t.priority
  below : ∀ s ∈ d.taken ++ d.queue, s.number < d.accepted
  apart : (d.taken ++ d.queue).Pairwise fun s t => s.number ≠ t.number
  fair : (d.taken ++ d.queue).Pairwise Fair
  marked : ∀ m ∈ d.marks, m.number ∈ d.taken.map Submission.number
  order : d.marks.Pairwise fun m m' => m = m' ∨ TakenBefore d.taken m.number m'.number

variable {d d' : Dispatch} {s t : Submission} {queue : List Submission} {before after : List Mark} {m : Mark}

theorem TakenBefore.append {taken : List Submission} {n n' : Nat} (h : TakenBefore taken n n')
    (more : List Submission) : TakenBefore (taken ++ more) n n' := by
  unfold TakenBefore
  rw [List.map_append]
  exact h.trans (List.sublist_append_left _ _)

theorem takenBefore_snoc {taken : List Submission} {n : Nat} (hn : n ∈ taken.map Submission.number)
    (s : Submission) : TakenBefore (taken ++ [s]) n s.number := by
  unfold TakenBefore
  rw [List.map_append]
  exact (List.singleton_sublist.mpr hn).append (List.Sublist.refl _)

/-- Whoever leaves the queue first is the earlier one of those with equal keys. -/
theorem fair_of_before (h : s.priority.Before t.priority) : Fair s t := by
  intro hservice hcorrelation
  unfold Priority.Before at h
  simpa [Submission.priority, hservice, hcorrelation] using h

/-- A relation that holds of each message and itself is kept if a frame of a message is handed over. -/
theorem pairwise_hand {R : Mark → Mark → Prop} (hrefl : ∀ m, R m m)
    (h : (before ++ m :: after).Pairwise R) : (before ++ m :: m :: after).Pairwise R := by
  simp only [List.pairwise_append, List.pairwise_cons, List.mem_cons] at h ⊢
  obtain ⟨hbefore, ⟨hm, hafter⟩, hacross⟩ := h
  refine ⟨hbefore, ⟨?_, hm, hafter⟩, ?_⟩
  · rintro m' (rfl | hm')
    · exact hrefl m'
    · exact hm m' hm'
  · rintro b hb m' (rfl | hm')
    · exact hacross b hb m' (Or.inl rfl)
    · exact hacross b hb m' hm'

theorem pairwise_depart {R : Mark → Mark → Prop} (h : (before ++ m :: after).Pairwise R) :
    (before ++ after).Pairwise R :=
  h.sublist ((List.sublist_cons_self m after).append_left before)

theorem mem_hand {m' : Mark} (h : m' ∈ before ++ m :: m :: after) : m' ∈ before ++ m :: after := by
  simpa using h

/-- What is taken goes from the head of the queue to the end of what was taken. -/
theorem taken_append_queue (hqueue : d.queue = s :: queue) :
    (d.taken ++ [s]) ++ queue = d.taken ++ d.queue := by
  rw [hqueue, List.append_assoc, List.singleton_append]

namespace Ordered

/-- Taking a message keeps the order, whatever becomes of the marks. -/
theorem take (h : d.Ordered) (hqueue : d.queue = s :: queue) {marks : List Mark}
    (hmarked : ∀ m ∈ marks, m.number ∈ (d.taken ++ [s]).map Submission.number)
    (horder : marks.Pairwise fun m m' => m = m' ∨ TakenBefore (d.taken ++ [s]) m.number m'.number)
    (refused : Nat) (lastMessage : UInt32) :
    Ordered { d with queue, taken := d.taken ++ [s], refused, lastMessage, marks } where
  sorted := by
    have hsorted := h.sorted
    rw [hqueue] at hsorted
    exact hsorted.tail
  below := by
    intro t ht
    apply h.below
    rwa [← taken_append_queue hqueue]
  apart := by
    show ((d.taken ++ [s]) ++ queue).Pairwise _
    rw [taken_append_queue hqueue]
    exact h.apart
  fair := by
    show ((d.taken ++ [s]) ++ queue).Pairwise _
    rw [taken_append_queue hqueue]
    exact h.fair
  marked := hmarked
  order := horder

/-- The marks may change, as long as they keep to the messages that were taken. -/
theorem setMarks (h : d.Ordered) {marks : List Mark} (hsub : ∀ m ∈ marks, m ∈ d.marks)
    (horder : marks.Pairwise fun m m' => m = m' ∨ TakenBefore d.taken m.number m'.number) :
    Ordered { d with marks } :=
  ⟨h.sorted, h.below, h.apart, h.fair, fun m hm => h.marked m (hsub m hm), horder⟩

theorem marked_snoc (h : d.Ordered) (s : Submission) :
    ∀ m ∈ d.marks, m.number ∈ (d.taken ++ [s]).map Submission.number := by
  intro m hm
  rw [List.map_append]
  exact List.mem_append_left _ (h.marked m hm)

theorem order_snoc (h : d.Ordered) (s : Submission) :
    d.marks.Pairwise fun m m' => m = m' ∨ TakenBefore (d.taken ++ [s]) m.number m'.number := by
  refine h.order.imp ?_
  intro m m' hmm'
  exact hmm'.imp_right fun hbefore => hbefore.append [s]

/-- A message that comes in gets a number above all others, and its place in the queue. -/
theorem accept (h : d.Ordered) (x : Outbound) : Ordered { d with
    queue := enqueue { x with number := d.accepted } d.queue
    accepted := d.accepted + 1 } := by
  have hbelow : ∀ t ∈ d.taken ++ d.queue, t.number ≠ d.accepted := by
    intro t ht
    exact Nat.ne_of_lt (h.below t ht)
  have hsorted := pairwise_enqueue (s := { x with number := d.accepted }) h.sorted fun t ht =>
    hbelow t (List.mem_append_right _ ht)
  obtain ⟨htaken, hqueue, hacross⟩ := List.pairwise_append.mp h.apart
  obtain ⟨hfair, -, hfairAcross⟩ := List.pairwise_append.mp h.fair
  refine ⟨hsorted, ?_, ?_, ?_, h.marked, h.order⟩
  · intro t ht
    rcases List.mem_append.mp ht with ht | ht
    · exact Nat.lt_succ_of_lt (h.below t (List.mem_append_left _ ht))
    · rcases mem_enqueue.mp ht with rfl | ht
      · exact Nat.lt_succ_self _
      · exact Nat.lt_succ_of_lt (h.below t (List.mem_append_right _ ht))
  · refine List.pairwise_append.mpr ⟨htaken, ?_, ?_⟩
    · refine ((perm_enqueue _ _).pairwise_iff fun hne => hne.symm).mpr (List.pairwise_cons.mpr ⟨?_, hqueue⟩)
      intro t ht
      exact (hbelow t (List.mem_append_right _ ht)).symm
    · intro s hs t ht
      rcases mem_enqueue.mp ht with rfl | ht
      · exact hbelow s (List.mem_append_left _ hs)
      · exact hacross s hs t ht
  · refine List.pairwise_append.mpr ⟨hfair, hsorted.imp fair_of_before, ?_⟩
    intro s hs t ht
    rcases mem_enqueue.mp ht with rfl | ht
    · exact fun _ _ => h.below s (List.mem_append_left _ hs)
    · exact hfairAcross s hs t ht

theorem clear (h : d.Ordered) : Ordered { d with queue := [] } := by
  have hsub : (d.taken ++ []).Sublist (d.taken ++ d.queue) := (List.nil_sublist d.queue).append_left d.taken
  exact ⟨.nil, fun s hs => h.below s (hsub.subset hs), h.apart.sublist hsub, h.fair.sublist hsub, h.marked, h.order⟩

/-- **Every step keeps the order.** -/
theorem step (h : d.Ordered) (step : Step d d') : d'.Ordered := by
  cases step with
  | idle => exact h
  | refuse hqueue => exact h.take hqueue (h.marked_snoc _) (h.order_snoc _) _ _
  | waste hqueue => exact h.take hqueue (h.marked_snoc _) (h.order_snoc _) _ _
  | @takeOn s queue hqueue =>
    refine h.take hqueue ?_ ?_ _ _
    · intro m hm
      rcases List.mem_append.mp hm with hm | hm
      · exact h.marked_snoc s m hm
      · rw [List.mem_singleton.mp hm]
        simp
    · -- all that is marked was taken before
      refine List.pairwise_append.mpr ⟨h.order_snoc s, List.pairwise_singleton _ _, ?_⟩
      intro m hm m' hm'
      rw [List.mem_singleton.mp hm']
      exact Or.inr (takenBefore_snoc (h.marked m hm) s)
  | hand hmarks =>
    have horder := h.order
    rw [hmarks] at horder
    refine h.setMarks ?_ (pairwise_hand (fun m => Or.inl rfl) horder)
    intro m' hm'
    rw [hmarks]
    exact mem_hand hm'
  | @depart before after m hmarks =>
    have horder := h.order
    rw [hmarks] at horder
    refine h.setMarks ?_ (pairwise_depart horder)
    intro m' hm'
    rw [hmarks]
    exact ((List.sublist_cons_self m after).append_left before).subset hm'
  | accept x => exact h.accept x
  | clear => exact h.clear

end Ordered

/-! ### Ids -/

/-- **Ids are given out one after the other**, and as long as they have not come round, they grow along the
    marks. -/
structure Numbered (d : Dispatch) : Prop where
  refused_le : d.refused ≤ d.taken.length
  last : d.lastMessage = UInt32.ofNat d.idCount
  bounds : d.idCount < UInt32.size → ∀ m ∈ d.marks, 1 ≤ m.message ∧ m.message ≤ d.lastMessage
  grow : d.idCount < UInt32.size → d.marks.Pairwise fun m m' => m = m' ∨ m.message < m'.message

namespace Numbered

theorem toNat_last (h : d.Numbered) (hcount : d.idCount < UInt32.size) : d.lastMessage.toNat = d.idCount := by
  rw [h.last, UInt32.toNat_ofNat_of_lt' hcount]

/-- The marks may change, as long as they keep to those that there are. -/
theorem setMarks (h : d.Numbered) {marks : List Mark} (hsub : ∀ m ∈ marks, m ∈ d.marks)
    (hgrow : d.idCount < UInt32.size → marks.Pairwise fun m m' => m = m' ∨ m.message < m'.message) :
    Numbered { d with marks } :=
  ⟨h.refused_le, h.last, fun hcount m hm => h.bounds hcount m (hsub m hm), hgrow⟩

/-- The id that is given out next is above the latest one, unless it comes round. -/
theorem next (h : d.Numbered) (hcount : d.idCount + 1 < UInt32.size) :
    d.lastMessage < d.lastMessage + 1 ∧ 1 ≤ d.lastMessage + 1 := by
  have hlast := h.toNat_last (by omega)
  rw [UInt32.lt_iff_toNat_lt, UInt32.le_iff_toNat_le, UInt32.toNat_add, hlast]
  simp only [UInt32.toNat_one]
  unfold UInt32.size at hcount
  omega

theorem idCount_succ (h : d.Numbered) :
    d.taken.length + 1 - d.refused = d.idCount + 1 := by
  have := h.refused_le
  unfold idCount
  omega

/-- A message is taken and gets an id; if it gets in line, it gets to its end. -/
theorem take (h : d.Numbered) (s : Submission) (queue : List Submission) {more : List Mark}
    (hmore : ∀ m ∈ more, m.message = d.lastMessage + 1)
    (hgrow : more.Pairwise fun m m' => m = m' ∨ m.message < m'.message) :
    Numbered { d with
      queue
      taken := d.taken ++ [s]
      lastMessage := d.lastMessage + 1
      marks := d.marks ++ more } := by
  have hsucc : idCount { d with
      queue, taken := d.taken ++ [s], lastMessage := d.lastMessage + 1, marks := d.marks ++ more }
      = d.idCount + 1 := by
    rw [← h.idCount_succ]
    show (d.taken ++ [s]).length - d.refused = _
    rw [List.length_append, List.length_singleton]
  refine ⟨?_, ?_, ?_, ?_⟩
  · show d.refused ≤ (d.taken ++ [s]).length
    rw [List.length_append]
    exact Nat.le_add_right_of_le h.refused_le
  · rw [hsucc, UInt32.ofNat_add, ← h.last]
    rfl
  · rw [hsucc]
    intro hcount m hm
    obtain ⟨hlt, hone⟩ := h.next hcount
    rcases List.mem_append.mp hm with hm | hm
    · obtain ⟨hlow, hhigh⟩ := h.bounds (by omega) m hm
      exact ⟨hlow, UInt32.le_of_lt (UInt32.lt_of_le_of_lt hhigh hlt)⟩
    · rw [hmore m hm]
      exact ⟨hone, UInt32.le_refl _⟩
  · rw [hsucc]
    intro hcount
    obtain ⟨hlt, -⟩ := h.next hcount
    refine List.pairwise_append.mpr ⟨h.grow (by omega), hgrow, ?_⟩
    intro m hm m' hm'
    rw [hmore m' hm']
    exact Or.inr (UInt32.lt_of_le_of_lt (h.bounds (by omega) m hm).2 hlt)

/-- **Every step keeps the ids in order.** -/
theorem step (h : d.Numbered) (step : Step d d') : d'.Numbered := by
  cases step with
  | idle => exact h
  | @refuse s queue hqueue =>
    have hsame : idCount { d with queue, taken := d.taken ++ [s], refused := d.refused + 1 } = d.idCount := by
      show (d.taken ++ [s]).length - (d.refused + 1) = d.taken.length - d.refused
      rw [List.length_append, List.length_singleton, Nat.add_sub_add_right]
    refine ⟨?_, ?_, ?_, ?_⟩
    · show d.refused + 1 ≤ (d.taken ++ [s]).length
      rw [List.length_append]
      exact Nat.succ_le_succ h.refused_le
    · rw [hsame]
      exact h.last
    · rw [hsame]
      exact h.bounds
    · rw [hsame]
      exact h.grow
  | @waste s queue hqueue =>
    have hnone : ∀ m ∈ ([] : List Mark), m.message = d.lastMessage + 1 := by simp
    simpa using h.take s queue hnone .nil
  | takeOn hqueue => exact h.take _ _ (by simp) (List.pairwise_singleton _ _)
  | hand hmarks =>
    refine h.setMarks ?_ ?_
    · intro m' hm'
      rw [hmarks]
      exact mem_hand hm'
    · intro hcount
      have hgrow := h.grow hcount
      rw [hmarks] at hgrow
      exact pairwise_hand (fun m => Or.inl rfl) hgrow
  | @depart before after m hmarks =>
    refine h.setMarks ?_ ?_
    · intro m' hm'
      rw [hmarks]
      exact ((List.sublist_cons_self m after).append_left before).subset hm'
    · intro hcount
      have hgrow := h.grow hcount
      rw [hmarks] at hgrow
      exact pairwise_depart hgrow
  | accept x => exact ⟨h.refused_le, h.last, h.bounds, h.grow⟩
  | clear => exact ⟨h.refused_le, h.last, h.bounds, h.grow⟩

end Numbered

end Dispatch

/-! ## The line -/

namespace Outbox

variable {σ : Type} {env : Environment σ} {o o' : Outbox} {id : Nat} {g : Grip}

/-- A message keeps its mark while a worker has it. -/
theorem mark?_update {grip : Nat → Option Grip} {g' : Grip} (hg : grip id = some g)
    (hmark : g'.job.mark = g.job.mark) :
    Party.mark? (Function.update grip id (some g')) = Party.mark? grip := by
  funext p
  cases p with
  | caller => rfl
  | worker id' =>
    by_cases hid : id' = id
    · subst hid
      simp [Party.mark?, hg, hmark]
    · simp [Party.mark?, Function.update_of_ne hid]

/-- What one worker has in its hands decides only about its own mark. -/
theorem filterMap_mark?_update {grip : Nat → Option Grip} {parties : List Party}
    (h : .worker id ∉ parties) (g : Option Grip) :
    parties.filterMap (Party.mark? (Function.update grip id g)) = parties.filterMap (Party.mark? grip) := by
  apply List.filterMap_congr
  intro p hp
  cases p with
  | caller => rfl
  | worker id' =>
    have hid : id' ≠ id := by
      rintro rfl
      exact h hp
    simp [Party.mark?, Function.update_of_ne hid]

/-- The worker that holds the lock is at the head of the line. -/
theorem line_of_holder (hid : o.lock.holder = some (.worker id)) (hg : o.grip id = some g) :
    o.line = g.job.mark :: o.lock.release.parties.filterMap (Party.mark? o.grip) := by
  have hmark : Party.mark? o.grip (.worker id) = some g.job.mark := by
    simp [Party.mark?, hg]
  unfold line
  rw [WriteLock.parties_eq_cons hid, List.filterMap_cons, hmark]

/-- Who gives the lock back leaves the line. -/
theorem line_letGo (hl : o.Locked) (hid : o.lock.holder = some (.worker id)) (hg : o.grip id = some g) :
    (o.release.setGrip id none).line = o.lock.release.parties.filterMap (Party.mark? o.grip) := by
  have hcount := hl.parties id
  rw [WriteLock.parties_eq_cons hid, List.count_cons_self, hg] at hcount
  have hleft : .worker id ∉ o.lock.release.parties := List.count_eq_zero.mp (Nat.succ.inj hcount)
  exact filterMap_mark?_update hleft none

/-- A worker that asks for the lock gets in line behind all others. -/
theorem line_join (hl : o.Locked) (hsound : o.lock.Sound) (hnone : o.grip id = none) (g : Grip) :
    ((o.request (.worker id)).setGrip id (some g)).line = o.line ++ [g.job.mark] := by
  have hcount := hl.parties id
  rw [hnone] at hcount
  have hout : .worker id ∉ o.lock.parties := List.count_eq_zero.mp hcount
  show (o.lock.request (.worker id)).parties.filterMap (Party.mark? (Function.update o.grip id (some g))) = _
  rw [hsound.parties_request, List.filterMap_append, filterMap_mark?_update hout]
  simp [line, Party.mark?]

/-- The caller has no message, so that it does not count in the line. -/
theorem line_request_caller (hsound : o.lock.Sound) : (o.request .caller).line = o.line := by
  show (o.lock.request .caller).parties.filterMap (Party.mark? o.grip) = _
  rw [hsound.parties_request, List.filterMap_append]
  simp [line, Party.mark?]

theorem line_release_caller (hholder : o.lock.holder = some .caller) : o.release.line = o.line := by
  unfold line
  rw [WriteLock.parties_eq_cons hholder, List.filterMap_cons]
  rfl

/-! ## Steps -/

theorem spoken_note (o : Outbox) (e : Entry) :
    (o.note e).spoken = o.spoken ++ (e.written?.toList.filterMap fun w => w.origin.mark?) := by
  unfold spoken
  rw [handed_note, List.filterMap_append]

/-- What a note adds to a dispatch, if it is not about taking a message. -/
theorem dispatch_note {e : Entry} (htaken : e.taken? = none) (hrefuses : e.refusesSession = false) (o : Outbox) :
    (o.note e).dispatch = { o.dispatch with marks := (o.note e).spoken ++ o.line } := by
  simp [dispatch, note, htaken, hrefuses, line]

/-- A notice changes nothing of a dispatch, unless it refuses a message because of its session. -/
theorem dispatch_told {n : Notice} (hn : (Entry.told n).refusesSession = false) (o : Outbox) :
    (o.note (.told n)).dispatch = o.dispatch := by
  rw [dispatch_note rfl hn, spoken_note]
  simp [Entry.written?, dispatch]

/-- What reports no message refuses none. -/
theorem refusesSession_told {n : Notice} (hn : n.reported? = none) : (Entry.told n).refusesSession = false := by
  unfold Entry.refusesSession
  split
  · rename_i heq
    cases heq
    cases hn
  · rfl

/-- A message whose session is started gets an id. -/
theorem idAfter_of_started {s : Submission} (h : o.sessions.get? s.session ≠ none) :
    o.idAfter s = o.lastMessage + 1 := by
  obtain ⟨state, hstate⟩ := Option.ne_none_iff_exists'.mp h
  simp [idAfter, Sessions.requireStarted, Sessions.version?, hstate]

/-- A message that is prepared has got the next id. -/
theorem idAfter_of_prepared {s : Submission} {job : Job} (h : o.prepared env s = .ok job) :
    o.idAfter s = o.lastMessage + 1 ∧ job.message = o.lastMessage + 1 := by
  have hsession : o.sessions.get? s.session ≠ none := by
    intro hnone
    have hrefused : o.prepared env s = .error (.notStarted s.session) := (prepared_of_not_started hnone).1
    cases h.symm.trans hrefused
  refine ⟨idAfter_of_started hsession, ?_⟩
  unfold prepared at h
  split at h
  · cases h
  · cases hframes : s.frames? env (o.lastMessage + 1) with
    | error fault => simp [hframes, Except.map] at h
    | ok frames =>
      rw [hframes] at h
      cases h
      rfl

/-- What taking a message does to a dispatch, whatever is noted of it then and whatever the marks are. -/
theorem dispatch_take (entries : List Entry) {s : Submission} {queue : List Submission} {o' : Outbox}
    (hjournal : o'.journal = o.journal ++ .taken s :: entries) (hqueue : o'.queue = queue)
    (haccepted : o'.accepted = o.accepted) (hlast : o'.lastMessage = o.idAfter s)
    (htaken : entries.filterMap Entry.taken? = []) :
    o'.dispatch = {
      o.dispatch with
      queue
      taken := o.dispatch.taken ++ [s]
      refused := o.dispatch.refused + entries.countP Entry.refusesSession
      lastMessage := o.idAfter s
      marks := o'.spoken ++ o'.line } := by
  simp [dispatch, hqueue, haccepted, hlast, hjournal, htaken, Entry.taken?, Entry.refusesSession]

/-- A worker takes a message that cannot be sent. It has got an id, unless its session was not started. -/
theorem dispatch_refuse {s : Submission} {queue : List Submission} {fault : Fault}
    (hqueue : o.queue = s :: queue) (hprepared : o.prepared env s = .error fault) :
    Dispatch.Step o.dispatch ((o.take s queue).note (.told (.fault (.sending s) fault))).dispatch := by
  have hspoken : ((o.take s queue).note (.told (.fault (.sending s) fault))).spoken = o.spoken := by
    have htake : (o.take s queue).spoken = o.spoken ++ [] := spoken_note o (.taken s)
    rw [spoken_note, htake]
    simp [Entry.written?]
  have hjournal : ((o.take s queue).note (.told (.fault (.sending s) fault))).journal
      = o.journal ++ [.taken s, .told (.fault (.sending s) fault)] :=
    List.append_assoc o.journal [.taken s] [.told (.fault (.sending s) fault)]
  rw [dispatch_take _ hjournal rfl rfl rfl rfl, hspoken]
  by_cases hsession : o.sessions.get? s.session = none
  · obtain ⟨hrefused, hid⟩ : o.prepared env s = .error (.notStarted s.session) ∧ o.idAfter s = o.lastMessage :=
      prepared_of_not_started hsession
    cases hrefused.symm.trans hprepared
    rw [hid]
    exact .refuse hqueue
  · obtain ⟨message, hframes⟩ := frames?_of_started hsession hprepared
    have hrefuses : (Entry.told (.fault (.sending s) fault)).refusesSession = false := by
      unfold Entry.refusesSession
      split
      · rename_i session heq
        cases heq
        exact absurd rfl (Submission.ne_notStarted_of_frames? hframes session)
      · rfl
    rw [idAfter_of_started hsession, List.countP_singleton, hrefuses]
    exact .waste hqueue

/-- A worker takes a message on and gets in line. -/
theorem dispatch_takeOn (hl : o.Locked) (hsound : o.lock.Sound) (hgrip : o.grip id = none) {s : Submission}
    {queue : List Submission} {job : Job} (hqueue : o.queue = s :: queue)
    (hprepared : o.prepared env s = .ok job) :
    Dispatch.Step o.dispatch ((o.take s queue).startJob id job).dispatch := by
  obtain ⟨hafter, hmessage⟩ := idAfter_of_prepared hprepared
  have hmark : job.mark = { number := s.number, message := o.lastMessage + 1 } := by
    rw [← (prepared_eq_ok hprepared).1, ← hmessage]
    rfl
  have hline : ((o.take s queue).startJob id job).line = o.line ++ [job.mark] := by
    unfold startJob
    split
    · exact line_join (o := o.take s queue) (hl.take s queue) hsound hgrip _
    · exact line_join (o := o.take s queue) (hl.take s queue) hsound hgrip _
  have hspoken : ((o.take s queue).startJob id job).spoken = o.spoken := by
    have htake : (o.take s queue).spoken = o.spoken ++ [] := spoken_note o (.taken s)
    rw [List.append_nil] at htake
    rw [← htake]
    unfold startJob
    split <;> rfl
  have hframe : ((o.take s queue).startJob id job).accepted = o.accepted
      ∧ ((o.take s queue).startJob id job).lastMessage = o.idAfter s := by
    unfold startJob
    split <;> exact ⟨rfl, rfl⟩
  obtain ⟨hstartQueue, hstartJournal, -⟩ := startJob_eq (o.take s queue) id job
  rw [dispatch_take [] hstartJournal hstartQueue hframe.1 hframe.2 rfl, hspoken, hline, hafter, hmark,
    ← List.append_assoc]
  exact .takeOn hqueue

/-- A worker hands over a frame: its message is at the head of the line, and stays there. -/
theorem dispatch_hand (hid : o.lock.holder = some (.worker id)) (hg : o.grip id = some g) (g' : Grip)
    (hmark : g'.job.mark = g.job.mark) (f : Frame) (failure : Option (List String)) :
    Dispatch.Step o.dispatch
      ((o.note (.written g.job.origin f failure)).setGrip id (some g')).dispatch := by
  have hline : ((o.note (.written g.job.origin f failure)).setGrip id (some g')).line = o.line := by
    show o.lock.parties.filterMap (Party.mark? (Function.update o.grip id (some g'))) = _
    rw [mark?_update hg hmark]
    rfl
  have hspoken : (o.note (.written g.job.origin f failure)).spoken = o.spoken ++ [g.job.mark] := spoken_note o _
  have hbefore : o.dispatch.marks
      = o.spoken ++ g.job.mark :: o.lock.release.parties.filterMap (Party.mark? o.grip) :=
    congrArg (o.spoken ++ ·) (line_of_holder hid hg)
  have hafter : ((o.note (.written g.job.origin f failure)).setGrip id (some g')).dispatch
      = { o.dispatch with marks := o.spoken ++ g.job.mark :: g.job.mark
            :: o.lock.release.parties.filterMap (Party.mark? o.grip) } := by
    have hnote := dispatch_note (e := .written g.job.origin f failure) rfl rfl o
    rw [hspoken, line_of_holder hid hg, List.append_assoc, List.singleton_append] at hnote
    rw [← hnote]
    unfold dispatch
    rw [hline]
    rfl
  rw [hafter]
  exact .hand hbefore

/-- A worker gives the lock back, and its message leaves the line. -/
theorem dispatch_letGo (hl : o.Locked) (hid : o.lock.holder = some (.worker id)) (hg : o.grip id = some g) :
    Dispatch.Step o.dispatch (o.release.setGrip id none).dispatch := by
  have hbefore : o.dispatch.marks
      = o.spoken ++ g.job.mark :: o.lock.release.parties.filterMap (Party.mark? o.grip) :=
    congrArg (o.spoken ++ ·) (line_of_holder hid hg)
  have hafter : (o.release.setGrip id none).dispatch
      = { o.dispatch with marks := o.spoken ++ o.lock.release.parties.filterMap (Party.mark? o.grip) } := by
    rw [← line_letGo hl hid hg]
    rfl
  rw [hafter]
  exact .depart hbefore

/-- **A step of a worker is a step of the dispatch.** -/
theorem Work.dispatch (work : Work env o o') (hl : o.Locked) (hsound : o.lock.Sound) :
    Dispatch.Step o.dispatch o'.dispatch := by
  cases work with
  | rest ready workers hsub hnodup hready => exact .idle
  | refuse hqueue hprepared => exact dispatch_refuse hqueue hprepared
  | takeOn hturn hworker hgrip hqueue hprepared => exact dispatch_takeOn hl hsound hgrip hqueue hprepared
  | @grant id job hturn hgrip =>
    have hsame : (o.setGrip id (some ⟨job, .writing⟩)).dispatch = o.dispatch := by
      unfold dispatch line
      rw [show Party.mark? (o.setGrip id (some ⟨job, .writing⟩)).grip = Party.mark? o.grip from
        mark?_update hgrip rfl]
      rfl
    rw [hsame]
    exact .idle
  | @hand id job f left failure hturn hgrip hleft hanswer =>
    exact dispatch_hand (hl.turn hturn hgrip) hgrip ⟨{ job with left }, holdAfter failure⟩ rfl f failure
  | finish hturn hgrip hleft => exact dispatch_letGo hl (hl.turn hturn hgrip) hgrip
  | @giveUp id job causes hturn hgrip =>
    show Dispatch.Step o.dispatch ((o.release.setGrip id none).note
      (.told (.fault (.sending job.submission) (.transport (.failed causes))))).dispatch
    rw [dispatch_told rfl]
    exact dispatch_letGo hl (hl.turn hturn hgrip) hgrip

/-- **A change is a step of the dispatch.** -/
theorem Change.dispatch {new : List Outbound} (change : Change env o new o') (hl : o.Locked)
    (hsound : o.lock.Sound) : Dispatch.Step o.dispatch o'.dispatch := by
  cases change with
  | step step =>
    cases step with
    | work work => exact work.dispatch hl hsound
    | request =>
      have hsame : (o.request .caller).dispatch = o.dispatch := by
        unfold dispatch
        rw [line_request_caller hsound]
        rfl
      rw [hsame]
      exact .idle
    | @control f failure hholder hallowed hanswer =>
      have hsame := dispatch_note (e := .written .control f failure) rfl rfl o
      rw [spoken_note] at hsame
      simp only [Entry.written?, Option.toList_some, List.filterMap_cons, Origin.mark?, List.filterMap_nil,
        List.append_nil] at hsame
      rw [hsame]
      exact .idle
    | release hholder =>
      have hsame : o.release.dispatch = o.dispatch := by
        unfold dispatch
        rw [line_release_caller hholder]
        rfl
      rw [hsame]
      exact .idle
  | sessions sessions => exact .idle
  | tell other =>
    rw [dispatch_told (refusesSession_told other)]
    exact .idle
  | accept x => exact .accept x
  | enlist => exact .idle
  | clear =>
    have hclear : o.clear.dispatch = { o.dispatch with queue := [] } := by
      simp [dispatch, Outbox.clear, spoken, handed, line, List.filterMap_map, List.countP_map, Function.comp_def,
        Entry.taken?, Entry.refusesSession, Entry.written?]
    rw [hclear]
    exact .clear

end Outbox

/-! ### Courses -/

namespace Outbox

variable {σ : Type} {env : Environment σ} {o o' : Outbox} {new : List Outbound}

/-- Nobody ever waits for a lock that is free. -/
theorem Change.sound_lock (change : Change env o new o') (h : o.lock.Sound) : o'.lock.Sound := by
  cases change with
  | step step =>
    cases step with
    | work work =>
      cases work with
      | takeOn hturn hworker hgrip hqueue hprepared =>
        unfold startJob
        split <;> exact .request _
      | finish | giveUp => exact .release
      | rest | refuse | grant | hand => exact h
    | request => exact .request _
    | release => exact .release
    | control => exact h
  | sessions | tell | accept | enlist | clear => exact h

/-- **Changes are steps of the dispatch**, one after the other. -/
theorem Changes.dispatch (changes : Changes env o new o') (hl : o.Locked) (h : o.lock.Sound) :
    o'.lock.Sound ∧ Relation.ReflTransGen Dispatch.Step o.dispatch o'.dispatch := by
  induction changes with
  | refl => exact ⟨h, .refl⟩
  | tail changes change ih =>
    obtain ⟨hsound, hsteps⟩ := ih
    exact ⟨change.sound_lock hsound, hsteps.tail (change.dispatch (Changes.locked changes hl) hsound)⟩

/-- A step of a worker takes nothing but the head of the queue. -/
theorem Work.taken_append_queue (work : Work env o o') :
    o'.dispatch.taken ++ o'.queue = o.dispatch.taken ++ o.queue := by
  cases work with
  | rest | grant | finish => rfl
  | refuse hqueue hprepared => simp [Outbox.dispatch, note, take, Entry.taken?, hqueue]
  | @takeOn id s queue job hturn hworker hgrip hqueue hprepared =>
    obtain ⟨hstartQueue, hstartJournal, -⟩ := startJob_eq (o.take s queue) id job
    simp only [Outbox.dispatch, hstartQueue, hstartJournal]
    simp [take, Entry.taken?, hqueue]
  | hand | giveUp => simp [Outbox.dispatch, note, setGrip, release, Entry.taken?]

theorem Works.taken_append_queue (works : Works env o o') :
    o'.dispatch.taken ++ o'.queue = o.dispatch.taken ++ o.queue := by
  induction works with
  | refl => rfl
  | tail _ work ih => exact work.taken_append_queue.trans ih

end Outbox

namespace Dispatch

variable {d d' : Dispatch}

theorem Ordered.steps (h : d.Ordered) (steps : Relation.ReflTransGen Step d d') : d'.Ordered := by
  induction steps with
  | refl => exact h
  | tail _ step ih => exact ih.step step

theorem Numbered.steps (h : d.Numbered) (steps : Relation.ReflTransGen Step d d') : d'.Numbered := by
  induction steps with
  | refl => exact h
  | tail _ step ih => exact ih.step step

/-- Before anything has happened all is in order. -/
theorem ordered_blank (accepted : Nat) : Ordered ⟨[], accepted, [], 0, 0, []⟩ :=
  ⟨.nil, nofun, .nil, .nil, nofun, .nil⟩

theorem numbered_blank (accepted : Nat) : Numbered ⟨[], accepted, [], 0, 0, []⟩ :=
  ⟨Nat.le_refl 0, rfl, fun _ => nofun, fun _ => .nil⟩

end Dispatch

namespace Link

variable {σ : Type} {env : Environment σ} {l l' : Link σ} {log new : List Outbound}

/-- A link at the beginning: nobody has the lock, and nothing was handed over. -/
theorem blank (env : Environment σ) (carrier : σ) :
    ({ carrier } : Link σ).outbox.Locked
      ∧ Outbox.Traced env Frame.OfControl [] [] ({ carrier } : Link σ).outbox := by
  have hworkers : ({ carrier } : Link σ).outbox.workers = ∅ := by
    refine Set.eq_empty_iff_forall_notMem.mpr ?_
    rintro id ⟨w, hw⟩
    cases hw
  exact ⟨.blank (fun _ => rfl) rfl rfl hworkers, .blank (fun _ => rfl) rfl rfl rfl⟩

/-- **On every course the dispatch is in order.** -/
theorem Course.dispatch {carrier : σ} (course : Course env { carrier } log l) :
    l.outbox.dispatch.Ordered ∧ l.outbox.dispatch.Numbered := by
  have hl := (blank env carrier).1
  obtain ⟨-, changes⟩ := course.changes hl
  obtain ⟨-, hsteps⟩ := Outbox.Changes.dispatch changes hl (fun _ => rfl)
  exact ⟨(Dispatch.ordered_blank 0).steps hsteps, (Dispatch.numbered_blank 0).steps hsteps⟩

/-! ## Taking -/

/-- A worker takes a message from the queue, which goes before all others that wait there. -/
structure TakesFirst (l : Link σ) (s : Submission) (l' : Link σ) : Prop where
  waits : s ∈ l.queue
  gone : l'.queue = l.queue.erase s
  noted : l'.taken = l.taken ++ [s]
  first : ∀ t ∈ l.queue, t ≠ s → s.priority.Before t.priority

/-- Workers that take nothing from the queue take nothing. -/
theorem taken_of_works (works : Outbox.Works env l.outbox l'.outbox) (hqueue : l'.queue = l.queue) :
    l'.taken = l.taken := by
  have htaken : l'.taken ++ l'.queue = l.taken ++ l.queue := works.taken_append_queue
  rw [hqueue] at htaken
  exact List.append_cancel_right htaken

/-- **With each step at most one message is taken, and it is the first of all that wait.** -/
theorem Step.taken (step : Step env l new l') (hl : l.outbox.Locked) (h : l.outbox.dispatch.Ordered) :
    l'.taken = l.taken ∨ ∃ s, l.TakesFirst s l' := by
  cases step with
  | work =>
    have works := work_works env l
    rcases queue_work env hl with hsame | ⟨s, htakes⟩
    · exact Or.inl (taken_of_works works hsame)
    · right
      obtain ⟨queue, hqueue⟩ := List.head?_eq_some_iff.mp htakes.first
      have hafter : (l.work env).queue = queue := by
        rw [(htakes.work env).1, hqueue, List.tail_cons]
      have htaken : (l.work env).taken ++ (l.work env).queue = l.taken ++ l.queue := works.taken_append_queue
      rw [hafter, hqueue, ← List.singleton_append, ← List.append_assoc] at htaken
      have hsorted : l.queue.Pairwise fun s t => s.priority.Before t.priority := h.sorted
      rw [hqueue, List.pairwise_cons] at hsorted
      refine ⟨s, ⟨?_, ?_, List.append_cancel_right htaken, ?_⟩⟩
      · rw [hqueue]
        exact List.mem_cons_self
      · rw [hafter, hqueue, List.erase_cons_head]
      · intro t ht hne
        rw [hqueue] at ht
        rcases List.mem_cons.mp ht with rfl | ht
        · exact absurd rfl hne
        · exact hsorted.1 t ht
  | pass ms =>
    have hworks : Outbox.Works env l.outbox (l.pass ms).outbox :=
      wakeDue_works env { l with now := l.now + ms }
    exact Or.inl (taken_of_works hworks (congrArg Roster.queue (roster_pass l ms)))
  | release holder =>
    left
    unfold Link.taken
    rw [show l.release.journal.toList = l.journal.toList from congrArg Outbox.journal (outbox_release l)]
  | request | sessions => exact Or.inl rfl
  | @control f holder type =>
    left
    simp [Link.taken, handOver, record, Entry.taken?]
  | tell other =>
    left
    simp [Link.taken, Link.tell, record, Entry.taken?]
  | submit accepted => exact Or.inl (congrArg (List.filterMap Entry.taken?) (outbox_submit hl accepted).2)
  | shutDown =>
    left
    have hjournal : l.shutDown.journal.toList = _ := (shutDown_roused l).journal_eq
    unfold Link.taken
    rw [hjournal]
    simp [Outbox.clear, outbox, List.filterMap_map, Function.comp_def, Entry.taken?]

/-! ## Dispatch -/

/-- What a worker has handed over for the message in its hands belongs to it. -/
theorem belongs_of_wrote {g : Grip} {written : List Written} (h : g.Wrote env written) :
    ∀ w ∈ written, w.Belongs g.job.submission g.job.message := by
  intro w hw
  unfold Grip.Wrote at h
  split at h
  · rw [h.1] at hw
    cases hw
  · obtain ⟨frames, rfl, hframes⟩ := h
    have hcarries := Envelope.carries_of_segments hframes
    exact Submission.belongs_of_mem_sent (fun f hf => hcarries f (List.mem_append_left _ hf)) hw
  · obtain ⟨frames, last, rfl, -, hframes⟩ := h
    have hcarries := Envelope.carries_of_segments hframes
    rcases List.mem_append.mp hw with hw | hw
    · exact Submission.belongs_of_mem_sent (fun f hf => hcarries f (List.mem_append_left _ hf)) hw
    · rw [List.mem_singleton.mp hw]
      exact ⟨rfl, hcarries last (List.mem_append_right _ List.mem_cons_self)⟩

/-- **Whatever is handed over for a message belongs to it**, in a block that is over or in the one under way. -/
theorem belongs_of_traced {o : Outbox} {blocks : List Block} (hl : o.Locked)
    (h : Outbox.Traced env Frame.OfControl log blocks o) {w : Written} (hw : w ∈ o.handed) {number : Nat}
    {message : UInt32} (horigin : w.origin = .message number message) :
    ∃ s : Submission, s.number = number ∧ w.Belongs s message := by
  have hfind : ∀ {s : Submission} {id : UInt32}, w.Belongs s id →
      ∃ s : Submission, s.number = number ∧ w.Belongs s message := by
    intro s id hbelongs
    have hsame := hbelongs.1.symm.trans horigin
    cases hsame
    exact ⟨s, rfl, hbelongs⟩
  obtain ⟨current, hhanded, hcurrent⟩ := h.written
  rw [hhanded] at hw
  rcases List.mem_append.mp hw with hw | hw
  · obtain ⟨b, hb, hw⟩ := List.mem_flatMap.mp hw
    have huniform := (h.good b hb).uniform
    cases b with
    | control f failure =>
      rw [List.mem_singleton.mp hw] at horigin
      cases horigin
    | whole s id frames => exact hfind (huniform w hw)
    | broken s id frames last causes => exact hfind (huniform w hw)
  · by_cases hholder : ∃ id, o.lock.holder = some (.worker id)
    · obtain ⟨id, hid⟩ := hholder
      obtain ⟨g, hg⟩ := hl.exists_grip hid
      exact hfind (belongs_of_wrote (hcurrent.worker hid hg) w hw)
    · rw [not_exists] at hholder
      rw [hcurrent.other hholder] at hw
      cases hw

end Link

/-- **Messages leave in order.** At every moment of every course of a link, and hence of every run of an endpoint:
    no two submissions share a place in the order of sending; with each step at most one message is taken, which
    goes before all others that wait; and those with equal keys are taken in the order of their submission. The
    frames that are handed over are those of the message that was taken first, then those of the next one, and so
    on. As long as the ids have not come round, they grow from one message to the next, begin with 1, are not
    shared by two messages, and are carried by all frames that have room for them. -/
theorem dispatched_in_order {σ : Type} (env : Environment σ) (carrier : σ) :
    (∀ e, Endpoint.open? env carrier = .ok e → ∀ actions,
      ∃ log, List.Forall₂ (Accepted.Queued env) (e.run env actions).2 log
        ∧ Link.Course env { carrier } log (e.run env actions).1.link)
      ∧ ∀ log l, Link.Course env { carrier } log l →
        (∀ s t : Submission, s.Logged log → t.Logged log → s.priority = t.priority → s = t)
          ∧ (∀ new l', Link.Step env l new l' → l'.taken = l.taken ∨ ∃ s, l.TakesFirst s l')
          ∧ (l.taken.map Submission.number).Nodup ∧ l.taken.Pairwise Dispatch.Fair
          ∧ (l.marks.Pairwise fun m m' => m = m' ∨ Dispatch.TakenBefore l.taken m.number m'.number)
          ∧ l.lastMessage = UInt32.ofNat l.idCount
          ∧ (l.idCount < UInt32.size →
            (l.marks.Pairwise fun m m' => m = m' ∨ m.message < m'.message)
              ∧ (∀ m ∈ l.marks, 1 ≤ m.message)
              ∧ (∀ m ∈ l.marks, ∀ m' ∈ l.marks, m.message = m'.message → m.number = m'.number)
              ∧ ∀ w ∈ l.handed, ∀ number message, w.origin = .message number message →
                2 ≤ w.frame.header.version → w.frame.header.message = message) := by
  constructor
  · intro e hopen actions
    obtain ⟨log, hqueued, course⟩ := Endpoint.course_run (Endpoint.Ordered.fresh hopen) actions
    obtain ⟨-, rfl⟩ := Endpoint.eq_of_open? hopen
    exact ⟨log, hqueued, course⟩
  intro log l course
  obtain ⟨hlocked, hblank⟩ := Link.blank env carrier
  obtain ⟨hl, blocks, htraced⟩ := Link.Course.traced course hlocked hblank
  obtain ⟨hordered, hnumbered⟩ := course.dispatch
  -- of the marks of a dispatch, those of the frames that were handed over are the first ones
  have hspoken : l.marks.Sublist l.outbox.dispatch.marks := List.sublist_append_left _ _
  have htaken : l.taken.Sublist (l.outbox.dispatch.taken ++ l.outbox.dispatch.queue) :=
    List.sublist_append_left _ _
  refine ⟨?_, fun new l' step => step.taken hl hordered, ?_, hordered.fair.sublist htaken,
    hordered.order.sublist hspoken, hnumbered.last, ?_⟩
  · intro s t hs ht hsame
    exact hs.eq_of_number ht (congrArg Priority.number hsame)
  · exact List.pairwise_map.mpr (hordered.apart.sublist htaken)
  · intro hcount
    have hgrow := (hnumbered.grow hcount).sublist hspoken
    refine ⟨hgrow, fun m hm => (hnumbered.bounds hcount m (hspoken.subset hm)).1, ?_, ?_⟩
    · -- of two marks one comes first, and then it has the smaller id, unless they are the same
      have hforward := hgrow.imp fun {m m'} h (hid : m.message = m'.message) =>
        h.resolve_right fun hlt => UInt32.lt_irrefl _ (hid ▸ hlt)
      have hbackward := hforward.imp fun {m m'} h (hid : m'.message = m.message) => (h hid.symm).symm
      intro m hm m' hm' hid
      exact congrArg Mark.number (hforward.forall_of_forall_of_flip (fun _ _ _ => rfl) hbackward hm hm' hid)
    · intro w hw number message horigin hversion
      obtain ⟨s, -, hbelongs⟩ := Link.belongs_of_traced hl htraced hw horigin
      rw [hbelongs.2.version] at hversion
      rw [hbelongs.2.message]
      exact if_pos hversion

/-- Two messages are taken at once, and the second one waits for the lock while a more urgent message and two
    with equal keys come in. -/
def rush : List Action :=
  [.receive [0x20, 0x07, 0x02, 1, 0, 0, 0, 0, 0, 0, 0, 5],
    .send { version := 1, service := .nav, session := 1, body := { data := [1] } },
    .send { version := 1, service := .rpc, session := 1, body := { data := [2], correlationId := 9 } },
    .sleep 2,
    .send { version := 1, service := .rpc, session := 1, body := { data := [3], correlationId := 7 } },
    .send { version := 1, service := .rpc, session := 1, body := { data := [4], correlationId := 7 } },
    .send { version := 1, service := .rpc, session := 1, body := { data := [5], correlationId := 1 } },
    .sleep 60]

/-- The messages leave in the order in which they were taken: the urgent one comes after the two that were in the
    hands of workers. A frame of the second message fails. -/
theorem dispatched_in_order_rush :
    ∃ e log, Endpoint.open? contention 0 = .ok e ∧
      let l := (e.run contention rush).1.link
      Link.Course contention { carrier := 0 } log l
        ∧ l.taken.map Submission.number = [1, 0, 4, 2, 3]
        ∧ l.marks = [⟨1, 1⟩, ⟨1, 1⟩, ⟨1, 1⟩, ⟨0, 2⟩, ⟨0, 2⟩, ⟨4, 3⟩, ⟨4, 3⟩, ⟨4, 3⟩, ⟨2, 4⟩, ⟨2, 4⟩, ⟨2, 4⟩, ⟨3, 5⟩,
          ⟨3, 5⟩, ⟨3, 5⟩]
        ∧ l.idCount < UInt32.size
        ∧ (l.marks.Pairwise fun m m' => m = m' ∨ m.message < m'.message)
        ∧ l.marks.Pairwise fun m m' => m = m' ∨ Dispatch.TakenBefore l.taken m.number m'.number := by
  have hopen : Endpoint.open? contention 0 = .ok _ := rfl
  obtain ⟨hruns, hcourses⟩ := dispatched_in_order contention 0
  obtain ⟨log, -, hcourse⟩ := hruns _ hopen rush
  obtain ⟨-, -, -, -, horder, -, hids⟩ := hcourses log _ hcourse
  refine ⟨_, log, rfl, hcourse, by decide +kernel, by decide +kernel, by decide +kernel, (hids ?_).1, horder⟩
  decide +kernel

end HeadLink
