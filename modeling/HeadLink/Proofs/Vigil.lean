import HeadLink.Proofs.Events

/-!
# Who dozes, and while what waits

An idle worker dozes until the bell rings for it or its time is up. While one dozes, each message that waits is
the business of another worker: of one that is about to look for a message, or of one that was rung for and has
not noticed yet. A worker that was rung for while it was busy passes the ring on when it is through with its
message, and looks for a message itself.

Whoever submits a message rings, so that there is one worker more for one message more, unless nobody listens and
hence nobody dozes. The worker that takes a message was about to look for one.

## Contents
- **Dozing.** `Worker.Dozes`, `Worker.answers`, and the invariant `Link.Watched`, which says as well that who dozes
  is woken only when its time is up, and that nobody dozes once the link is shut down.
- **In the middle of a step.** `Link.Stirs`: nobody else begins to doze. What small moves do.
- **Steps.** The ways in which a step ends, and `Link.Watched.work`.
- **Events.** `Link.Watched.event`, and `Link.Becomes.watched` for any number of them.
-/

namespace HeadLink

variable {σ : Type} {env : Environment σ}

/-! ## Dozing -/

namespace Worker

/-- The worker is idle and has not heard the bell. -/
def Dozes (w : Worker) : Prop := w.signal = .listening ∧ w.stage.idleness = 1

/-- How many of the messages that wait are the business of the worker. -/
def answers (w : Worker) : Nat := if w.signal = .rung ∨ w.stage = .seeking then 1 else 0

theorem answers_le (w : Worker) : w.answers ≤ 1 := by
  unfold answers
  split <;> simp

theorem answers_of_seeking {w : Worker} (h : w.stage = .seeking) : w.answers = 1 := if_pos (Or.inr h)

theorem not_dozes {w : Worker} (h : w.stage.idleness = 0) : ¬ w.Dozes := by
  rintro ⟨-, hidle⟩
  cases h.symm.trans hidle

/-- Who dozes has no message in its hands. -/
theorem Dozes.grip_eq_none {w : Worker} (h : w.Dozes) : w.stage.grip = none := by
  have hidle := h.2
  cases hstage : w.stage with
  | seeking | idle deadline => rfl
  | queueing job | writing job | calling job ends failure =>
    rw [hstage] at hidle
    cases hidle

/-- Whose time has come has not to wait any more. -/
theorem isDue_mono {w : Worker} {n m : Nat} (h : w.isDue n = true) (hle : n ≤ m) : w.isDue m = true := by
  unfold isDue at h ⊢
  cases hdeadline : w.deadline? with
  | none => simp [hdeadline] at h
  | some deadline =>
    simp only [hdeadline, decide_eq_true_eq] at h ⊢
    omega

end Worker

namespace Link

/-- **While somebody dozes, each message that waits is the business of another worker.** Who dozes is to run only
    if its time is up; and once the link is shut down, nobody dozes. -/
structure Watched (l : Link σ) : Prop where
  covered : l.isShutDown = false → ∀ {id w}, l.workers.get? id = some w → w.Dozes →
    l.queue.length ≤ l.workers.total Worker.answers
  timely : ∀ {id w}, l.workers.get? id = some w → w.Dozes → id ∈ l.ready → w.isDue l.now = true
  closed : l.isShutDown = true → ∀ {id w}, l.workers.get? id = some w → ¬ w.Dozes

variable {l l' l₀ l₁ l₂ : Link σ} {away : Option Nat} {id : Nat} {s : Signal} {w : Worker}

/-! ## In the middle of a step -/

/-- **Nobody begins to doze, or is woken while it dozes**, but perhaps the worker that is away; and no fewer
    messages are looked after. -/
structure Stirs (away : Option Nat) (l₀ l : Link σ) : Prop where
  own : ∀ {id}, some id = away → l.workers.get? id = l₀.workers.get? id
  answers : l₀.workers.total Worker.answers ≤ l.workers.total Worker.answers
  dozing : ∀ {id w}, some id ≠ away → l.workers.get? id = some w → w.Dozes →
    l₀.workers.get? id = some w ∧ (id ∈ l.ready → id ∈ l₀.ready)
  now : l.now = l₀.now
  isShutDown : l.isShutDown = l₀.isShutDown

namespace Stirs

/-- Nothing has changed that matters here. -/
theorem of_eq (hworkers : l.workers = l₀.workers) (hready : l.ready = l₀.ready) (hnow : l.now = l₀.now)
    (hdown : l.isShutDown = l₀.isShutDown) : Stirs away l₀ l where
  own _ := by rw [hworkers]
  answers := by rw [hworkers]
  dozing _ hw _ := ⟨hworkers ▸ hw, fun hin => hready ▸ hin⟩
  now := hnow
  isShutDown := hdown

theorem refl (away : Option Nat) (l : Link σ) : Stirs away l l := .of_eq rfl rfl rfl rfl

theorem trans (h : Stirs away l₀ l₁) (h' : Stirs away l₁ l₂) : Stirs away l₀ l₂ where
  own haway := (h'.own haway).trans (h.own haway)
  answers := h.answers.trans h'.answers
  dozing haway hw hdozes := by
    obtain ⟨hbefore, hline⟩ := h'.dozing haway hw hdozes
    obtain ⟨hfirst, hline'⟩ := h.dozing haway hbefore hdozes
    exact ⟨hfirst, fun hin => hline' (hline hin)⟩
  now := h'.now.trans h.now
  isShutDown := h'.isShutDown.trans h.isShutDown

end Stirs

/-- A signal makes nobody run but the worker that it is for. -/
theorem mem_ready_of_signal {id' : Nat} (h : id' ∈ (l.signal id s).ready) : id' ∈ l.ready ∨ id' = id := by
  unfold signal at h
  split at h
  · exact Or.inl h
  · dsimp only at h
    split at h
    · exact mem_ready_wake (l := l.setWorker id _).mp h
    · exact Or.inl h

/-- **What a ring does to the first of those that listen**: one message more is looked after. -/
theorem ring_of_listeners {rest : List Nat} (h : l.InOrderBut away) (hlisteners : l.listeners = id :: rest)
    (haway : some id ≠ away) : ∃ w, l.workers.get? id = some w ∧ w.answers = 0
      ∧ l.ring.workers = l.workers.insert id { w with signal := .rung }
      ∧ l.ring.workers.total Worker.answers = l.workers.total Worker.answers + 1 := by
  obtain ⟨w, hw⟩ := h.known (hlisteners ▸ List.mem_cons_self) haway
  have hplaced := h.placed haway hw
  have hlistening := hplaced.listens.mp (hlisteners ▸ List.mem_cons_self)
  have hnone : w.answers = 0 := by
    apply if_neg
    rintro (hrung | hseeking)
    · cases hlistening.symm.trans hrung
    · cases hlistening.symm.trans (hplaced.seeks hseeking)
  have hworkers : l.ring.workers = l.workers.insert id { w with signal := .rung } := by
    unfold ring
    rw [hlisteners]
    exact workers_signal (l := { l with listeners := rest }) hw
  refine ⟨w, hw, hnone, hworkers, ?_⟩
  have htotal := Table.total_insert hw { w with signal := .rung } Worker.answers
  have hone : Worker.answers { w with signal := .rung } = 1 := if_pos (Or.inl rfl)
  rw [hworkers]
  omega

/-- **A ring puts nobody to sleep.** -/
theorem Stirs.ring (h : l.InOrderBut away) (hfirst : ∀ id ∈ l.listeners, some id ≠ away) :
    Stirs away l l.ring := by
  cases hlisteners : l.listeners with
  | nil =>
    unfold Link.ring
    rw [hlisteners]
    exact .of_eq rfl rfl rfl rfl
  | cons first rest =>
    have haway := hfirst first (by simp [hlisteners])
    obtain ⟨w, hw, -, hworkers, htotal⟩ := ring_of_listeners h hlisteners haway
    have hring : l.ring = ({ l with listeners := rest } : Link σ).signal first .rung := by
      unfold Link.ring
      rw [hlisteners]
    constructor
    · intro id hid
      have hne : id ≠ first := by
        rintro rfl
        exact haway hid
      rw [hworkers, Table.get?_insert, if_neg hne]
    · rw [htotal]
      exact Nat.le_succ _
    · intro id w' _ hw' hdozes
      rw [hworkers, Table.get?_insert] at hw'
      by_cases hid : id = first
      · rw [if_pos hid] at hw'
        cases hw'
        cases hdozes.1
      · rw [if_neg hid] at hw'
        refine ⟨hw', ?_⟩
        intro hin
        rw [hring] at hin
        exact (mem_ready_of_signal hin).resolve_right hid
    · exact congrArg Roster.now (roster_ring l)
    · exact congrArg Roster.isShutDown (roster_ring l)

/-- **Passing the lock on wakes nobody who dozes**: who gets it has a message in its hands. -/
theorem Stirs.release (hl : l.outbox.Locked) : Stirs away l l.release := by
  constructor
  · intro id _
    rw [workers_release]
  · rw [workers_release]
  · intro id w _ hw hdozes
    rw [workers_release] at hw
    refine ⟨hw, ?_⟩
    intro hin
    have hready : l.release.ready = l.outbox.readyAfterRelease := congrArg Outbox.ready (outbox_release l)
    rw [hready] at hin
    apply (Outbox.mem_readyAfterRelease hin).resolve_right
    intro hnext
    -- it would be among the parties without a message
    have hwaits : .worker id ∈ l.lock.parties := by
      unfold WriteLock.parties
      exact List.mem_append_right _ (List.mem_of_mem_head? hnext)
    have hnone : l.outbox.grip id = none := (grip_outbox (stageOf_eq hw)).trans hdozes.grip_eq_none
    have hcount : l.lock.parties.count (.worker id) = _ := hl.parties id
    rw [hnone] at hcount
    exact List.count_eq_zero.mp hcount hwaits
  · exact congrArg Roster.now (roster_release l)
  · exact congrArg Roster.isShutDown (roster_release l)

/-- Hanging up passes a ring on, or does nothing that matters here. -/
theorem Stirs.hangUp (h : l.Midway id s) : Stirs (some id) l (l.hangUp id s) := by
  cases s with
  | rung =>
    have hnot : id ∉ l.listeners := fun hin => nomatch h.listens.mp hin
    apply Stirs.ring h.others
    rintro id' hin heq
    exact hnot (Option.some.inj heq ▸ hin)
  | off | kept | listening | called => exact .of_eq rfl rfl rfl rfl

/-- What is reported does not matter here. -/
theorem Stirs.report (l : Link σ) (message : Submission) (fault : Option Fault) :
    Stirs away l (l.report message fault) := by
  cases fault <;> exact .of_eq rfl rfl rfl rfl

/-! ## Steps -/

namespace Watched

/-- While a worker waits or runs again, those in line are those that were. -/
theorem of_stirs (h : l₀.Watched) (hstirs : Stirs none l₀ l) (hqueue : l.queue.length ≤ l₀.queue.length) :
    l.Watched := by
  have hdozing : ∀ {id w}, l.workers.get? id = some w → w.Dozes →
      l₀.workers.get? id = some w ∧ (id ∈ l.ready → id ∈ l₀.ready) := fun hw => hstirs.dozing nofun hw
  constructor
  · intro hopen id w hw hdozes
    have hbefore := h.covered (hstirs.isShutDown.symm.trans hopen) (hdozing hw hdozes).1 hdozes
    exact (hqueue.trans hbefore).trans hstirs.answers
  · intro id w hw hdozes hin
    rw [hstirs.now]
    obtain ⟨hbefore, hline⟩ := hdozing hw hdozes
    exact h.timely hbefore hdozes (hline hin)
  · intro hdown id w hw hdozes
    exact h.closed (hstirs.isShutDown.symm.trans hdown) (hdozing hw hdozes).1 hdozes

theorem suspend (h : l.Watched) : l.suspend.Watched where
  covered := h.covered
  timely hw hdozes hin := h.timely hw hdozes (List.mem_of_mem_tail hin)
  closed := h.closed

/-- **What a step of a worker has to keep to.** The others are as they were in the middle of the step, and nobody is
    to run who was not. If the worker itself dozes afterwards, it has left the line, and nothing waits; and while
    something waits, as many fewer messages are looked after as have left the queue. -/
theorem next (h : l₀.Watched) (hstirs : Stirs (some id) l₀ l) (hnow : l'.now = l.now)
    (hdown : l'.isShutDown = l.isShutDown)
    (hget : ∀ {id' w}, id' ≠ id → l'.workers.get? id' = some w → l.workers.get? id' = some w)
    (hready : ∀ {id'}, id' ∈ l'.ready → id' ∈ l.ready)
    (hself : ∀ {w}, l'.workers.get? id = some w → w.Dozes → l'.isShutDown = false ∧ l'.queue = [] ∧ id ∉ l'.ready)
    (hqueue : l'.isShutDown = false → l'.queue ≠ [] → l'.queue.length + l₀.workers.total Worker.answers
      ≤ l₀.queue.length + l'.workers.total Worker.answers) : l'.Watched := by
  have hothers : ∀ {id' w}, id' ≠ id → l'.workers.get? id' = some w → w.Dozes →
      l₀.workers.get? id' = some w ∧ (id' ∈ l'.ready → id' ∈ l₀.ready) := by
    intro id' w hid hw hdozes
    obtain ⟨hbefore, hline⟩ := hstirs.dozing (fun heq => hid (Option.some.inj heq)) (hget hid hw) hdozes
    exact ⟨hbefore, fun hin => hline (hready hin)⟩
  have hdown₀ : l'.isShutDown = l₀.isShutDown := hdown.trans hstirs.isShutDown
  constructor
  · intro hopen id' w hw hdozes
    by_cases hempty : l'.queue = []
    · rw [hempty]
      exact Nat.zero_le _
    · have hid : id' ≠ id := by
        rintro rfl
        exact hempty (hself hw hdozes).2.1
      have hbefore := h.covered (hdown₀.symm.trans hopen) (hothers hid hw hdozes).1 hdozes
      have hfewer := hqueue hopen hempty
      omega
  · intro id' w hw hdozes hin
    have hid : id' ≠ id := by
      rintro rfl
      exact (hself hw hdozes).2.2 hin
    obtain ⟨hbefore, hline⟩ := hothers hid hw hdozes
    rw [hnow, hstirs.now]
    exact h.timely hbefore hdozes (hline hin)
  · intro hshut id' w hw hdozes
    have hid : id' ≠ id := by
      rintro rfl
      cases (hself hw hdozes).1.symm.trans hshut
    exact h.closed (hdown₀.symm.trans hshut) (hothers hid hw hdozes).1 hdozes

theorem get?_of_insert {w' w'' : Worker} {id' : Nat} (hid : id' ≠ id)
    (h : (l.workers.insert id w').get? id' = some w'') : l.workers.get? id' = some w'' := by
  rwa [Table.get?_insert, if_neg hid] at h

theorem eq_of_insert {w' w'' : Worker} (h : (l.workers.insert id w').get? id = some w'') : w' = w'' := by
  rw [Table.get?_insert, if_pos rfl] at h
  exact Option.some.inj h

/-- **The worker comes to a stage at which it does not doze.** If fewer messages are its business than before, as
    many fewer wait. -/
theorem setWorker (h : l₀.Watched) (hstirs : Stirs (some id) l₀ l) (hw : l₀.workers.get? id = some w)
    {w' : Worker} (hwakes : ¬ w'.Dozes) (hqueue : l.queue.length + w.answers ≤ l₀.queue.length + w'.answers) :
    (l.setWorker id w').Watched := by
  refine h.next hstirs rfl rfl get?_of_insert (fun hin => hin) ?_ ?_
  · intro w'' hw'' hdozes
    exact absurd (eq_of_insert hw'' ▸ hdozes) hwakes
  · intro _ _
    have htotal := Table.total_insert ((hstirs.own rfl).trans hw) w' Worker.answers
    have hmore := hstirs.answers
    show l.queue.length + _ ≤ _ + (l.workers.insert id w').total Worker.answers
    omega

/-- The worker ends, and nothing waits or the link is shut down. -/
theorem leave (h : l₀.Watched) (hstirs : Stirs (some id) l₀ l)
    (hwhy : l.isShutDown = true ∨ l.queue = []) : (l.leave id).Watched := by
  have hget : ∀ {id' w}, (l.leave id).workers.get? id' = some w → id' ≠ id ∧ l.workers.get? id' = some w := by
    intro id' w hw
    have hin : (l.workers.erase id).get? id' = some w := hw
    rw [Table.get?_erase] at hin
    by_cases hid : id' = id
    · rw [if_pos hid] at hin
      cases hin
    · rw [if_neg hid] at hin
      exact ⟨hid, hin⟩
  refine h.next hstirs rfl rfl (fun _ hw => (hget hw).2) List.mem_of_mem_tail ?_ ?_
  · intro w hw
    exact absurd rfl (hget hw).1
  · intro hopen hwaits
    rcases hwhy with hdown | hempty
    · cases hdown.symm.trans hopen
    · exact absurd hempty hwaits

/-- Nothing waits, and the worker waits for the bell itself. Unless a ring was kept, it leaves the line. -/
theorem waitForBell (h : l₀.Watched) (hstirs : Stirs (some id) l₀ l) (hopen : l.isShutDown = false)
    (hempty : l.queue = []) (hmid : l.Midway id s) (hnodup : l.ready.Nodup) :
    (l.waitForBell env id s).Watched := by
  unfold Link.waitForBell
  split
  · exact h.leave hstirs (Or.inr hempty)
  · dsimp only
    split
    · refine h.next hstirs rfl rfl get?_of_insert List.mem_of_mem_tail ?_ ?_
      · intro _ _ _
        obtain ⟨rest, hready⟩ := List.head?_eq_some_iff.mp hmid.turn
        refine ⟨hopen, hempty, ?_⟩
        show id ∉ l.ready.tail
        rw [hready] at hnodup ⊢
        exact (List.nodup_cons.mp hnodup).1
      · intro _ hwaits
        exact absurd hempty hwaits
    · rename_i hheard
      refine h.next hstirs rfl rfl get?_of_insert (fun hin => hin) ?_ ?_
      · intro w' hw' hdozes
        cases eq_of_insert hw'
        exact absurd hdozes.1 hheard
      · intro _ hwaits
        exact absurd hempty hwaits

/-- The worker turns to the next message. -/
theorem moveOn (h : l₀.Watched) (hstirs : Stirs (some id) l₀ l) (hw : l₀.workers.get? id = some w)
    (hmid : l.Midway id s) (hqueue : l.queue.length ≤ l₀.queue.length) : (l.moveOn id s).Watched := by
  have hsame : (l.hangUp id s).queue = l.queue := congrArg Roster.queue (roster_hangUp l id s)
  apply h.setWorker (hstirs.trans (Stirs.hangUp hmid)) hw (Worker.not_dozes rfl)
  have hone : Worker.answers {} = 1 := Worker.answers_of_seeking rfl
  have hle := w.answers_le
  rw [hsame]
  omega

theorem finish (h : l₀.Watched) (hstirs : Stirs (some id) l₀ l) (hw : l₀.workers.get? id = some w)
    (hmid : l.Midway id s) (hl : l.outbox.Locked) (hqueue : l.queue = l₀.queue) (message : Submission)
    (fault : Option Fault) : (l.finish id s message fault).Watched := by
  have hreported : (l.release.report message fault).Midway id s := by
    cases fault <;> exact hmid.release.of_eq rfl rfl rfl rfl rfl
  have hsame : (l.release.report message fault).queue = l.queue := by
    have hroster := (roster_report l.release message fault).trans (roster_release l)
    exact congrArg Roster.queue hroster
  apply h.moveOn ((hstirs.trans (Stirs.release hl)).trans (Stirs.report ..)) hw hreported
  rw [hsame, hqueue]

/-- A worker with a message goes on with it, and still has to notice a ring if it had to before. -/
theorem goOn (h : l₀.Watched) (hstirs : Stirs (some id) l₀ l) (hw : l₀.workers.get? id = some w)
    (hqueue : l.queue = l₀.queue) {stage : Stage} (hbusy : w.stage ≠ .seeking) (hstage : stage.idleness = 0) :
    (l.setWorker id { signal := w.signal, stage }).Watched := by
  apply h.setWorker hstirs hw (Worker.not_dozes hstage)
  have hsame : w.answers ≤ Worker.answers { signal := w.signal, stage } := by
    unfold Worker.answers
    by_cases hrung : w.signal = .rung
    · simp [hrung]
    · simp [hrung, hbusy]
  rw [hqueue]
  omega

theorem afterCall (h : l₀.Watched) (hstirs : Stirs (some id) l₀ l) (hw : l₀.workers.get? id = some w)
    (hmid : l.Midway id w.signal) (hl : l.outbox.Locked) (hqueue : l.queue = l₀.queue)
    (hbusy : w.stage ≠ .seeking) (job : Job) (failure : Option (List String)) :
    (l.afterCall id w.signal job failure).Watched := by
  unfold Link.afterCall
  cases failure with
  | none => exact h.goOn hstirs hw hqueue hbusy rfl
  | some causes => exact h.finish hstirs hw hmid hl hqueue job.submission _

theorem writeNext (h : l.Watched) (hw : l.workers.get? id = some w) (hmid : l.Midway id w.signal)
    (hl : l.outbox.Locked) (hbusy : w.stage ≠ .seeking) (job : Job) :
    (l.writeNext env id w.signal job).Watched := by
  unfold Link.writeNext
  split
  · exact h.finish (.refl _ l) hw hmid hl rfl job.submission none
  · rename_i f left hleft
    have hstirs : Stirs (some id) l (l.handOver env (.message job.submission.number job.message) f).1 :=
      .of_eq rfl rfl rfl rfl
    have hhanded : (l.handOver env (.message job.submission.number job.message) f).1.Midway id w.signal :=
      hmid.of_eq rfl rfl rfl rfl rfl
    have hlocked : (l.handOver env (.message job.submission.number job.message) f).1.outbox.Locked := by
      rw [outbox_handOver]
      exact hl.note _
    dsimp only
    split
    · exact h.afterCall hstirs hw hhanded hlocked rfl hbusy _ _
    · exact (h.goOn hstirs hw rfl hbusy rfl).suspend

/-- **A worker that takes a message was about to look for one.** -/
theorem takeOn (h : l₀.Watched) (hstirs : Stirs (some id) l₀ l) (hw : l₀.workers.get? id = some w)
    (hmid : l.Midway id s) (hqueue : l.queue.length + 1 = l₀.queue.length) (message : Submission) :
    (l.takeOn env id s message).Watched := by
  have hprepare : (l.record (.taken message)).prepare env message = _ := prepare_eq _ message
  unfold Link.takeOn
  rw [hprepare]
  generalize hl' : ({ l.record (.taken message) with
    lastMessage := (l.record (.taken message)).outbox.idAfter message } : Link σ) = l'
  have hprepared : Stirs (some id) l₀ l' := hl' ▸ hstirs.trans (.of_eq rfl rfl rfl rfl)
  have hsame : l'.queue.length + 1 = l₀.queue.length := hl' ▸ hqueue
  cases (l.record (.taken message)).outbox.prepared env message with
  | error fault =>
    have hmid' : l'.Midway id s := hl' ▸ hmid.of_eq rfl rfl rfl rfl rfl
    refine h.moveOn (hprepared.trans (.report ..)) hw (hmid'.of_eq rfl rfl rfl rfl rfl) ?_
    show l'.queue.length ≤ _
    omega
  | ok job =>
    have hrequested : Stirs (some id) l₀ { l' with lock := l'.lock.request (.worker id) } :=
      hprepared.trans (.of_eq rfl rfl rfl rfl)
    have hfewer : ∀ w' : Worker, l'.queue.length + w.answers ≤ l₀.queue.length + w'.answers := by
      intro w'
      have hle := w.answers_le
      omega
    dsimp only
    split
    · exact h.setWorker hrequested hw (Worker.not_dozes rfl) (hfewer _)
    · exact (h.setWorker hrequested hw (Worker.not_dozes rfl) (hfewer _)).suspend

theorem seek (h : l.Watched) (hw : l.workers.get? id = some w) (hmid : l.Midway id .off)
    (hnodup : l.ready.Nodup) : (l.seek env id).Watched := by
  obtain ⟨keptRing, listeners, signal, hlisten⟩ := l.exists_listen id
  have hlistened := hmid.listen hlisten
  have hstirs : Stirs (some id) l { l with keptRing, listeners } := .of_eq rfl rfl rfl rfl
  unfold Link.seek
  rw [hlisten]
  dsimp only
  split
  · rename_i hdown
    exact h.leave hstirs (Or.inl hdown)
  · rename_i hopen
    split
    · rename_i hempty
      exact h.waitForBell hstirs (Bool.eq_false_of_not_eq_true hopen) hempty hlistened hnodup
    · rename_i message queue hqueue
      have htaken : Stirs (some id) l { l with keptRing, listeners, queue } := .of_eq rfl rfl rfl rfl
      refine h.takeOn htaken hw (hlistened.of_eq rfl rfl rfl rfl rfl) ?_ message
      have hlength : l.queue = message :: queue := hqueue
      rw [hlength]
      rfl

theorem resume (h : l.Watched) (hw : l.workers.get? id = some w) : (l.resume env id s).Watched := by
  unfold Link.resume
  dsimp only
  split
  · rename_i hspare
    have hstirs : Stirs (some id) l { l with idleCount := l.idleCount - 1 } := .of_eq rfl rfl rfl rfl
    exact h.leave hstirs (Or.inr hspare.2.1)
  · have hstirs : Stirs (some id) l
        { l with idleCount := l.idleCount - 1, listeners := l.listeners.erase id } := .of_eq rfl rfl rfl rfl
    refine h.setWorker hstirs hw (Worker.not_dozes rfl) ?_
    have hone : Worker.answers {} = 1 := Worker.answers_of_seeking rfl
    have hle := w.answers_le
    show l.queue.length + _ ≤ _
    omega

/-- **A step of a worker leaves nobody dozing over a message that nobody looks after.** -/
theorem work (h : l.Watched) (hregular : l.Regular) : (l.work env).Watched := by
  unfold Link.work
  split
  · exact h
  · rename_i id rest hready
    have hturn : l.ready.head? = some id := by simp [hready]
    split
    · exact h.suspend
    · rename_i w hw
      have hmid := hregular.order.midway hturn hw
      have hrefl : Stirs (some id) l l := .refl _ l
      split
      · rename_i hseeking
        have hoff := (hregular.order.placed nofun hw).seeks hseeking
        exact h.seek hw (hoff ▸ hmid) hregular.locked.nodup
      · exact h.resume hw
      · rename_i job hqueueing
        exact h.goOn hrefl hw rfl (by rw [hqueueing]; exact nofun) rfl
      · rename_i job hwriting
        exact h.writeNext hw hmid hregular.locked (by rw [hwriting]; exact nofun) job
      · rename_i job ends failure hcalling
        exact h.afterCall hrefl hw hmid hregular.locked rfl (by rw [hcalling]; exact nofun) job failure

end Watched

/-! ## Events -/

theorem not_dozes_of_idleCount (h : l.roster.Counted) (hidle : l.idleCount = 0)
    (hw : l.workers.get? id = some w) : ¬ w.Dozes :=
  Worker.not_dozes (idleness_eq_zero h hidle (stageOf_eq hw))

/-- Those are to run after a while that were to run before, and those whose time has come. -/
theorem of_mem_ready_wakeDue (h : id ∈ l.wakeDue.ready) :
    id ∈ l.ready ∨ ∃ w, l.workers.get? id = some w ∧ w.isDue l.now = true := by
  have hfold : ∀ (entries : List (Nat × Worker)) (l' : Link σ), l'.now = l.now →
      (∀ e ∈ entries, l.workers.get? e.1 = some e.2) →
      id ∈ (entries.foldl (fun l e => if e.2.isDue l.now then l.wake e.1 else l) l').ready →
      id ∈ l'.ready ∨ ∃ w, l.workers.get? id = some w ∧ w.isDue l.now = true := by
    intro entries
    induction entries with
    | nil => exact fun l' _ _ hin => Or.inl hin
    | cons e es ih =>
      intro l' hnow hentries hin
      rw [List.foldl_cons] at hin
      by_cases hdue : e.2.isDue l'.now = true
      · rw [if_pos hdue] at hin
        rcases ih _ ((now_wake ..).trans hnow) (fun e' he' => hentries e' (List.mem_cons_of_mem _ he')) hin
          with hbefore | hfound
        · refine (mem_ready_wake.mp hbefore).imp_right ?_
          rintro rfl
          exact ⟨e.2, hentries e List.mem_cons_self, hnow ▸ hdue⟩
        · exact Or.inr hfound
      · rw [if_neg hdue] at hin
        exact ih l' hnow (fun e' he' => hentries e' (List.mem_cons_of_mem _ he')) hin
  exact hfold l.workers.entries l rfl (fun e he => Table.get?_of_mem he) h

namespace Watched

/-- If nobody dozes, there is nothing to watch. -/
theorem of_nobody (h : ∀ {id w}, l.workers.get? id = some w → ¬ w.Dozes) : l.Watched where
  covered _ _ _ hw hdozes := absurd hdozes (h hw)
  timely hw hdozes := absurd hdozes (h hw)
  closed _ _ _ hw := h hw

/-- **Time wakes those who doze only when it is up.** -/
theorem pass (h : l.Watched) (ms : Nat) : (l.pass ms).Watched := by
  have hworkers : (l.pass ms).workers = l.workers := (wakeDue_frame { l with now := l.now + ms }).1
  have hroster := roster_pass l ms
  have hqueue : (l.pass ms).queue = l.queue := congrArg Roster.queue hroster
  have hnow : (l.pass ms).now = l.now + ms := congrArg Roster.now hroster
  have hdown : (l.pass ms).isShutDown = l.isShutDown := congrArg Roster.isShutDown hroster
  constructor
  · intro hopen id w hw hdozes
    rw [hworkers] at hw ⊢
    rw [hqueue]
    exact h.covered (hdown.symm.trans hopen) hw hdozes
  · intro id w hw hdozes hin
    rw [hworkers] at hw
    rw [hnow]
    rcases of_mem_ready_wakeDue (l := { l with now := l.now + ms }) hin with hbefore | ⟨w', hw', hdue⟩
    · exact Worker.isDue_mono (h.timely hw hdozes hbefore) (Nat.le_add_right _ _)
    · cases hw.symm.trans hw'
      exact hdue
  · intro hshut id w hw
    rw [hworkers] at hw
    exact h.closed (hdown.symm.trans hshut) hw

/-- The bell makes nobody doze. -/
theorem ring_of_nobody (horder : l.InOrder) (h : ∀ {id w}, l.workers.get? id = some w → ¬ w.Dozes) :
    l.ring.Watched := by
  have hring := Stirs.ring horder fun _ _ => nofun
  apply of_nobody
  intro id w hw hdozes
  exact h (hring.dozing nofun hw hdozes).1 hdozes

/-- **The bell calls somebody to look after the message**, or nobody dozes. -/
theorem accept_ring (h : l.Watched) (horder : l.InOrder) (hopen : l.isShutDown = false) (x : Outbound) :
    (l.accept x).ring.Watched := by
  have haccept := horder.accept x
  cases hlisteners : l.listeners with
  | nil =>
    apply ring_of_nobody haccept
    intro id w hw hdozes
    have hlistens : id ∈ l.listeners := (haccept.placed nofun hw).listens.mpr hdozes.1
    rw [hlisteners] at hlistens
    cases hlistens
  | cons first rest =>
    have hring := Stirs.ring haccept fun _ _ => nofun
    obtain ⟨-, -, -, -, htotal⟩ := ring_of_listeners haccept hlisteners nofun
    have hqueue : (l.accept x).ring.queue.length = l.queue.length + 1 := by
      rw [show (l.accept x).ring.queue = (l.accept x).queue from congrArg Roster.queue (roster_ring _)]
      exact length_enqueue ..
    constructor
    · intro _ id w hw hdozes
      have hbefore : l.queue.length ≤ l.workers.total Worker.answers :=
        h.covered hopen (hring.dozing nofun hw hdozes).1 hdozes
      rw [hqueue, htotal]
      exact Nat.succ_le_succ hbefore
    · intro id w hw hdozes hin
      obtain ⟨hbefore, hline⟩ := hring.dozing nofun hw hdozes
      rw [hring.now]
      exact h.timely hbefore hdozes (hline hin)
    · intro hdown
      cases hopen.symm.trans (hring.isShutDown.symm.trans hdown)

/-- **Whoever brings in a message finds somebody to look after it**, or nobody dozes. -/
theorem bringIn (env : Environment σ) (h : l.Watched) (hregular : l.Regular) (x : Outbound) (hasExecutor : Bool) :
    (l.bringIn env x hasExecutor).1.Watched := by
  rcases bringIn_cases env l x hasExecutor with hring | ⟨hidle, hleft | hstart⟩
  · rw [hring]
    cases hdown : l.isShutDown with
    | false => exact h.accept_ring hregular.order hdown x
    | true =>
      -- after a shutdown nobody dozes anyway
      apply ring_of_nobody (hregular.order.accept x)
      intro id w hw
      exact h.closed hdown hw
  · -- a worker would have been started if one was idle, so that nobody dozes
    rw [hleft]
    exact .of_nobody fun hw => not_dozes_of_idleCount hregular.counted hidle hw
  · rw [hstart]
    apply ring_of_nobody ((hregular.order.accept x).startWorker (hregular.locked.accept x))
    intro id w hw
    have hworkers : (l.accept x).startWorker.workers = l.workers.insert l.started {} := workers_wake ..
    rw [hworkers, Table.get?_insert] at hw
    by_cases hid : id = l.started
    · rw [if_pos hid] at hw
      cases hw
      exact Worker.not_dozes rfl
    · rw [if_neg hid] at hw
      exact not_dozes_of_idleCount hregular.counted hidle hw

end Watched

/-- Shutting the link down calls all that listen. -/
theorem listeners_shutDown (l : Link σ) : l.shutDown.listeners = [] := by
  exact foldl_keeps (fun id _ l => listeners_signal l id .called) _

/-- **A link that is shut down lets nobody doze.** -/
theorem Watched.shutDown (h : l.InOrder) : l.shutDown.Watched := by
  apply of_nobody
  intro id w hw hdozes
  have hlistens := (h.shutDown.placed nofun hw).listens.mpr hdozes.1
  rw [listeners_shutDown] at hlistens
  cases hlistens

theorem Step.watched {log : List Outbound} (step : Step env l log l') (hregular : l.Regular) (h : l.Watched) :
    l'.Watched := by
  cases step with
  | work => exact h.work hregular
  | pass ms => exact h.pass ms
  | release holder =>
    exact h.of_stirs (.release hregular.locked) (Nat.le_of_eq (congrArg (·.queue.length) (roster_release l)))
  | request | control | sessions | tell => exact h.of_stirs (.of_eq rfl rfl rfl rfl) (Nat.le_refl _)
  | @submit _ x accepted =>
    have hwatched := h.bringIn env hregular x true
    rwa [(bringIn_of_submit env accepted).2] at hwatched
  | shutDown => exact .shutDown hregular.order

/-- **Whatever happens, nobody dozes over a message that nobody looks after.** -/
theorem Watched.event (event : Event env l l') (hregular : l.Regular) (h : l.Watched) : l'.Watched := by
  rcases event.cases with rfl | ⟨log, step⟩ | ⟨ready, perm, rfl⟩ | ⟨x, -, hidle, rfl⟩
  · exact h
  · exact step.watched hregular h
  · exact ⟨h.covered, fun hw hdozes hin => h.timely hw hdozes (perm.mem_iff.mp hin), h.closed⟩
  · -- a worker would have been started if one was idle, so that nobody dozes
    exact .of_nobody fun hw => not_dozes_of_idleCount hregular.counted hidle hw

theorem Becomes.watched (becomes : Becomes env l l') (hregular : l.Regular) (h : l.Watched) : l'.Watched :=
  (becomes.keeps (fun hregular h event => h.event event hregular) hregular h).2

end Link

/-- A fresh link has nobody who could doze. -/
theorem Endpoint.watched_of_open? {carrier : σ} {e : Endpoint σ} (h : Endpoint.open? env carrier = .ok e) :
    e.link.Watched := by
  obtain ⟨-, rfl⟩ := Endpoint.eq_of_open? h
  apply Link.Watched.of_nobody
  intro id w hw
  cases hw

end HeadLink
