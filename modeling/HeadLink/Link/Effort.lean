import HeadLink.Link.Worker

/-!
# Workers come to rest

While no time passes and nobody calls in, each step of a worker takes something away from what is
left to do: a frame is handed over, a waiting message is taken, or a worker comes nearer to waiting.
`Link.effort` measures that, so letting workers run until all of them wait comes to an end.

## Contents
- **The measure.** `Link.effort`.
- **Small moves.** What waking, ringing, releasing the lock and replacing a worker cost.
- **Steps.** `Link.effort_work_lt`: a step lowers the effort.
-/

namespace HeadLink.Link

variable {σ : Type}

/-! ## The measure -/

/-- How many steps a worker at a stage may cause before it waits for time to pass. -/
def stageEffort : Stage → Nat
  | .seeking => 1
  | .idle _ => 2
  | .queueing job => 7 + job.left.length
  | .writing job => 6 + job.left.length
  | .calling job _ _ => 7 + job.left.length

/-- How many steps a waiting message may cause. -/
def queueEffort (s : Submission) : Nat := 8 + s.payload.length

/-- A bound on the steps of the workers until all of them wait. -/
def effort (l : Link σ) : Nat :=
  2 * l.ready.length + (if l.keptRing then 2 else 0)
    + l.workers.total (fun w => stageEffort w.stage)
    + l.queue.foldr (fun s n => queueEffort s + n) 0

/-! ## Small moves -/

theorem effort_record (l : Link σ) (e : Entry) : (l.record e).effort = l.effort := rfl

theorem effort_report (l : Link σ) (s : Submission) (f : Option Fault) :
    (l.report s f).effort = l.effort := by
  cases f <;> rfl

theorem stageOf_report (l : Link σ) (s : Submission) (f : Option Fault) (id : Nat) :
    (l.report s f).stageOf id = l.stageOf id := by
  cases f <;> rfl

/-- Waking a worker costs at most one place in the line. -/
theorem effort_wake_le (l : Link σ) (id : Nat) : (l.wake id).effort ≤ l.effort + 2 := by
  unfold wake
  split
  · omega
  · simp only [effort, List.length_append, List.length_singleton]
    omega

theorem workers_wake (l : Link σ) (id : Nat) : (l.wake id).workers = l.workers := by
  unfold wake
  split <;> rfl

/-- Letting a worker wait takes its place off the line. -/
theorem effort_suspend {l : Link σ} (h : l.ready ≠ []) : l.suspend.effort + 2 = l.effort := by
  cases hr : l.ready with
  | nil => exact absurd hr h
  | cons id ids =>
    simp only [effort, suspend, hr, List.tail_cons, List.length_cons]
    omega

/-- Replacing a worker exchanges the effort of its stage. -/
theorem effort_setWorker {l : Link σ} {id : Nat} {stage : Stage} (h : l.stageOf id = some stage)
    (w : Worker) :
    (l.setWorker id w).effort + stageEffort stage = l.effort + stageEffort w.stage := by
  obtain ⟨old, ho, rfl⟩ := Option.map_eq_some_iff.mp h
  have ht := Table.total_insert ho w fun w => stageEffort w.stage
  unfold effort setWorker
  dsimp only
  omega

/-- A signal wakes at most one worker. -/
theorem effort_signal_le (l : Link σ) (id : Nat) (s : Signal) :
    (l.signal id s).effort ≤ l.effort + 2 := by
  unfold signal
  cases hw : l.workers.get? id with
  | none => exact Nat.le_add_right _ _
  | some w =>
    have hs : l.stageOf id = some w.stage := by rw [stageOf, hw, Option.map_some]
    have he := effort_setWorker hs { w with signal := s }
    dsimp only at he ⊢
    split
    · have := effort_wake_le (l.setWorker id { w with signal := s }) id
      omega
    · omega

/-- A signal changes no worker's stage. -/
theorem stageOf_signal (l : Link σ) (id : Nat) (s : Signal) (id' : Nat) :
    (l.signal id s).stageOf id' = l.stageOf id' := by
  unfold signal
  cases hw : l.workers.get? id with
  | none => rfl
  | some w =>
    have hset : (l.setWorker id { w with signal := s }).stageOf id' = l.stageOf id' := by
      simp only [stageOf, setWorker, Table.get?_insert]
      split
      · rename_i h
        rw [h, hw]
        rfl
      · rfl
    dsimp only
    split
    · rw [stageOf, workers_wake]
      exact hset
    · exact hset

/-- A ring wakes a worker or is kept, and costs the same either way. -/
theorem effort_ring_le (l : Link σ) : l.ring.effort ≤ l.effort + 2 := by
  unfold ring
  split
  · simp only [effort]
    split <;> omega
  · exact effort_signal_le _ _ _

theorem stageOf_ring (l : Link σ) (id : Nat) : l.ring.stageOf id = l.stageOf id := by
  unfold ring
  split
  · rfl
  · rw [stageOf_signal]
    rfl

/-- Hanging up costs nothing, unless a ring is passed on. -/
theorem effort_hangUp_le (l : Link σ) (id : Nat) (s : Signal) :
    (l.hangUp id s).effort ≤ l.effort + if s = .rung then 2 else 0 := by
  cases s
  case rung => exact effort_ring_le l
  all_goals exact Nat.le_refl _

theorem stageOf_hangUp (l : Link σ) (id : Nat) (s : Signal) (id' : Nat) :
    (l.hangUp id s).stageOf id' = l.stageOf id' := by
  cases s
  case rung => exact stageOf_ring l id'
  all_goals rfl

/-- Passing the lock on wakes at most one worker. -/
theorem effort_release_le (l : Link σ) : l.release.effort ≤ l.effort + 2 := by
  unfold release
  dsimp only
  split
  · exact effort_wake_le { l with lock := l.lock.release } _
  · exact Nat.le_add_right _ _

theorem stageOf_release (l : Link σ) (id : Nat) : l.release.stageOf id = l.stageOf id := by
  unfold release
  dsimp only
  split
  · rw [stageOf, workers_wake]
    rfl
  · rfl

/-- Turning to the next message costs at most what a ring costs. -/
theorem effort_moveOn_le {l : Link σ} {id : Nat} {stage : Stage} (h : l.stageOf id = some stage)
    (s : Signal) :
    (l.moveOn id s).effort + stageEffort stage ≤ l.effort + 1 + if s = .rung then 2 else 0 := by
  have hs : (l.hangUp id s).stageOf id = some stage := by rw [stageOf_hangUp, h]
  have he := effort_setWorker hs {}
  have hh := effort_hangUp_le l id s
  have hseek : stageEffort ({} : Worker).stage = 1 := rfl
  unfold moveOn
  omega

/-- Ending the writing of a message costs at most two wake-ups. -/
theorem effort_finish_le {l : Link σ} {id : Nat} {stage : Stage} (h : l.stageOf id = some stage)
    (signal : Signal) (s : Submission) (fault : Option Fault) :
    (l.finish id signal s fault).effort + stageEffort stage ≤ l.effort + 5 := by
  have hs : (l.release.report s fault).stageOf id = some stage := by
    rw [stageOf_report, stageOf_release, h]
  have hm := effort_moveOn_le hs signal
  rw [effort_report] at hm
  have hr := effort_release_le l
  have hc : (if signal = .rung then 2 else 0) ≤ 2 := by split <;> omega
  unfold finish
  omega

/-! ## Steps -/

variable (env : Environment σ)

/-- After a call the worker either goes on with the frames left or ends the message. -/
theorem effort_afterCall_le {l : Link σ} {id : Nat} {stage : Stage} (h : l.stageOf id = some stage)
    (signal : Signal) (job : Job) (failure : Option (List String)) :
    (l.afterCall id signal job failure).effort + stageEffort stage
      ≤ l.effort + 6 + job.left.length := by
  unfold afterCall
  split
  · have := effort_finish_le h signal job.submission (some (.transport (.failed ‹_›)))
    omega
  · have := effort_setWorker h { signal, stage := .writing job }
    simp only [stageEffort] at this ⊢
    omega

/-- A worker that ends takes its stage and its place along. -/
theorem effort_leave {l : Link σ} {id : Nat} {stage : Stage} (h : l.stageOf id = some stage)
    (hr : l.ready ≠ []) : (l.leave id).effort + stageEffort stage + 2 = l.effort := by
  obtain ⟨w, hw, rfl⟩ := Option.map_eq_some_iff.mp h
  have ht := Table.total_erase hw fun w => stageEffort w.stage
  have hs := effort_suspend (l := { l with
    workerCount := l.workerCount - 1
    workers := l.workers.erase id
    listeners := l.listeners.erase id }) hr
  unfold leave
  simp only [effort] at ht hs ⊢
  omega

/-- Waiting pays for itself by the place in the line, or by the ring that was used up. -/
theorem effort_waitForBell_lt {l : Link σ} {id : Nat} (h : l.stageOf id = some .seeking)
    (hr : l.ready ≠ []) {s : Signal} (hs : s = .listening ∨ s = .kept) :
    (l.waitForBell env id s).effort + (if s = .kept then 0 else 1) ≤
      l.effort + if s = .kept then 1 else 0 := by
  unfold waitForBell
  split
  · rename_i hz
    have := effort_leave h hr
    rw [hz.1]
    simp only [stageEffort] at this
    simp
    omega
  · have he := effort_setWorker (l := { l with idleCount := l.idleCount + 1 }) h
      { signal := s, stage := .idle (l.now + env.settings.idleTimeout) }
    have hb : ({ l with idleCount := l.idleCount + 1 } : Link σ).effort = l.effort := rfl
    simp only [stageEffort] at he
    rcases hs with rfl | rfl
    · have hp := effort_suspend (l := { l with idleCount := l.idleCount + 1 }.setWorker id
        { signal := .listening, stage := .idle (l.now + env.settings.idleTimeout) }) hr
      simp
      omega
    · simp
      omega

/-- Preparing a message changes nothing that counts. -/
theorem effort_prepare (l : Link σ) (s : Submission) :
    (l.prepare env s).1.effort = l.effort := by
  unfold prepare
  split <;> rfl

theorem stageOf_prepare (l : Link σ) (s : Submission) (id : Nat) :
    (l.prepare env s).1.stageOf id = l.stageOf id := by
  unfold prepare
  split <;> rfl

theorem ready_prepare (l : Link σ) (s : Submission) : (l.prepare env s).1.ready = l.ready := by
  unfold prepare
  split <;> rfl

/-- A prepared message has at most two frames more than bytes. -/
theorem length_left_prepare_le {l l' : Link σ} {s : Submission} {job : Job}
    (h : l.prepare env s = (l', .ok job)) : job.left.length ≤ s.payload.length + 2 := by
  unfold prepare at h
  split at h
  · cases h
  · dsimp only [nextMessage] at h
    rw [Prod.mk.injEq] at h
    replace h := h.2
    generalize hseg : Envelope.segments _ _ _ = result at h
    cases result with
    | error fault => cases h
    | ok frames =>
      cases h
      exact Envelope.length_segments_le hseg

/-- Taking a message on costs less than the message counted while it waited. -/
theorem effort_takeOn_le {l : Link σ} {id : Nat} (h : l.stageOf id = some .seeking)
    (hr : l.ready ≠ []) {signal : Signal} (hs : signal ≠ .rung) (s : Submission) :
    (l.takeOn env id signal s).effort ≤ l.effort + 7 + s.payload.length := by
  unfold takeOn
  cases hp : (l.record (.taken s)).prepare env s with
  | mk l' result =>
    have he := effort_prepare env (l.record (.taken s)) s
    have hst := (stageOf_prepare env (l.record (.taken s)) s id).trans h
    have hre := (ready_prepare env (l.record (.taken s)) s).symm ▸ hr
    rw [hp] at he hst hre
    rw [effort_record] at he
    dsimp only at he hst hre
    cases result with
    | error fault =>
      have hm := effort_moveOn_le (l := l'.report s (some fault)) (by rw [stageOf_report, hst])
        signal
      rw [effort_report] at hm
      simp only [hs, if_false, stageEffort] at hm
      dsimp only
      omega
    | ok job =>
      have hl := length_left_prepare_le env hp
      have hq : ({ l' with lock := l'.lock.request (.worker id) } : Link σ).stageOf id
          = some .seeking := hst
      dsimp only
      split
      · have hw := effort_setWorker hq { signal, stage := .writing job }
        have hb : ({ l' with lock := l'.lock.request (.worker id) } : Link σ).effort
            = l'.effort := rfl
        simp only [stageEffort] at hw
        omega
      · have hw := effort_setWorker hq { signal, stage := .queueing job }
        have hb : ({ l' with lock := l'.lock.request (.worker id) } : Link σ).effort
            = l'.effort := rfl
        have hsus := effort_suspend (l := { l' with lock := l'.lock.request (.worker id) }.setWorker
          id { signal, stage := .queueing job }) hre
        simp only [stageEffort] at hw
        omega

/-- Looking for a message lowers the effort. -/
theorem effort_seek_lt {l : Link σ} {id : Nat} (h : l.stageOf id = some .seeking)
    (hr : l.ready ≠ []) : (l.seek env id).effort < l.effort := by
  unfold seek
  have hlisten : ∃ l' s, l.listen id = (l', s) ∧ l'.stageOf id = some .seeking ∧ l'.ready = l.ready
      ∧ l'.queue = l.queue ∧ l'.effort + (if s = .kept then 2 else 0) = l.effort
      ∧ (s = .listening ∨ s = .kept) := by
    unfold listen
    cases hk : l.keptRing with
    | true =>
      refine ⟨_, _, rfl, h, rfl, rfl, ?_, Or.inr rfl⟩
      simp only [effort, hk]
      simp
      omega
    | false => exact ⟨_, _, rfl, h, rfl, rfl, by simp [effort, hk], Or.inl rfl⟩
  obtain ⟨l', s, hl, hst, hre, hq, he, hsig⟩ := hlisten
  rw [hl]
  have hre' : l'.ready ≠ [] := hre ▸ hr
  have hc : (if s = .kept then 2 else 0) ≤ 2 := by split <;> omega
  dsimp only
  split
  · have := effort_leave hst hre'
    simp only [stageEffort] at this
    omega
  · cases hqueue : l'.queue with
    | nil =>
      have := effort_waitForBell_lt env hst hre' hsig
      dsimp only
      rcases hsig with rfl | rfl <;> simp at this he <;> omega
    | cons t ts =>
      have ht : ({ l' with queue := ts } : Link σ).effort + 8 + t.payload.length = l'.effort := by
        simp only [effort, hqueue, List.foldr_cons, queueEffort]
        omega
      have hne : s ≠ .rung := by rcases hsig with rfl | rfl <;> decide
      have := effort_takeOn_le env (l := { l' with queue := ts }) hst hre' hne t
      dsimp only
      omega

/-- Going on after waiting for the bell lowers the effort. -/
theorem effort_resume_lt {l : Link σ} {id deadline : Nat} (h : l.stageOf id = some (.idle deadline))
    (hr : l.ready ≠ []) (s : Signal) : (l.resume env id s).effort < l.effort := by
  unfold resume
  dsimp only
  split
  · have := effort_leave (l := { l with idleCount := l.idleCount - 1 }) h hr
    have hb : ({ l with idleCount := l.idleCount - 1 } : Link σ).effort = l.effort := rfl
    simp only [stageEffort] at this
    omega
  · have := effort_setWorker (l := { l with
      idleCount := l.idleCount - 1, listeners := l.listeners.erase id }) h {}
    have hb : ({ l with idleCount := l.idleCount - 1, listeners := l.listeners.erase id }
      : Link σ).effort = l.effort := rfl
    simp only [stageEffort] at this
    omega

theorem effort_handOver (l : Link σ) (o : Origin) (f : Frame) :
    (l.handOver env o f).1.effort = l.effort := rfl

theorem stageOf_handOver (l : Link σ) (o : Origin) (f : Frame) (id : Nat) :
    (l.handOver env o f).1.stageOf id = l.stageOf id := rfl

theorem ready_handOver (l : Link σ) (o : Origin) (f : Frame) :
    (l.handOver env o f).1.ready = l.ready := rfl

/-- Handing over a frame lowers the effort. -/
theorem effort_writeNext_lt {l : Link σ} {id : Nat} {job : Job}
    (h : l.stageOf id = some (.writing job)) (hr : l.ready ≠ []) (signal : Signal) :
    (l.writeNext env id signal job).effort < l.effort := by
  unfold writeNext
  cases hleft : job.left with
  | nil =>
    have := effort_finish_le h signal job.submission none
    simp only [stageEffort, hleft, List.length_nil] at this
    dsimp only
    omega
  | cons f left =>
    have he := effort_handOver env l (.message job.submission.number job.message) f
    have hst := (stageOf_handOver env l (.message job.submission.number job.message) f id).trans h
    have hre := (ready_handOver env l (.message job.submission.number job.message) f).symm ▸ hr
    dsimp only
    generalize l.handOver env (.message job.submission.number job.message) f = handed at *
    cases handed with
    | mk l' call =>
      dsimp only at *
      split
      · have := effort_afterCall_le hst signal { job with left } call.failure
        simp only [stageEffort, hleft, List.length_cons] at this
        omega
      · have hw := effort_setWorker hst
          { signal, stage := .calling { job with left } (l'.now + call.delay) call.failure }
        have hs := effort_suspend (l := l'.setWorker id
          { signal, stage := .calling { job with left } (l'.now + call.delay) call.failure }) hre
        simp only [stageEffort, hleft, List.length_cons] at hw
        omega

/-- A step of a worker lowers the effort. -/
theorem effort_work_lt {l : Link σ} (h : l.ready ≠ []) : (l.work env).effort < l.effort := by
  unfold work
  cases hr : l.ready with
  | nil => exact absurd hr h
  | cons id ids =>
    dsimp only
    cases hw : l.workers.get? id with
    | none =>
      have := effort_suspend h
      dsimp only
      omega
    | some w =>
      have hs : l.stageOf id = some w.stage := by rw [stageOf, hw, Option.map_some]
      dsimp only
      cases hst : w.stage with
      | seeking =>
        rw [hst] at hs
        exact effort_seek_lt env hs h
      | idle deadline =>
        rw [hst] at hs
        exact effort_resume_lt env hs h w.signal
      | queueing job =>
        rw [hst] at hs
        have := effort_setWorker hs { w with stage := .writing job }
        simp only [stageEffort] at this
        dsimp only
        omega
      | writing job =>
        rw [hst] at hs
        exact effort_writeNext_lt env hs h w.signal
      | calling job ends failure =>
        rw [hst] at hs
        have := effort_afterCall_le hs w.signal job failure
        simp only [stageEffort] at this
        dsimp only
        omega

end HeadLink.Link
