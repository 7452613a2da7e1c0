import HeadLink.Proofs.Courses
import HeadLink.Proofs.Tables

/-!
# Where workers go

A roster shows which worker is at which stage, and what decides where it goes from there: the queue, the lock,
the clock, the counts, and whether the link is shut down. It does not show who hears the bell and who is to run
next.

`Roster.Turn` says once what the worker that runs can do. It goes from its stage to another one, or ends; no
other worker's stage changes (`Link.work_turn`).

## Contents
- **State.** `Roster` and `Link.roster`; what moves of a link leave it alone, and what the others do to it.
- **Turns.** `Roster.Turn`, `Link.work_turn`, `Link.work_roster`.
- **Counts.** `Roster.Counted`: the link knows how many workers it has and how many of them are idle. It is kept
  by `Link.Step.counted`.
-/

namespace HeadLink

variable {σ : Type} {env : Environment σ}

/-! ## State -/

/-- Which worker is at which stage, and what decides where it goes. -/
structure Roster where
  now : Nat
  isShutDown : Bool
  queue : List Submission
  workerCount : Nat
  idleCount : Nat
  stages : Table Nat Stage
  lock : WriteLock

/-- The roster of a link. -/
def Link.roster (l : Link σ) : Roster where
  now := l.now
  isShutDown := l.isShutDown
  queue := l.queue
  workerCount := l.workerCount
  idleCount := l.idleCount
  stages := l.workers.mapValues Worker.stage
  lock := l.lock

namespace Roster

/-- A worker comes to a stage. -/
def place (r : Roster) (id : Nat) (stage : Stage) : Roster :=
  { r with stages := r.stages.insert id stage }

/-- A worker ends. -/
def dismiss (r : Roster) (id : Nat) : Roster :=
  { r with workerCount := r.workerCount - 1, stages := r.stages.erase id }

/-- A worker that comes to the stage at which it is does nothing. -/
theorem place_eq_self {r : Roster} {id : Nat} {stage : Stage} (h : r.stages.get? id = some stage) :
    r.place id stage = r := by
  unfold place
  rw [Table.insert_eq_self h]

end Roster

namespace Link

variable {l : Link σ} {id : Nat} {stage : Stage}

@[simp] theorem get?_stages_roster (l : Link σ) (id : Nat) : l.roster.stages.get? id = l.stageOf id :=
  Table.get?_mapValues ..

/-! ### Moves that leave the roster alone -/

@[simp] theorem roster_record (l : Link σ) (e : Entry) : (l.record e).roster = l.roster := rfl

@[simp] theorem roster_report (l : Link σ) (s : Submission) (fault : Option Fault) :
    (l.report s fault).roster = l.roster := by
  cases fault <;> rfl

@[simp] theorem roster_wake (l : Link σ) (id : Nat) : (l.wake id).roster = l.roster := by
  unfold wake
  split <;> rfl

@[simp] theorem roster_suspend (l : Link σ) : l.suspend.roster = l.roster := rfl

@[simp] theorem roster_handOver (l : Link σ) (origin : Origin) (f : Frame) :
    (l.handOver env origin f).1.roster = l.roster := rfl

@[simp] theorem roster_setWorker (l : Link σ) (id : Nat) (w : Worker) :
    (l.setWorker id w).roster = l.roster.place id w.stage := by
  show ({ l.roster with stages := (l.workers.insert id w).mapValues Worker.stage } : Roster) = _
  rw [Table.mapValues_insert]
  rfl

@[simp] theorem roster_signal (l : Link σ) (id : Nat) (s : Signal) :
    (l.signal id s).roster = l.roster := by
  unfold signal
  split
  · rfl
  · rename_i w hw
    have hsame : l.roster.place id w.stage = l.roster :=
      Roster.place_eq_self (by simp [stageOf, hw])
    dsimp only
    split <;> simp [hsame]

@[simp] theorem roster_ring (l : Link σ) : l.ring.roster = l.roster := by
  unfold ring
  split
  · rfl
  · rw [roster_signal]
    rfl

@[simp] theorem roster_hangUp (l : Link σ) (id : Nat) (s : Signal) : (l.hangUp id s).roster = l.roster := by
  cases s with
  | rung => exact roster_ring l
  | off | kept | listening | called => rfl

@[simp] theorem roster_ringAll (l : Link σ) : l.ringAll.roster = l.roster := by
  unfold ringAll
  rw [foldl_keeps fun id _ l => roster_signal l id .called]
  rfl

@[simp] theorem roster_wakeDue (l : Link σ) : l.wakeDue.roster = l.roster := by
  refine foldl_keeps ?_ l
  intro e _ l
  split
  · exact roster_wake l e.1
  · rfl

/-! ### Moves that change it -/

@[simp] theorem roster_release (l : Link σ) :
    l.release.roster = { l.roster with lock := l.lock.release } := by
  unfold release
  dsimp only
  split
  · rw [roster_wake]
    rfl
  · rfl

theorem roster_leave (l : Link σ) (id : Nat) : (l.leave id).roster = l.roster.dismiss id := by
  show ({ l.roster with
    workerCount := l.workerCount - 1
    stages := (l.workers.erase id).mapValues Worker.stage } : Roster) = _
  rw [Table.mapValues_erase]
  rfl

@[simp] theorem roster_moveOn (l : Link σ) (id : Nat) (s : Signal) :
    (l.moveOn id s).roster = l.roster.place id .seeking := by
  simp [moveOn]

@[simp] theorem roster_finish (l : Link σ) (id : Nat) (signal : Signal) (s : Submission)
    (fault : Option Fault) : (l.finish id signal s fault).roster
      = Roster.place { l.roster with lock := l.lock.release } id .seeking := by
  simp [finish]

@[simp] theorem roster_pass (l : Link σ) (ms : Nat) :
    (l.pass ms).roster = { l.roster with now := l.now + ms } :=
  roster_wakeDue _

@[simp] theorem roster_shutDown (l : Link σ) :
    l.shutDown.roster = { l.roster with isShutDown := true, queue := [] } := by
  unfold shutDown
  rw [roster_ringAll]
  show { (l.queue.foldl (fun l s => l.record (.dropped s)) l).roster with
    isShutDown := true, queue := [] } = _
  rw [foldl_keeps fun s _ l => roster_record l (.dropped s)]

end Link

/-! ## Turns -/

/-- **What the worker that runs can do.** -/
inductive Roster.Turn (env : Environment σ) (id : Nat) : Roster → Roster → Prop
  /-- It looks for a message and ends, because the link is shut down, or because there is none and the worker
      can be spared. -/
  | leave {r : Roster} (hstage : r.stages.get? id = some .seeking)
      (hwhy : r.isShutDown = true ∨ r.queue = [] ∧ env.settings.minWorkers < r.workerCount) :
      Turn env id r (r.dismiss id)
  /-- It looks for a message, finds none, and is idle. -/
  | rest {r : Roster} (hstage : r.stages.get? id = some .seeking) (hopen : r.isShutDown = false)
      (hempty : r.queue = []) :
      Turn env id r
        (place { r with idleCount := r.idleCount + 1 } id (.idle (r.now + env.settings.idleTimeout)))
  /-- It was idle and ends. -/
  | expire {r : Roster} {deadline : Nat} (hstage : r.stages.get? id = some (.idle deadline))
      (hempty : r.queue = []) (hspare : env.settings.minWorkers < r.workerCount) :
      Turn env id r (dismiss { r with idleCount := r.idleCount - 1 } id)
  /-- It was idle and looks for a message. -/
  | rise {r : Roster} {deadline : Nat} (hstage : r.stages.get? id = some (.idle deadline)) :
      Turn env id r (place { r with idleCount := r.idleCount - 1 } id .seeking)
  /-- It takes a message that cannot be sent. -/
  | refuse {r : Roster} {s : Submission} {queue : List Submission}
      (hstage : r.stages.get? id = some .seeking) (hopen : r.isShutDown = false)
      (hqueue : r.queue = s :: queue) : Turn env id r { r with queue }
  /-- It takes a message on and asks for the lock. -/
  | takeOn {r : Roster} {s : Submission} {queue : List Submission} {job : Job}
      (hstage : r.stages.get? id = some .seeking) (hopen : r.isShutDown = false)
      (hqueue : r.queue = s :: queue) (hlength : job.left.length ≤ s.payload.length + 2) :
      Turn env id r (place { r with queue, lock := r.lock.request (.worker id) } id
        (if r.lock.holder = none then .writing job else .queueing job))
  /-- It finds that the lock is its own. -/
  | grant {r : Roster} {job : Job} (hstage : r.stages.get? id = some (.queueing job)) :
      Turn env id r (r.place id (.writing job))
  /-- It hands over a frame, and the call goes on. -/
  | call {r : Roster} {job : Job} {f : Frame} {left : List Frame} {ends : Nat}
      {failure : Option (List String)} (hstage : r.stages.get? id = some (.writing job))
      (hleft : job.left = f :: left) (hends : r.now < ends) :
      Turn env id r (r.place id (.calling { job with left } ends failure))
  /-- It hands over a frame, and the call is over at once. -/
  | hand {r : Roster} {job : Job} {f : Frame} {left : List Frame}
      (hstage : r.stages.get? id = some (.writing job)) (hleft : job.left = f :: left) :
      Turn env id r (r.place id (.writing { job with left }))
  /-- The call is over, and it goes on with the next frame. -/
  | goOn {r : Roster} {job : Job} {ends : Nat} {failure : Option (List String)}
      (hstage : r.stages.get? id = some (.calling job ends failure)) :
      Turn env id r (r.place id (.writing job))
  /-- It is through with its message and gives the lock back. -/
  | finish {r : Roster} {stage : Stage} (hstage : r.stages.get? id = some stage)
      (hgrip : stage.grip ≠ none) (hholder : r.lock.holder = some (.worker id)) :
      Turn env id r (place { r with lock := r.lock.release } id .seeking)

namespace Link

variable {l : Link σ} {id : Nat}

theorem stageOf_eq {w : Worker} (h : l.workers.get? id = some w) : l.stageOf id = some w.stage :=
  congrArg (Option.map Worker.stage) h

/-- A worker that runs with a message in its hands has the lock. -/
theorem holder_of_turn {stage : Stage} (hl : l.outbox.Locked) (hturn : l.ready.head? = some id)
    (hstage : l.stageOf id = some stage) (hgrip : stage.grip ≠ none) :
    l.lock.holder = some (.worker id) := by
  obtain ⟨g, hg⟩ := Option.ne_none_iff_exists'.mp hgrip
  exact hl.turn (List.mem_of_mem_head? hturn) ((grip_outbox hstage).trans hg)

theorem waitForBell_turn (hstage : l.stageOf id = some .seeking) (hopen : l.isShutDown = false)
    (hempty : l.queue = []) (signal : Signal) :
    Roster.Turn env id l.roster (l.waitForBell env id signal).roster := by
  have hseeking : l.roster.stages.get? id = some .seeking := by simpa using hstage
  unfold waitForBell
  split
  · rename_i hspare
    rw [roster_leave]
    exact .leave hseeking (Or.inr ⟨hempty, hspare.2.2⟩)
  · have hrest : Roster.Turn env id l.roster _ := .rest hseeking hopen hempty
    dsimp only
    split
    · rw [roster_suspend, roster_setWorker]
      exact hrest
    · rw [roster_setWorker]
      exact hrest

theorem resume_turn {deadline : Nat} (hstage : l.stageOf id = some (.idle deadline)) (signal : Signal) :
    Roster.Turn env id l.roster (l.resume env id signal).roster := by
  have hidle : l.roster.stages.get? id = some (.idle deadline) := by simpa using hstage
  unfold resume
  dsimp only
  split
  · rename_i hspare
    rw [roster_leave]
    exact .expire hidle hspare.2.1 hspare.2.2
  · rw [roster_setWorker]
    exact .rise hidle

/-- Taking a message on. What the listening that went before has changed makes no difference. -/
theorem takeOn_turn (hstage : l.stageOf id = some .seeking) (hopen : l.isShutDown = false)
    {s : Submission} {queue : List Submission} (hqueue : l.queue = s :: queue) (signal : Signal) :
    Roster.Turn env id l.roster (({ l with queue } : Link σ).takeOn env id signal s).roster := by
  have hseeking : l.roster.stages.get? id = some .seeking := by simpa using hstage
  have hprepare : (({ l with queue } : Link σ).record (.taken s)).prepare env s = _ := prepare_eq _ s
  have hlength : ∀ job, (({ l with queue } : Link σ).record (.taken s)).outbox.prepared env s = .ok job →
      job.left.length ≤ s.payload.length + 2 := by
    intro job hjob
    rw [hjob] at hprepare
    exact length_left_prepare_le env hprepare
  unfold takeOn
  rw [hprepare]
  cases hprepared : (({ l with queue } : Link σ).record (.taken s)).outbox.prepared env s with
  | error fault =>
    have hrefuse : Roster.Turn env id l.roster { l.roster with queue } := .refuse hseeking hopen hqueue
    have hsame : Roster.place { l.roster with queue } id .seeking = { l.roster with queue } :=
      Roster.place_eq_self hseeking
    rw [← hsame] at hrefuse
    rw [roster_moveOn, roster_report]
    exact hrefuse
  | ok job =>
    have htake : Roster.Turn env id l.roster _ := .takeOn hseeking hopen hqueue (hlength job hprepared)
    dsimp only
    split
    · rename_i hfree
      rw [if_pos (show l.roster.lock.holder = none from hfree)] at htake
      rw [roster_setWorker]
      exact htake
    · rename_i hbusy
      rw [if_neg (show ¬ l.roster.lock.holder = none from hbusy)] at htake
      rw [roster_suspend, roster_setWorker]
      exact htake

theorem seek_turn (hstage : l.stageOf id = some .seeking) :
    Roster.Turn env id l.roster (l.seek env id).roster := by
  obtain ⟨keptRing, listeners, signal, hlisten⟩ := l.exists_listen id
  unfold seek
  rw [hlisten]
  dsimp only
  by_cases hdown : l.isShutDown = true
  · rw [if_pos hdown, roster_leave]
    exact .leave ((get?_stages_roster l id).trans hstage) (Or.inl hdown)
  · have hopen : l.isShutDown = false := Bool.eq_false_of_not_eq_true hdown
    rw [if_neg hdown]
    split
    · rename_i hempty
      exact waitForBell_turn (l := { l with keptRing, listeners }) hstage hopen hempty signal
    · rename_i s queue hqueue
      exact takeOn_turn (l := { l with keptRing, listeners }) hstage hopen hqueue signal

/-- After a call the worker goes on, or it is through with its message. -/
theorem afterCall_roster (l : Link σ) (id : Nat) (signal : Signal) (job : Job)
    (failure : Option (List String)) : (l.afterCall id signal job failure).roster = match failure with
      | some _ => Roster.place { l.roster with lock := l.lock.release } id .seeking
      | none => l.roster.place id (.writing job) := by
  unfold afterCall
  cases failure <;> simp

theorem writeNext_turn {job : Job} (hl : l.outbox.Locked) (hturn : l.ready.head? = some id)
    (hstage : l.stageOf id = some (.writing job)) (signal : Signal) :
    Roster.Turn env id l.roster (l.writeNext env id signal job).roster := by
  have hwriting : l.roster.stages.get? id = some (.writing job) := by simpa using hstage
  have hholder : l.roster.lock.holder = some (.worker id) := holder_of_turn hl hturn hstage (Option.some_ne_none _)
  have hfinish : Roster.Turn env id l.roster _ := .finish hwriting (Option.some_ne_none _) hholder
  unfold writeNext
  cases hleft : job.left with
  | nil =>
    rw [roster_finish]
    exact hfinish
  | cons f left =>
    dsimp only
    split
    · rw [afterCall_roster]
      cases (l.handOver env (.message job.submission.number job.message) f).2.failure with
      | none => exact .hand hwriting hleft
      | some causes => exact hfinish
    · rename_i hdelay
      rw [roster_suspend, roster_setWorker]
      exact .call hwriting hleft (Nat.lt_add_of_pos_right (Nat.pos_of_ne_zero hdelay))

/-- **The worker whose turn it is does one of these things**, and nobody else does anything. -/
theorem work_turn (hl : l.outbox.Locked) (hturn : l.ready.head? = some id) {w : Worker}
    (hw : l.workers.get? id = some w) : Roster.Turn env id l.roster (l.work env).roster := by
  obtain ⟨rest, hready⟩ := List.head?_eq_some_iff.mp hturn
  have hstage := stageOf_eq hw
  unfold work
  rw [hready]
  dsimp only
  rw [hw]
  dsimp only
  cases hat : w.stage with
  | seeking => exact seek_turn (hstage.trans (congrArg some hat))
  | idle deadline => exact resume_turn (hstage.trans (congrArg some hat)) w.signal
  | queueing job =>
    have hqueueing : l.roster.stages.get? id = some (.queueing job) := by simpa [hat] using hstage
    rw [roster_setWorker]
    exact .grant hqueueing
  | writing job => exact writeNext_turn hl hturn (hstage.trans (congrArg some hat)) w.signal
  | calling job ends failure =>
    have hcalling : l.roster.stages.get? id = some (.calling job ends failure) := by
      simpa [hat] using hstage
    have hgrip : (Stage.calling job ends failure).grip ≠ none := by
      cases failure <;> exact Option.some_ne_none _
    dsimp only
    rw [afterCall_roster]
    cases failure with
    | none => exact .goOn hcalling
    | some causes =>
      exact .finish hcalling hgrip (holder_of_turn hl hturn (hstage.trans (congrArg some hat)) hgrip)

/-- **A step of a worker is a turn**, unless nobody is to run, or the first in line is not a worker. -/
theorem work_cases (env : Environment σ) (hl : l.outbox.Locked) :
    l.ready = [] ∧ l.work env = l
      ∨ (∃ id, l.ready.head? = some id ∧ l.workers.get? id = none ∧ l.work env = l.suspend)
      ∨ ∃ id, l.ready.head? = some id ∧ Roster.Turn env id l.roster (l.work env).roster := by
  cases hready : l.ready with
  | nil =>
    refine Or.inl ⟨rfl, ?_⟩
    unfold work
    rw [hready]
  | cons id rest =>
    have hturn : l.ready.head? = some id := by simp [hready]
    cases hw : l.workers.get? id with
    | none =>
      refine Or.inr (Or.inl ⟨id, rfl, hw, ?_⟩)
      unfold work
      rw [hready]
      dsimp only
      rw [hw]
    | some w => exact Or.inr (Or.inr ⟨id, rfl, work_turn hl hturn hw⟩)

theorem work_roster (env : Environment σ) (hl : l.outbox.Locked) :
    (l.work env).roster = l.roster ∨ ∃ id, Roster.Turn env id l.roster (l.work env).roster := by
  rcases work_cases env hl with ⟨-, hsame⟩ | ⟨id, -, -, hsame⟩ | ⟨id, -, hturn⟩
  · exact Or.inl (congrArg roster hsame)
  · exact Or.inl ((congrArg roster hsame).trans (roster_suspend l))
  · exact Or.inr ⟨id, hturn⟩

end Link

/-! ## Counts -/

/-- How much a stage counts as idle. -/
def Stage.idleness : Stage → Nat
  | .idle _ => 1
  | _ => 0

namespace Roster

/-- **The link knows how many workers it has, and how many of them are idle.** -/
structure Counted (r : Roster) : Prop where
  workers : r.workerCount = r.stages.size
  idle : r.idleCount = r.stages.total Stage.idleness

variable {r r' : Roster} {id : Nat} {stage stage' : Stage}

/-- A worker may come to another stage if the count of those that are idle goes along. -/
theorem Counted.place (h : r.Counted) (hstage : r.stages.get? id = some stage)
    (hworkers : r'.workerCount = r.workerCount) (hstages : r'.stages = r.stages)
    (hidle : r'.idleCount + stage.idleness = r.idleCount + stage'.idleness) :
    (r'.place id stage').Counted := by
  have htotal := Table.total_insert hstage stage' Stage.idleness
  have hsize : (r.stages.insert id stage').size = r.stages.size := by
    rw [Table.size_insert, if_pos (Table.contains_iff.mpr ⟨stage, hstage⟩)]
  constructor
  · show r'.workerCount = (r'.stages.insert id stage').size
    rw [hworkers, hstages, hsize]
    exact h.workers
  · show r'.idleCount = (r'.stages.insert id stage').total Stage.idleness
    rw [hstages]
    have hbefore := h.idle
    omega

/-- A worker may end if the count of those that are idle goes along. -/
theorem Counted.dismiss (h : r.Counted) (hstage : r.stages.get? id = some stage)
    (hworkers : r'.workerCount = r.workerCount) (hstages : r'.stages = r.stages)
    (hidle : r'.idleCount + stage.idleness = r.idleCount) : (r'.dismiss id).Counted := by
  have htotal := Table.total_erase hstage Stage.idleness
  have hsize := Table.size_erase hstage
  constructor
  · show r'.workerCount - 1 = (r'.stages.erase id).size
    rw [hworkers, hstages, h.workers]
    omega
  · show r'.idleCount = (r'.stages.erase id).total Stage.idleness
    rw [hstages]
    have hbefore := h.idle
    omega

/-- An idle worker is counted as one. -/
theorem Counted.idle_pos (h : r.Counted) {deadline : Nat}
    (hstage : r.stages.get? id = some (.idle deadline)) : 0 < r.idleCount := by
  have htotal := Table.total_erase hstage Stage.idleness
  have hone : (Stage.idle deadline).idleness = 1 := rfl
  rw [h.idle]
  omega

/-- **Turns keep the counts.** -/
theorem Turn.counted (turn : Turn env id r r') (h : r.Counted) : r'.Counted := by
  cases turn with
  | leave hstage hwhy => exact h.dismiss hstage rfl rfl rfl
  | rest hstage hopen hempty => exact h.place hstage rfl rfl rfl
  | expire hstage hempty hspare =>
    exact h.dismiss hstage rfl rfl (Nat.sub_add_cancel (h.idle_pos hstage))
  | rise hstage => exact h.place hstage rfl rfl (Nat.sub_add_cancel (h.idle_pos hstage))
  | refuse hstage hopen hqueue => exact ⟨h.workers, h.idle⟩
  | takeOn hstage hopen hqueue hlength =>
    refine h.place hstage rfl rfl ?_
    split <;> rfl
  | grant hstage | call hstage hleft hends | hand hstage hleft | goOn hstage =>
    exact h.place hstage rfl rfl rfl
  | @finish stage hstage hgrip hholder =>
    refine h.place hstage rfl rfl ?_
    cases stage with
    | idle deadline => exact absurd rfl hgrip
    | seeking | queueing job | writing job | calling job ends failure => rfl

end Roster

namespace Link

variable {l l' : Link σ} {log : List Outbound}

/-- The number of the next worker is that of no worker yet. -/
theorem get?_started (hl : l.outbox.Locked) : l.workers.get? l.started = none := by
  by_contra hsome
  obtain ⟨w, hw⟩ := Option.ne_none_iff_exists'.mp hsome
  exact Nat.lt_irrefl _ (hl.known ⟨w, hw⟩)

theorem roster_startWorker (l : Link σ) : l.startWorker.roster = { l.roster with
    workerCount := l.workerCount + 1
    stages := l.roster.stages.insert l.started .seeking } := by
  unfold startWorker
  rw [roster_wake]
  show ({ l.roster with
    workerCount := l.workerCount + 1
    stages := (l.workers.insert l.started {}).mapValues Worker.stage } : Roster) = _
  rw [Table.mapValues_insert]
  rfl

/-- What becomes of a link that accepts a message. -/
theorem eq_of_submit {x : Outbound} (h : l.submit env x true = (l', .ok ())) :
    l.isShutDown = false
      ∧ l' = if l.idleCount = 0 ∧ l.workerCount < env.settings.maxWorkers
          then (l.accept x).startWorker.ring else (l.accept x).ring := by
  obtain ⟨hvet, hbring⟩ := bringIn_of_submit env h
  rw [bringIn_true] at hbring
  exact ⟨(vet_eq_ok_iff.mp hvet).2, (Prod.mk.inj hbring).1.symm⟩

/-- Whoever brings in a message counts the worker that is started for it. -/
theorem counted_bringIn (env : Environment σ) (hl : l.outbox.Locked) (h : l.roster.Counted) (x : Outbound)
    (hasExecutor : Bool) :
    (l.bringIn env x hasExecutor).1.roster.Counted := by
  have haccept : (l.accept x).roster.Counted := ⟨h.workers, h.idle⟩
  rcases bringIn_cases env l x hasExecutor with hring | ⟨-, hleft | hstart⟩
  · rw [hring, roster_ring]
    exact haccept
  · rw [hleft]
    exact haccept
  · have hfree : l.roster.stages.get? l.started = none := by simp [stageOf, get?_started hl]
    rw [hstart, roster_ring, roster_startWorker]
    constructor
    · show l.workerCount + 1 = (l.roster.stages.insert l.started .seeking).size
      have hsize := Table.total_insert_of_free hfree .seeking fun _ => 1
      rw [← Table.size_eq_total, ← Table.size_eq_total] at hsize
      rw [hsize]
      exact congrArg (· + 1) h.workers
    · show l.idleCount = (l.roster.stages.insert l.started .seeking).total Stage.idleness
      rw [Table.total_insert_of_free hfree]
      exact h.idle

/-- **Whatever happens to a link, it knows the number of its workers, and how many are idle.** -/
theorem Step.counted (step : Step env l log l') (hl : l.outbox.Locked) (h : l.roster.Counted) :
    l'.roster.Counted := by
  cases step with
  | work =>
    rcases work_roster env hl with hsame | ⟨id, hturn⟩
    · rwa [hsame]
    · exact hturn.counted h
  | pass ms =>
    rw [roster_pass]
    exact ⟨h.workers, h.idle⟩
  | release holder =>
    rw [roster_release]
    exact ⟨h.workers, h.idle⟩
  | shutDown =>
    rw [roster_shutDown]
    exact ⟨h.workers, h.idle⟩
  | request | sessions sessions => exact ⟨h.workers, h.idle⟩
  | control holder type | tell other => exact h
  | @submit _ x accepted =>
    have hcounted := counted_bringIn env hl h x true
    rwa [(bringIn_of_submit env accepted).2] at hcounted

end Link

end HeadLink
