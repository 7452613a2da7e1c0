import HeadLink.Proofs.Standing

/-!
# Nobody is forgotten

While a message waits, some worker is busy or is to run, and it will look for the message: who submits a message
starts a worker, or rings for one that is idle, or finds all of them busy. A ring may go to a busy worker while
another one is idle; then the message waits until the busy one is through with its own.

## Contents
- **Attendance.** `Link.Attended`, which every step keeps (`Link.Step.attended`).
- **The lock.** `WriteLock.Sound`: nobody waits for a lock that is free.
- **All of it.** `Link.Tidy`, which courses keep (`Link.Tidy.course`).
-/

namespace HeadLink

variable {σ : Type} {env : Environment σ}

/-! ## Attendance -/

/-- After a turn nothing waits, or the worker is busy. -/
theorem Roster.Turn.busy {r r' : Roster} {id : Nat} (turn : Turn env id r r') :
    r'.isShutDown = true ∨ r'.queue = []
      ∨ ∃ stage, r'.stages.get? id = some stage ∧ stage.idleness = 0 := by
  have hplace : ∀ (r : Roster) (stage : Stage), (r.place id stage).stages.get? id = some stage :=
    fun r stage => by simp [place, Table.get?_insert]
  cases turn with
  | leave hstage hwhy => exact hwhy.imp_right fun hempty => Or.inl hempty.1
  | rest hstage hopen hempty => exact Or.inr (Or.inl hempty)
  | expire hstage hempty hspare => exact Or.inr (Or.inl hempty)
  | refuse hstage hopen hqueue => exact Or.inr (Or.inr ⟨_, hstage, rfl⟩)
  | takeOn hstage hopen hqueue hlength =>
    refine Or.inr (Or.inr ⟨_, hplace _ _, ?_⟩)
    split <;> rfl
  | rise hstage | grant hstage | call hstage hleft hends | hand hstage hleft | goOn hstage
  | finish hstage hgrip hholder => exact Or.inr (Or.inr ⟨_, hplace _ _, rfl⟩)

namespace Link

variable {l l' : Link σ} {log : List Outbound}

/-- While a message waits, some worker is busy, or it is to run. -/
def Attended (l : Link σ) : Prop :=
  l.isShutDown = false → l.queue ≠ [] →
    ∃ id stage, l.stageOf id = some stage ∧ (stage.idleness = 0 ∨ id ∈ l.ready)

/-- Time has passed, the lock was passed on, and more workers are to run. -/
theorem Attended.of_roster (h : l.Attended) {now : Nat} {lock : WriteLock}
    (hroster : l'.roster = { l.roster with now, lock }) (hready : ∀ id ∈ l.ready, id ∈ l'.ready) :
    l'.Attended := by
  intro hopen hwaits
  have hdown : l'.isShutDown = l.isShutDown := congrArg Roster.isShutDown hroster
  have hqueue : l'.queue = l.queue := congrArg Roster.queue hroster
  obtain ⟨id, stage, hstage, hruns⟩ := h (hdown ▸ hopen) (hqueue ▸ hwaits)
  refine ⟨id, stage, ?_, hruns.imp_right (hready id)⟩
  rw [← get?_stages_roster, hroster]
  simpa using hstage

theorem Attended.work (hl : l.outbox.Locked) (h : l.Attended) : (l.work env).Attended := by
  rcases work_cases env hl with ⟨-, hsame⟩ | ⟨id, hturn, hnone, hsame⟩ | ⟨id, -, hturn⟩
  · rwa [hsame]
  · rw [hsame]
    intro hopen hwaits
    obtain ⟨id', stage, hstage, hruns⟩ := h hopen hwaits
    refine ⟨id', stage, hstage, hruns.imp_right ?_⟩
    intro hin
    obtain ⟨rest, hready⟩ := List.head?_eq_some_iff.mp hturn
    have hne : id' ≠ id := by
      rintro rfl
      simp [stageOf, hnone] at hstage
    show id' ∈ l.ready.tail
    rw [hready] at hin ⊢
    exact (List.mem_cons.mp hin).resolve_left hne
  · intro hopen hwaits
    rcases hturn.busy with hdown | hempty | ⟨stage, hstage, hbusy⟩
    · cases hopen.symm.trans hdown
    · exact absurd hempty hwaits
    · exact ⟨id, stage, (get?_stages_roster _ id).symm.trans hstage, Or.inl hbusy⟩

/-- Without idle workers every worker is busy. -/
theorem idleness_eq_zero (h : l.roster.Counted) (hidle : l.idleCount = 0) {id : Nat} {stage : Stage}
    (hstage : l.stageOf id = some stage) : stage.idleness = 0 := by
  have htotal := Table.total_erase ((get?_stages_roster l id).trans hstage) Stage.idleness
  have hcount : l.idleCount = l.roster.stages.total Stage.idleness := h.idle
  omega

/-- **Who submits a message finds a worker for it**: a new one, one that is busy, or one that the bell wakes. -/
theorem attended_submit (horder : l.InOrder) (hcounted : l.roster.Counted)
    (hworkers : 0 < env.settings.maxWorkers) {x : Outbound} (accepted : l.submit env x true = (l', .ok ())) :
    l'.Attended := by
  obtain ⟨-, rfl⟩ := eq_of_submit accepted
  intro _ _
  by_cases hstart : l.idleCount = 0 ∧ l.workerCount < env.settings.maxWorkers
  · rw [if_pos hstart]
    have hnew : (l.accept x).startWorker.stageOf l.started = some .seeking := by
      rw [← get?_stages_roster, roster_startWorker]
      simp [Table.get?_insert, accept]
    exact ⟨l.started, .seeking, (stageOf_ring _ _).trans hnew, Or.inl rfl⟩
  · rw [if_neg hstart]
    by_cases hidle : l.idleCount = 0
    · -- there are as many workers as there may be, and all are busy
      have hcount : l.workerCount = l.roster.stages.size := hcounted.workers
      have hsome : 0 < l.roster.stages.total fun _ => 1 := by
        rw [← Table.size_eq_total]
        omega
      obtain ⟨id, stage, hstage, -⟩ := Table.exists_of_total_pos hsome
      rw [get?_stages_roster] at hstage
      exact ⟨id, stage, (stageOf_ring _ _).trans hstage, Or.inl (idleness_eq_zero hcounted hidle hstage)⟩
    · cases hlisteners : l.listeners with
      | nil =>
        -- nobody listens, so that an idle worker has noticed a bell and is to run
        have hcount : l.idleCount = l.roster.stages.total Stage.idleness := hcounted.idle
        have hsome : 0 < l.roster.stages.total Stage.idleness := by omega
        obtain ⟨id, stage, hstage, hpos⟩ := Table.exists_of_total_pos hsome
        rw [get?_stages_roster] at hstage
        obtain ⟨w, hw, hat⟩ := Option.map_eq_some_iff.mp hstage
        refine ⟨id, stage, (stageOf_ring _ _).trans hstage, Or.inr (mem_ready_ring ?_)⟩
        have hplaced := horder.placed (Option.some_ne_none id) hw
        apply hplaced.inLine
        have hsilent : w.signal ≠ .listening := by
          intro hlistening
          have hin := hplaced.listens.mpr hlistening
          simp [hlisteners] at hin
        unfold CanGo
        rw [hat]
        cases stage with
        | idle deadline => exact hsilent
        | seeking | queueing job | writing job | calling job ends failure => cases hpos
      | cons id rest =>
        -- the bell rings for a worker that wakes up, unless it is busy
        have hin : id ∈ l.listeners := by simp [hlisteners]
        obtain ⟨w, hw⟩ := horder.known hin (Option.some_ne_none id)
        have hring : (l.accept x).ring = ({ l.accept x with listeners := rest } : Link σ).signal id .rung := by
          have hsame : (l.accept x).listeners = id :: rest := hlisteners
          unfold ring
          rw [hsame]
        refine ⟨id, w.stage, (stageOf_ring _ _).trans (stageOf_eq hw), ?_⟩
        cases hat : w.stage with
        | idle deadline =>
          right
          rw [hring]
          exact mem_ready_signal_of_idle (l := { l.accept x with listeners := rest }) hw hat
        | seeking | queueing job | writing job | calling job ends failure => exact Or.inl rfl

/-- **While a message waits, there is a worker that will look for it**, whatever happens to the link. -/
theorem Step.attended (step : Step env l log l') (hl : l.outbox.Locked) (horder : l.InOrder)
    (hcounted : l.roster.Counted) (hworkers : 0 < env.settings.maxWorkers) (h : l.Attended) :
    l'.Attended := by
  cases step with
  | work => exact h.work hl
  | pass ms =>
    refine h.of_roster (roster_pass l ms) ?_
    exact fun id hin => mem_ready_wakeDue (l := { l with now := l.now + ms }) (Or.inl hin)
  | release holder =>
    refine h.of_roster (roster_release l) ?_
    intro id hin
    have hready : l.release.ready = l.outbox.readyAfterRelease := congrArg Outbox.ready (outbox_release l)
    rw [hready]
    exact Outbox.mem_readyAfterRelease_of_mem hin
  | request | control holder type | sessions sessions | tell other => exact h
  | submit accepted => exact attended_submit horder hcounted hworkers accepted
  | shutDown =>
    intro hopen
    rw [show l.shutDown.isShutDown = true from congrArg Roster.isShutDown (roster_shutDown l)] at hopen
    cases hopen

end Link

/-! ## The lock -/

namespace WriteLock

/-- Nobody waits for a lock that is free. -/
def Sound (k : WriteLock) : Prop := k.holder = none → k.waiting = []

theorem Sound.request {k : WriteLock} (p : Party) : (k.request p).Sound := by
  intro hfree
  cases hholder : k.holder with
  | none => cases (holder_request_of_none hholder p).symm.trans hfree
  | some q => cases (holder_request_of_some hholder p).symm.trans hfree

theorem Sound.release {k : WriteLock} : k.release.Sound := by
  intro hfree
  have hnone : k.waiting = [] := List.head?_eq_none_iff.mp hfree
  show k.waiting.tail = []
  rw [hnone]
  rfl

end WriteLock

/-- A turn asks for the lock, passes it on, or leaves it alone. -/
theorem Roster.Turn.sound_lock {r r' : Roster} {id : Nat} (turn : Turn env id r r') (h : r.lock.Sound) :
    r'.lock.Sound := by
  cases turn with
  | takeOn hstage hopen hqueue hlength => exact .request _
  | finish hstage hgrip hholder => exact .release
  | leave | rest | expire | rise | refuse | grant | call | hand | goOn => exact h

namespace Link

variable {l l' : Link σ} {log : List Outbound}

/-- Who brings in a message does not ask for the lock. -/
theorem lock_bringIn (env : Environment σ) (l : Link σ) (x : Outbound) (hasExecutor : Bool) :
    (l.bringIn env x hasExecutor).1.lock = l.lock := by
  have hring : ∀ l : Link σ, l.ring.lock = l.lock := fun l => congrArg Roster.lock (roster_ring l)
  rcases bringIn_cases env l x hasExecutor with hrings | ⟨-, hleft | hstart⟩
  · rw [hrings]
    exact hring _
  · rw [hleft]
    rfl
  · rw [hstart]
    exact (hring _).trans (congrArg Roster.lock (roster_startWorker (l.accept x)))

theorem lock_of_submit {x : Outbound} (accepted : l.submit env x true = (l', .ok ())) : l'.lock = l.lock := by
  have hlock := lock_bringIn env l x true
  rwa [(bringIn_of_submit env accepted).2] at hlock

theorem Step.sound_lock (step : Step env l log l') (hl : l.outbox.Locked) (h : l.lock.Sound) :
    l'.lock.Sound := by
  cases step with
  | work =>
    rcases work_roster env hl with hsame | ⟨id, hturn⟩
    · rwa [show (l.work env).lock = l.lock from congrArg Roster.lock hsame]
    · exact hturn.sound_lock h
  | pass ms => rwa [show (l.pass ms).lock = l.lock from congrArg Roster.lock (roster_pass l ms)]
  | request => exact .request _
  | release holder =>
    rw [show l.release.lock = l.lock.release from congrArg Roster.lock (roster_release l)]
    exact .release
  | control | sessions | tell => exact h
  | submit accepted => rwa [lock_of_submit accepted]
  | shutDown => rwa [show l.shutDown.lock = l.lock from congrArg Roster.lock (roster_shutDown l)]

/-! ## All of it -/

/-- **Nobody is forgotten**: workers are in order and counted, who waits for the lock waits for somebody, and
    while a message waits, there is a worker that will look for it. -/
structure Tidy (l : Link σ) : Prop where
  locked : l.outbox.Locked
  order : l.InOrder
  counted : l.roster.Counted
  lock : l.lock.Sound
  attended : l.Attended

theorem Tidy.step (hworkers : 0 < env.settings.maxWorkers) (step : Step env l log l') (h : l.Tidy) :
    l'.Tidy where
  locked := step.locked h.locked
  order := step.inOrder h.locked h.order
  counted := step.counted h.locked h.counted
  lock := step.sound_lock h.locked h.lock
  attended := step.attended h.locked h.order h.counted hworkers h.attended

/-- **Courses forget nobody.** -/
theorem Tidy.course (hworkers : 0 < env.settings.maxWorkers) (course : Course env l log l')
    (h : l.Tidy) : l'.Tidy := by
  induction course with
  | refl => exact h
  | tail _ step ih => exact ih.step hworkers step

end Link

/-- A fresh link has no workers yet. -/
theorem Endpoint.tidy_of_open? {carrier : σ} {e : Endpoint σ} (h : Endpoint.open? env carrier = .ok e) :
    e.link.Tidy := by
  obtain ⟨hlocked, -⟩ := Endpoint.blank_of_open? h
  obtain ⟨-, rfl⟩ := Endpoint.eq_of_open? h
  refine ⟨hlocked, ⟨?_, nofun, List.nodup_nil⟩, ⟨rfl, rfl⟩, fun _ => rfl, fun _ hwaits => absurd rfl hwaits⟩
  intro id w _ hw
  cases hw

end HeadLink
