import HeadLink.Proofs.Progress
import HeadLink.Proofs.Vigil

/-!
# The crew of a link

A link counts its workers, and those among them that are idle. It starts a worker when a message is submitted
while none is idle and there is room for one more; and unless it is shut down, a worker ends only when it has been
idle for the whole of its time, nothing waits, and enough others remain. Whatever else happens, workers stay, and
only the worker whose turn it is comes to another stage.

While all workers wait, those that are idle listen to the bell. Then no message waits, or a ring has gone to a
worker that is busy and has not noticed it. That worker passes the ring on when it is through with its message;
until then an idle worker may go on waiting, and at most one message waits for each such ring.

## Contents
- **Turns.** What a turn does to its worker (`Roster.Turn.staff`, `Roster.Turn.idle`).
- **Events.** `Link.Event.staff` says what the others do to the crew.
- **Leaving.** `Link.Event.gone`: who ends, and why.
- **Bookkeeping.** `crew_is_counted`.
- **Waiting.** `Worker.Waits`, `Link.unheard`, and `nobody_idles_while_messages_wait`.
-/

namespace HeadLink

variable {σ : Type} {env : Environment σ}

/-! ## Turns -/

namespace Roster

variable {r r' : Roster} {id : Nat}

/-- **A turn ends its worker, which was not busy, or keeps it.** -/
theorem Turn.staff (turn : Turn env id r r') :
    r'.stages.get? id = none ∧ r'.workerCount = r.workerCount - 1
        ∧ (r.stages.get? id = some .seeking ∨ ∃ deadline, r.stages.get? id = some (.idle deadline))
        ∧ (r.isShutDown = true ∨ r.queue = [] ∧ env.settings.minWorkers < r.workerCount)
      ∨ (∃ stage, r'.stages.get? id = some stage) ∧ r'.workerCount = r.workerCount := by
  cases turn with
  | leave hstage hwhy => exact Or.inl ⟨by simp, rfl, Or.inl hstage, hwhy⟩
  | expire hstage hempty hspare => exact Or.inl ⟨by simp, rfl, Or.inr ⟨_, hstage⟩, Or.inr ⟨hempty, hspare⟩⟩
  | refuse hstage => exact Or.inr ⟨⟨_, hstage⟩, rfl⟩
  | rest | rise | takeOn | grant | call | hand | goOn | finish => exact Or.inr ⟨⟨_, by simp; rfl⟩, rfl⟩

/-- **A worker is idle after its turn if it looked for a message and found none.** -/
theorem Turn.idle (turn : Turn env id r r') {deadline : Nat}
    (hidle : r'.stages.get? id = some (.idle deadline)) :
    r.stages.get? id = some .seeking ∧ r.queue = [] ∧ deadline = r.now + env.settings.idleTimeout
      ∧ r'.idleCount = r.idleCount + 1 := by
  cases turn with
  | rest hstage hopen hempty =>
    have hdeadline : r.now + env.settings.idleTimeout = deadline := by simpa using hidle
    exact ⟨hstage, hempty, hdeadline.symm, rfl⟩
  | refuse hstage => cases hstage.symm.trans hidle
  | takeOn =>
    simp only [get?_place, if_true, Option.some.injEq] at hidle
    split at hidle <;> cases hidle
  | leave | expire | rise | grant | call | hand | goOn | finish => simp at hidle

/-- With the turn of a worker that is idle, one less is counted as idle. -/
theorem Turn.idleCount (turn : Turn env id r r') {deadline : Nat}
    (hidle : r.stages.get? id = some (.idle deadline)) : r'.idleCount = r.idleCount - 1 := by
  cases turn with
  | expire | rise => rfl
  | finish hstage hgrip =>
    cases hidle.symm.trans hstage
    exact absurd rfl hgrip
  | leave hstage | rest hstage | refuse hstage | takeOn hstage | grant hstage | call hstage | hand hstage
  | goOn hstage => cases hidle.symm.trans hstage

end Roster

/-! ## Events -/

namespace Link

variable {l l' : Link σ} {id : Nat} {w : Worker}

/-- **An event is a step of a worker, or leaves the crew alone, or adds a worker that looks for a message**, because
    none is idle and there is room. -/
theorem Event.staff (event : Event env l l') :
    l' = l.work env
      ∨ l'.roster.stages = l.roster.stages ∧ l'.workerCount = l.workerCount ∧ l'.idleCount = l.idleCount
      ∨ (l.isShutDown = false ∧ l.idleCount = 0 ∧ l.workerCount < env.settings.maxWorkers)
        ∧ l'.roster.stages = l.roster.stages.insert l.started .seeking
        ∧ l'.workerCount = l.workerCount + 1 ∧ l'.idleCount = l.idleCount := by
  have hframe {l'' : Link σ} {r : Roster} (hroster : l''.roster = r) (hcrew : r.stages = l.roster.stages
      ∧ r.workerCount = l.workerCount ∧ r.idleCount = l.idleCount) : l''.roster.stages = l.roster.stages
        ∧ l''.workerCount = l.workerCount ∧ l''.idleCount = l.idleCount := by
    subst hroster
    exact hcrew
  rcases event.cases with rfl | ⟨log, step⟩ | ⟨ready, -, rfl⟩ | ⟨x, -, -, rfl⟩
  · exact Or.inr (Or.inl ⟨rfl, rfl, rfl⟩)
  · cases step with
    | work => exact Or.inl rfl
    | pass ms => exact Or.inr (Or.inl (hframe (roster_pass l ms) ⟨rfl, rfl, rfl⟩))
    | release holder => exact Or.inr (Or.inl (hframe (roster_release l) ⟨rfl, rfl, rfl⟩))
    | shutDown => exact Or.inr (Or.inl (hframe (roster_shutDown l) ⟨rfl, rfl, rfl⟩))
    | request | control | sessions | tell => exact Or.inr (Or.inl ⟨rfl, rfl, rfl⟩)
    | @submit _ x accepted =>
      obtain ⟨hopen, rfl⟩ := eq_of_submit accepted
      split
      · rename_i hstart
        refine Or.inr (Or.inr ⟨⟨hopen, hstart⟩, ?_⟩)
        have hroster := (roster_ring (l.accept x).startWorker).trans (roster_startWorker (l.accept x))
        exact ⟨congrArg Roster.stages hroster, congrArg Roster.workerCount hroster,
          congrArg Roster.idleCount hroster⟩
      · exact Or.inr (Or.inl (hframe (roster_ring (l.accept x)) ⟨rfl, rfl, rfl⟩))
  · exact Or.inr (Or.inl ⟨rfl, rfl, rfl⟩)
  · exact Or.inr (Or.inl ⟨rfl, rfl, rfl⟩)

/-- **There are never more workers than there may be.** -/
theorem Event.workerCount_le (event : Event env l l') (hregular : l.Regular)
    (h : l.workerCount ≤ env.settings.maxWorkers) : l'.workerCount ≤ env.settings.maxWorkers := by
  rcases event.staff with rfl | ⟨-, hcount, -⟩ | ⟨⟨-, -, hroom⟩, -, hcount, -⟩
  · rcases work_roster env hregular.locked with hsame | ⟨id, turn⟩
    · exact (congrArg Roster.workerCount hsame).trans_le h
    · have hle : (l.work env).workerCount ≤ l.workerCount := by
        rcases turn.staff with ⟨-, hfewer, -⟩ | ⟨-, hsame⟩
        · exact hfewer.trans_le (Nat.sub_le _ _)
        · exact hsame.le
      exact hle.trans h
  · exact hcount.trans_le h
  · exact hcount.trans_le hroom

/-! ## Leaving -/

/-- An idle worker ends with its turn only if the bell has stayed silent. -/
theorem signal_of_resume {s : Signal} (hgone : (l.resume env id s).workers.get? id = none) : s = .listening := by
  unfold resume at hgone
  dsimp only at hgone
  split at hgone
  · rename_i hspare
    exact hspare.1
  · have hstays : (l.workers.insert id {}).get? id = none := hgone
    simp [Table.get?_insert] at hstays

/-- A worker that finds no message ends at once only if there is no time in which it might be idle. -/
theorem idleTimeout_of_seek (hopen : l.isShutDown = false) (hempty : l.queue = [])
    (hgone : (l.seek env id).workers.get? id = none) : env.settings.idleTimeout = 0 := by
  obtain ⟨keptRing, listeners, signal, hlisten⟩ := l.exists_listen id
  have hseek : l.seek env id = ({ l with keptRing, listeners } : Link σ).waitForBell env id signal := by
    unfold seek
    rw [hlisten]
    dsimp only
    rw [if_neg (by rw [hopen]; exact Bool.false_ne_true), hempty]
  rw [hseek] at hgone
  unfold waitForBell at hgone
  split at hgone
  · rename_i hspare
    exact hspare.2.1
  · have hstays : (l.workers.insert id
        { signal, stage := .idle (l.now + env.settings.idleTimeout) }).get? id = none := by
      dsimp only at hgone
      split at hgone <;> exact hgone
    simp [Table.get?_insert] at hstays

/-- **A worker ends only with its own turn.** -/
theorem Event.turn_of_gone (event : Event env l l') (hl : l.outbox.Locked) (hw : l.workers.get? id = some w)
    (hgone : l'.workers.get? id = none) :
    l' = l.work env ∧ l.ready.head? = some id ∧ Roster.Turn env id l.roster l'.roster := by
  have hnone : l'.roster.stages.get? id = none := by simp [stageOf, hgone]
  have hsome : l.roster.stages.get? id = some w.stage := (get?_stages_roster l id).trans (stageOf_eq hw)
  rcases event.staff with rfl | ⟨hstages, -⟩ | ⟨-, hstages, -⟩
  · rcases work_cases env hl with ⟨-, hsame⟩ | ⟨id', -, -, hsame⟩ | ⟨id', hturn, turn⟩
    · rw [hsame, hsome] at hnone
      cases hnone
    · rw [hsame, roster_suspend, hsome] at hnone
      cases hnone
    · by_cases hid : id = id'
      · subst hid
        exact ⟨rfl, hturn, turn⟩
      · rw [turn.get?_of_ne hid, hsome] at hnone
        cases hnone
  · rw [hstages, hsome] at hnone
    cases hnone
  · rw [hstages, Table.get?_insert, hsome] at hnone
    split at hnone <;> cases hnone

/-- **Who ends, and why**: one less is counted, and unless the link is shut down, the time of the worker is up,
    nothing waits, and enough others remain. -/
theorem Event.gone (event : Event env l l') (hregular : l.Regular) (hwatched : l.Watched)
    (hw : l.workers.get? id = some w) (hgone : l'.workers.get? id = none) :
    l'.workerCount + 1 = l.workerCount
      ∧ (l.isShutDown = false → l.queue = [] ∧ env.settings.minWorkers ≤ l'.workerCount
        ∧ (w.Dozes ∧ w.isDue l.now = true ∨ w.stage = .seeking ∧ env.settings.idleTimeout = 0)) := by
  obtain ⟨rfl, hturn, turn⟩ := event.turn_of_gone hregular.locked hw hgone
  have hstage : l.roster.stages.get? id = some w.stage := (get?_stages_roster l id).trans (stageOf_eq hw)
  have hnone : (l.work env).roster.stages.get? id = none := by simp [stageOf, hgone]
  rcases turn.staff with ⟨-, hcount, hwhere, hwhy⟩ | ⟨⟨stage, hstays⟩, -⟩
  · have hfewer : (l.work env).workerCount = l.workerCount - 1 := hcount
    have hsize : l.workerCount = l.roster.stages.size := hregular.counted.workers
    have hpos := Table.size_erase hstage
    refine ⟨by omega, ?_⟩
    intro hopen
    obtain ⟨hempty, hspare⟩ := hwhy.resolve_left fun hdown => by cases hopen.symm.trans hdown
    refine ⟨hempty, ?_, ?_⟩
    · have hmore : env.settings.minWorkers < l.workerCount := hspare
      omega
    · -- the end of a step tells how it went
      obtain ⟨rest, hready⟩ := List.head?_eq_some_iff.mp hturn
      rw [hstage] at hwhere
      unfold work at hgone
      rw [hready] at hgone
      dsimp only at hgone
      rw [hw] at hgone
      dsimp only at hgone
      rcases hwhere with hseeking | ⟨deadline, hidle⟩
      · have hseeks : w.stage = .seeking := Option.some.inj hseeking
        rw [hseeks] at hgone
        exact Or.inr ⟨hseeks, idleTimeout_of_seek hopen hempty hgone⟩
      · have hidles : w.stage = .idle deadline := Option.some.inj hidle
        rw [hidles] at hgone
        have hdozes : w.Dozes := ⟨signal_of_resume hgone, by rw [hidles]; rfl⟩
        exact Or.inl ⟨hdozes, hwatched.timely hw hdozes (List.mem_of_mem_head? hturn)⟩
  · cases hnone.symm.trans hstays

/-! ## Idle workers -/

/-- **A worker is idle from the moment at which it finds nothing to do**, and for a limited time. -/
theorem Event.idle (event : Event env l l') (hregular : l.Regular) {deadline : Nat}
    (hidle : l'.stageOf id = some (.idle deadline)) : l.stageOf id = some (.idle deadline)
      ∨ l.stageOf id = some .seeking ∧ l.queue = [] ∧ deadline = l.now + env.settings.idleTimeout
        ∧ l'.idleCount = l.idleCount + 1 := by
  rw [← get?_stages_roster] at hidle
  rw [← get?_stages_roster l]
  rcases event.staff with rfl | ⟨hstages, -⟩ | ⟨-, hstages, -⟩
  · rcases work_cases env hregular.locked with ⟨-, hsame⟩ | ⟨id', -, -, hsame⟩ | ⟨id', -, turn⟩
    · rw [hsame] at hidle
      exact Or.inl hidle
    · rw [hsame, roster_suspend] at hidle
      exact Or.inl hidle
    · by_cases hid : id = id'
      · subst hid
        exact Or.inr (turn.idle hidle)
      · rw [turn.get?_of_ne hid] at hidle
        exact Or.inl hidle
  · exact Or.inl (hstages ▸ hidle)
  · rw [hstages, Table.get?_insert] at hidle
    split at hidle
    · cases hidle
    · exact Or.inl hidle

/-- **A worker stays idle until it runs again.** -/
theorem Event.of_idle (event : Event env l l') (hregular : l.Regular) {deadline : Nat}
    (hidle : l.stageOf id = some (.idle deadline)) : l'.stageOf id = some (.idle deadline)
      ∨ l' = l.work env ∧ l.ready.head? = some id ∧ l'.idleCount + 1 = l.idleCount := by
  rw [← get?_stages_roster] at hidle ⊢
  rcases event.staff with rfl | ⟨hstages, -⟩ | ⟨-, hstages, -⟩
  · rcases work_cases env hregular.locked with ⟨-, hsame⟩ | ⟨id', -, -, hsame⟩ | ⟨id', hturn, turn⟩
    · rw [hsame]
      exact Or.inl hidle
    · rw [hsame, roster_suspend]
      exact Or.inl hidle
    · by_cases hid : id = id'
      · subst hid
        have hpos : 0 < l.idleCount := hregular.counted.idle_pos hidle
        have hfewer : (l.work env).idleCount = l.idleCount - 1 := turn.idleCount hidle
        exact Or.inr ⟨rfl, hturn, by omega⟩
      · rw [turn.get?_of_ne hid]
        exact Or.inl hidle
  · exact Or.inl (hstages ▸ hidle)
  · have hold : id ≠ l.started := by
      rintro rfl
      rw [get?_stages_roster] at hidle
      simp [stageOf, get?_started hregular.locked] at hidle
    rw [hstages, Table.get?_insert, if_neg hold]
    exact Or.inl hidle

end Link

/-! ## Bookkeeping -/

/-- How much a worker counts as idle. -/
def Worker.idleness (w : Worker) : Nat := w.stage.idleness

/-- **The crew is counted**, whatever happens to a link after it was opened. It has as many workers as it says, of
    which as many are idle as it says, and never more than it may have. A worker counts as idle from the moment at
    which it finds no message until it runs again. With each worker that ends, one less is counted; and unless the
    link is shut down, it ends because it was idle for the whole of its time, and nothing waits, and it leaves
    enough others behind. -/
theorem crew_is_counted {carrier : σ} {e : Endpoint σ} (hopen : Endpoint.open? env carrier = .ok e) :
    (∀ actions, Link.Becomes env e.link (e.run env actions).1.link)
      ∧ ∀ l, Link.Becomes env e.link l →
        l.workerCount = l.workers.size ∧ l.idleCount = l.workers.total Worker.idleness
          ∧ l.idleCount ≤ l.workerCount ∧ l.workerCount ≤ env.settings.maxWorkers
          ∧ ∀ l', Link.Event env l l' → ∀ id,
            (∀ deadline, l.stageOf id ≠ some (.idle deadline) → l'.stageOf id = some (.idle deadline) →
              l.stageOf id = some .seeking ∧ l.queue = [] ∧ deadline = l.now + env.settings.idleTimeout
                ∧ l'.idleCount = l.idleCount + 1)
            ∧ (∀ deadline, l.stageOf id = some (.idle deadline) → l'.stageOf id ≠ some (.idle deadline) →
              l' = l.work env ∧ l.ready.head? = some id ∧ l'.idleCount + 1 = l.idleCount)
            ∧ ∀ w, l.workers.get? id = some w → l'.workers.get? id = none →
              l'.workerCount + 1 = l.workerCount
              ∧ (l.isShutDown = false → l.queue = [] ∧ env.settings.minWorkers ≤ l'.workerCount
                ∧ (w.Dozes ∧ w.isDue l.now = true ∨ w.stage = .seeking ∧ env.settings.idleTimeout = 0)) := by
  have hregular := Endpoint.regular_of_open? hopen
  have hwatched := Endpoint.watched_of_open? hopen
  have hroom : e.link.workerCount ≤ env.settings.maxWorkers := by
    obtain ⟨-, rfl⟩ := Endpoint.eq_of_open? hopen
    exact Nat.zero_le _
  refine ⟨Endpoint.becomes_run hopen, ?_⟩
  intro l becomes
  obtain ⟨hl, hcount⟩ := becomes.keeps (fun hregular h event => event.workerCount_le hregular h) hregular hroom
  have hwatch := becomes.watched hregular hwatched
  have hsize := hl.workerCount_eq
  have hidle : l.idleCount = l.workers.total Worker.idleness :=
    hl.counted.idle.trans (Table.total_mapValues ..)
  have hfew : l.workers.total Worker.idleness ≤ l.workers.total fun _ => 1 := by
    apply Table.total_le_total
    intro id w _
    unfold Worker.idleness Stage.idleness
    split <;> simp
  refine ⟨hsize, hidle, ?_, hcount, ?_⟩
  · rwa [hsize, hidle, Table.size_eq_total]
  · intro l' event id
    refine ⟨?_, ?_, ?_⟩
    · intro deadline hnot hrests
      exact (event.idle hl hrests).resolve_left hnot
    · intro deadline hrests hnot
      exact (event.of_idle hl hrests).resolve_left hnot
    · intro w hw hgone
      exact event.gone hl hwatch hw hgone

/-- Two workers, one of which may end after 5 milliseconds without work, over a transport that takes no time. -/
def shifts : Environment Nat where
  settings := { mtu := 20, minWorkers := 1, maxWorkers := 2, idleTimeout := 5 }
  transport := .numbered 0 fun _ => none

/-- Two messages are sent at once, so that both workers are started. -/
def shift : List Action :=
  [.receive [0x20, 0x07, 0x02, 1, 0, 0, 0, 0, 0, 0, 0, 5],
    .send { version := 1, service := .rpc, session := 1, body := { data := [1, 2, 3, 4] } },
    .send { version := 1, service := .rpc, session := 1, body := { data := [5, 6, 7, 8] } },
    .sleep 1]

/-- Both workers become idle at the same moment, and their time is up at the same moment. Then one of them ends,
    and the other one is kept. -/
theorem crew_is_counted_shift :
    ∃ e, Endpoint.open? shifts 0 = .ok e ∧
      let l := (e.run shifts shift).1.link.pass 5
      l.workerCount = 2 ∧ l.idleCount = 2 ∧ l.workers.size = 2
        ∧ (l.work shifts).workers.get? 0 = none ∧ (l.work shifts).workerCount + 1 = l.workerCount
        ∧ l.queue = [] ∧ 1 ≤ (l.work shifts).workerCount
        ∧ (∃ w, l.workers.get? 0 = some w ∧ w.Dozes ∧ w.isDue l.now = true)
        ∧ ((l.work shifts).settle shifts).workerCount = 1 := by
  have hopen : Endpoint.open? shifts 0 = .ok _ := rfl
  obtain ⟨hruns, hcounted⟩ := crew_is_counted hopen
  have becomes := (hruns shift).tail (.step (.pass 5))
  obtain ⟨hsize, -, -, -, hevents⟩ := hcounted _ becomes
  obtain ⟨hcount, hwhy⟩ := (hevents _ (.step .work) 0).2.2 { signal := .listening, stage := .idle 5 }
    (by decide +kernel) (by decide +kernel)
  obtain ⟨hempty, hspare, hidle⟩ := hwhy (by decide +kernel)
  refine ⟨_, rfl, by decide +kernel, by decide +kernel, hsize ▸ by decide +kernel, by decide +kernel, hcount, hempty,
    hspare, ⟨_, by decide +kernel, hidle.resolve_right fun hseeks => by cases hseeks.1⟩, by decide +kernel⟩

/-! ## Waiting -/

/-- The worker waits: for the bell, which it has not heard; for the lock; or for the transport. -/
def Worker.Waits (w : Worker) : Prop :=
  match w.stage with
  | .idle _ => w.signal = .listening
  | .queueing _ | .calling .. => True
  | .seeking | .writing _ => False

/-- Who waits while it is idle has not heard the bell. -/
theorem Worker.Waits.dozes {w : Worker} (h : w.Waits) (hidle : w.stage.idleness = 1) : w.Dozes := by
  refine ⟨?_, hidle⟩
  unfold Worker.Waits at h
  cases hat : w.stage with
  | idle deadline =>
    rw [hat] at h
    exact h
  | seeking | queueing job | writing job | calling job ends failure =>
    rw [hat] at hidle
    cases hidle

/-- All workers of the link wait. -/
def Link.AllWait {σ : Type} (l : Link σ) : Prop := ∀ id w, l.workers.get? id = some w → w.Waits

/-- How many rings have gone to a worker that has not noticed yet. -/
def Link.unheard {σ : Type} (l : Link σ) : Nat :=
  l.workers.total fun w => if w.signal = .rung then 1 else 0

namespace Link

variable {l : Link σ}

/-- **When nobody is to run, all workers wait.** -/
theorem InOrder.allWait (h : l.InOrder) (hready : l.ready = []) : l.AllWait := by
  intro id w hw
  have hstuck : ¬ l.CanGo id w := by
    intro hcan
    have hin := (h.placed nofun hw).inLine hcan
    rw [hready] at hin
    cases hin
  unfold CanGo at hstuck
  unfold Worker.Waits
  cases hstage : w.stage with
  | seeking | writing job =>
    rw [hstage] at hstuck
    exact absurd trivial hstuck
  | idle deadline =>
    rw [hstage] at hstuck
    exact not_not.mp hstuck
  | queueing job | calling job ends failure => trivial

/-- If anybody is counted as idle, somebody is. -/
theorem Regular.exists_idle (h : l.Regular) (hpos : 0 < l.idleCount) :
    ∃ id w, l.workers.get? id = some w ∧ w.stage.idleness = 1 := by
  have hcount : l.idleCount = l.roster.stages.total Stage.idleness := h.counted.idle
  rw [hcount] at hpos
  obtain ⟨id, stage, hstage, hidle⟩ := Table.exists_of_total_pos hpos
  rw [get?_stages_roster] at hstage
  obtain ⟨w, hw, rfl⟩ := Option.map_eq_some_iff.mp hstage
  refine ⟨id, w, hw, ?_⟩
  cases hat : w.stage with
  | idle deadline => rfl
  | seeking | queueing job | writing job | calling job ends failure =>
    rw [hat] at hidle
    cases hidle

/-- **While all workers wait and one of them is idle, each message that waits has a ring** that a busy worker has not
    noticed. -/
theorem Watched.length_queue_le (h : l.Watched) (hopen : l.isShutDown = false) (hwaits : l.AllWait) {id : Nat}
    {w : Worker} (hw : l.workers.get? id = some w) (hidle : w.stage.idleness = 1) :
    l.queue.length ≤ l.unheard := by
  refine (h.covered hopen hw ((hwaits id w hw).dozes hidle)).trans ?_
  apply Table.total_le_total
  intro id' w' hw'
  have hbusy : w'.stage ≠ .seeking := by
    intro hseeking
    have hwait := hwaits id' w' hw'
    unfold Worker.Waits at hwait
    rwa [hseeking] at hwait
  unfold Worker.answers
  simp [hbusy]

end Link

/-- **No worker is idle while a message waits.** Whatever happens to a link after it was opened, as long as it is not
    shut down: while all workers wait and no ring is on its way, a message waits only if no worker is idle. A ring is
    on its way as well if it has gone to a busy worker that has not noticed it; the worker passes it on when it is
    through with its message. Then at most one message waits for each such ring, or no worker is idle. When nobody is
    to run, all workers wait. -/
theorem nobody_idles_while_messages_wait {carrier : σ} {e : Endpoint σ}
    (hopen : Endpoint.open? env carrier = .ok e) :
    (∀ actions, Link.Becomes env e.link (e.run env actions).1.link)
      ∧ ∀ l, Link.Becomes env e.link l → l.isShutDown = false →
        (l.ready = [] → l.AllWait)
        ∧ (l.AllWait →
          (l.unheard = 0 → l.queue ≠ [] →
            l.idleCount = 0 ∧ ∀ id stage, l.stageOf id = some stage → stage.idleness = 0)
          ∧ (0 < l.idleCount → l.queue.length ≤ l.unheard)) := by
  have hregular := Endpoint.regular_of_open? hopen
  refine ⟨Endpoint.becomes_run hopen, ?_⟩
  intro l becomes hstands
  have hl := becomes.regular hregular
  have hwatched := becomes.watched hregular (Endpoint.watched_of_open? hopen)
  refine ⟨hl.order.allWait, ?_⟩
  intro hwaits
  have hrings : 0 < l.idleCount → l.queue.length ≤ l.unheard := by
    intro hpos
    obtain ⟨id, w, hw, hidle⟩ := hl.exists_idle hpos
    exact hwatched.length_queue_le hstands hwaits hw hidle
  refine ⟨?_, hrings⟩
  intro hsilent hqueue
  have hnone : l.idleCount = 0 := by
    by_contra hsome
    have hle := hrings (Nat.pos_of_ne_zero hsome)
    rw [hsilent] at hle
    exact hqueue (List.eq_nil_of_length_eq_zero (Nat.le_zero.mp hle))
  exact ⟨hnone, fun id stage hstage => Link.idleness_eq_zero hl.counted hnone hstage⟩

/-- Two workers, over a transport that takes 3 milliseconds over each frame. -/
def slow : Environment Nat where
  settings := { mtu := 20, maxWorkers := 2 }
  transport := .numbered 3 fun _ => none

/-- Three messages are sent, the third one after the given time. -/
def threeSent (ms : Nat) : List Action :=
  [.receive [0x20, 0x07, 0x02, 1, 0, 0, 0, 0, 0, 0, 0, 5],
    .send { version := 1, service := .rpc, session := 1, body := { data := [1] } },
    .send { version := 1, service := .rpc, session := 1, body := { data := [2] } },
    .sleep ms,
    .send { version := 1, service := .rpc, session := 1, body := { data := [3] } },
    .sleep 1]

/-- If all three messages are sent at once, one worker waits for the transport and the other one for the lock, and
    the third message waits. If it is sent when the first one is through, the ring goes to the worker that is busy
    with the second one, and the other worker is idle. -/
theorem nobody_idles_while_messages_wait_slow :
    ∃ e, Endpoint.open? slow 0 = .ok e
      ∧ (let l := (e.run slow (threeSent 0)).1.link
        l.queue.length = 1 ∧ l.workerCount = 2 ∧ l.idleCount = 0
          ∧ ∀ id stage, l.stageOf id = some stage → stage.idleness = 0)
      ∧ let l := (e.run slow (threeSent 10)).1.link
        l.queue.length = 1 ∧ l.idleCount = 1 ∧ l.queue.length ≤ l.unheard := by
  have hopen : Endpoint.open? slow 0 = .ok _ := rfl
  obtain ⟨hruns, hidle⟩ := nobody_idles_while_messages_wait hopen
  obtain ⟨hwaits, hnobody⟩ := hidle _ (hruns (threeSent 0)) (by decide +kernel)
  obtain ⟨hnone, hall⟩ := (hnobody (hwaits (by decide +kernel))).1 (by decide +kernel) (by decide +kernel)
  obtain ⟨hwaits', hrings⟩ := hidle _ (hruns (threeSent 10)) (by decide +kernel)
  have hle := (hrings (hwaits' (by decide +kernel))).2 (by decide +kernel)
  exact ⟨_, rfl, ⟨by decide +kernel, by decide +kernel, hnone, hall⟩, by decide +kernel, by decide +kernel, hle⟩

end HeadLink
