import HeadLink.Link.Clock

/-!
# Calls into a link

What the owner of a link does from outside: it writes frames under the write lock, has messages sent,
and shuts the link down. A call returns without letting workers run, unless it has to wait.

## Contents
- **Writing.** `Link.write` writes frames in order and stops at the first failure.
- **Sending.** `Link.submit` queues a message and sees to it that a worker looks for it: `Link.vet` is
  the check, and `Link.bringIn` all that comes after it.
- **Ending.** `Link.shutDown` drops what waits.
-/

namespace HeadLink.Link

variable {σ : Type} (env : Environment σ)

/-! ## Writing -/

/-- How long the current call of the transport takes yet. -/
def callRemaining (l : Link σ) : Nat :=
  match l.lock.holder with
  | some (.worker id) =>
    match l.stageOf id with
    | some (.calling _ ends _) => ends - l.now
    | _ => 0
  | _ => 0

/-- How many calls of the transport a worker makes yet for the message in its hands, counting the one
    in progress. -/
def callsLeft : Stage → Nat
  | .queueing job | .writing job => job.left.length
  | .calling job _ _ => job.left.length + 1
  | _ => 0

/-- How many calls of the transport the messages in the hands of workers take at most. -/
def callsAhead (l : Link σ) : Nat :=
  l.workers.total fun w => callsLeft w.stage

/-- Waits until the write lock is the caller's, over at most the given number of calls. -/
def awaitLock : Nat → Link σ → Link σ
  | 0, l => l.settle env
  | n + 1, l =>
    let l := l.settle env
    if l.lock.holder = some .caller then l else awaitLock n (l.sleep env l.callRemaining)

/-- Asks for the write lock, and waits for it if another party holds it. -/
def acquire (l : Link σ) : Link σ :=
  let requested := { l with lock := l.lock.request .caller }
  if l.lock.holder = none then requested else requested.awaitLock env l.callsAhead

/-- Hands frames to the transport one after the other, up to the first failure. -/
def writeEach : List Frame → Link σ → Link σ × Except Fault Unit
  | [], l => (l, .ok ())
  | f :: fs, l =>
    let (l, call) := l.handOver env .control f
    let l := l.sleep env call.delay
    match call.failure with
    | some causes => (l, .error (.transport (.failed causes)))
    | none => writeEach fs l

/-- Writes frames in order while holding the write lock, up to the first failure. -/
def write (frames : List Frame) (l : Link σ) : Link σ × Except Fault Unit :=
  let l := l.acquire env
  if l.lock.holder = some .caller then
    let (l, result) := l.writeEach env frames
    (l.release, result)
  else (l, .error (.transport .locked))

/-! ## Sending -/

/-- Puts a message into the queue. -/
def accept (l : Link σ) (o : Outbound) : Link σ :=
  { l with
    queue := enqueue { o with number := l.accepted } l.queue
    accepted := l.accepted + 1 }

/-- Starts a worker. -/
def startWorker (l : Link σ) : Link σ :=
  { l with
    workerCount := l.workerCount + 1
    started := l.started + 1
    workers := l.workers.insert l.started {} }.wake l.started

/-- Whether a message is let in: its session has to be acknowledged, and the link must not be shut
    down. -/
def vet (o : Outbound) (l : Link σ) : Except Fault Unit :=
  match l.sessions.requireStarted o.session with
  | .error fault => .error fault
  | .ok _ => if l.isShutDown then .error (.transport .shutDown) else .ok ()

/-- Queues a message and rings the bell. If no worker is idle and there is room for one more, a worker
    is started; without an executor it cannot be. -/
def bringIn (o : Outbound) (hasExecutor : Bool) (l : Link σ) : Link σ × Except Fault Unit :=
  let l := l.accept o
  if l.idleCount = 0 ∧ l.workerCount < env.settings.maxWorkers then
    if hasExecutor then (l.startWorker.ring, .ok ())
    else (l, .error (.transport .noExecutor))
  else (l.ring, .ok ())

/-- Queues a message for sending, if it is let in. The link is not locked between the two. -/
def submit (o : Outbound) (hasExecutor : Bool) (l : Link σ) : Link σ × Except Fault Unit :=
  match l.vet o with
  | .error fault => (l, .error fault)
  | .ok _ => l.bringIn env o hasExecutor

/-- **A message is let in exactly if its session is acknowledged and the link is not shut down.** -/
theorem vet_eq_ok_iff {l : Link σ} {o : Outbound} :
    l.vet o = .ok ()
      ↔ (∃ version, l.sessions.requireStarted o.session = .ok version) ∧ l.isShutDown = false := by
  unfold vet
  cases l.sessions.requireStarted o.session with
  | error fault => simp
  | ok version => cases l.isShutDown <;> simp

/-- Why a message is not let in. -/
theorem vet_error_cases {l : Link σ} {o : Outbound} {fault : Fault} (h : l.vet o = .error fault) :
    l.sessions.requireStarted o.session = .error fault ∨ fault = .transport .shutDown := by
  unfold vet at h
  cases hsession : l.sessions.requireStarted o.session with
  | error notStarted =>
    rw [hsession] at h
    cases h
    exact Or.inl rfl
  | ok version =>
    rw [hsession] at h
    dsimp only at h
    split at h
    · cases h
      exact Or.inr rfl
    · cases h

/-- Who can start workers brings in every message. -/
theorem bringIn_true (l : Link σ) (o : Outbound) :
    l.bringIn env o true = (if l.idleCount = 0 ∧ l.workerCount < env.settings.maxWorkers
      then (l.accept o).startWorker.ring else (l.accept o).ring, .ok ()) := by
  by_cases hstart : l.idleCount = 0 ∧ l.workerCount < env.settings.maxWorkers
  · rw [if_pos hstart]
    exact if_pos hstart
  · rw [if_neg hstart]
    exact if_neg hstart

/-- Who cannot does the same, unless a worker has to be started; then the message is left in the queue. -/
theorem bringIn_outcome (l : Link σ) (o : Outbound) (hasExecutor : Bool) :
    l.bringIn env o hasExecutor = l.bringIn env o true
      ∨ (l.idleCount = 0 ∧ l.workerCount < env.settings.maxWorkers)
        ∧ l.bringIn env o hasExecutor = (l.accept o, .error (.transport .noExecutor)) := by
  cases hasExecutor with
  | true => exact Or.inl rfl
  | false =>
    by_cases hstart : l.idleCount = 0 ∧ l.workerCount < env.settings.maxWorkers
    · exact Or.inr ⟨hstart, if_pos hstart⟩
    · left
      rw [bringIn_true, if_neg hstart]
      exact if_neg hstart

/-- **What becomes of a link that a message is brought into**: the bell rings, unless the message is left in the
    queue; and a worker may be started. -/
theorem bringIn_cases (l : Link σ) (o : Outbound) (hasExecutor : Bool) :
    (l.bringIn env o hasExecutor).1 = (l.accept o).ring
      ∨ l.idleCount = 0 ∧ ((l.bringIn env o hasExecutor).1 = l.accept o
        ∨ (l.bringIn env o hasExecutor).1 = (l.accept o).startWorker.ring) := by
  rcases bringIn_outcome env l o hasExecutor with hsame | ⟨hstart, hleft⟩
  · rw [hsame, bringIn_true]
    dsimp only
    split
    · rename_i hstart
      exact Or.inr ⟨hstart.1, Or.inr rfl⟩
    · exact Or.inl rfl
  · rw [hleft]
    exact Or.inr ⟨hstart.1, Or.inl rfl⟩

/-- What is accepted was let in. -/
theorem bringIn_of_submit {l l' : Link σ} {o : Outbound} {hasExecutor : Bool}
    (h : l.submit env o hasExecutor = (l', .ok ())) :
    l.vet o = .ok () ∧ l.bringIn env o hasExecutor = (l', .ok ()) := by
  unfold submit at h
  split at h
  · cases h
  · rename_i hvet
    exact ⟨hvet, h⟩

/-! ## Ending -/

/-- Drops all waiting messages and calls the workers, which end when they next look for work. -/
def shutDown (l : Link σ) : Link σ :=
  let dropped := l.queue.foldl (fun l s => l.record (.dropped s)) l
  { dropped with isShutDown := true, queue := [] }.ringAll

end HeadLink.Link
