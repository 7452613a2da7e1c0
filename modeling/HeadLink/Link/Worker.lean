import HeadLink.Link.State
import HeadLink.Message.Segments

/-!
# What workers do

A worker looks for a message, splits it, waits for the write lock, hands the frames to the transport
one after the other, and looks for the next message. Without a message it waits for the bell; it ends
when the bell stays silent for too long and there are workers enough, or when the link is shut down.

`Link.work` is one step of the worker whose turn it is. A worker keeps its turn until it has to wait.

## Contents
- **Looking for work.** `Link.seek`, `Link.waitForBell`, `Link.resume`.
- **Sending.** `Link.nextMessage`, `Link.prepare`, `Link.takeOn`, `Link.writeNext`, `Link.finish`.
- **Steps.** `Link.work`.
-/

namespace HeadLink.Link

variable {σ : Type} (env : Environment σ)

/-! ## Looking for work -/

/-- Starts to listen to the bell, using up a ring that was kept. -/
def listen (l : Link σ) (id : Nat) : Link σ × Signal :=
  if l.keptRing then ({ l with keptRing := false }, .kept)
  else ({ l with listeners := l.listeners ++ [id] }, .listening)

/-- Ends the worker whose turn it is. -/
def leave (l : Link σ) (id : Nat) : Link σ :=
  { l with
    workerCount := l.workerCount - 1
    workers := l.workers.erase id
    listeners := l.listeners.erase id }.suspend

/-- Waits for the bell. A ring that was kept wakes the worker at once, and a timeout of zero is over
    at once. -/
def waitForBell (l : Link σ) (id : Nat) (s : Signal) : Link σ :=
  if s = .listening ∧ env.settings.idleTimeout = 0 ∧ env.settings.minWorkers < l.workerCount then
    l.leave id
  else
    let l := { l with idleCount := l.idleCount + 1 }.setWorker id
      { signal := s, stage := .idle (l.now + env.settings.idleTimeout) }
    if s = .listening then l.suspend else l

/-- Goes on after waiting for the bell, unless it stayed silent and the worker can be spared. -/
def resume (l : Link σ) (id : Nat) (s : Signal) : Link σ :=
  let l := { l with idleCount := l.idleCount - 1 }
  if s = .listening ∧ l.queue = [] ∧ env.settings.minWorkers < l.workerCount then l.leave id
  else { l with listeners := l.listeners.erase id }.setWorker id {}

/-! ## Sending -/

/-- The next message id. Ids start at 1. -/
def nextMessage (l : Link σ) : Link σ × UInt32 :=
  ({ l with lastMessage := l.lastMessage + 1 }, l.lastMessage + 1)

/-- Turns a message into frames under an id of its own. The message gets an id only if its session is
    still acknowledged. -/
def prepare (l : Link σ) (s : Submission) : Link σ × Except Fault Job :=
  match l.sessions.requireStarted s.session with
  | .error fault => (l, .error fault)
  | .ok _ =>
    let (l, message) := l.nextMessage
    let e : Envelope := { version := s.version, service := s.service, session := s.session, message }
    (l, (e.segments s.payload (env.settings.frameBudget s.version)).map fun left =>
      { submission := s, message, left })

/-- Turns to the next message. -/
def moveOn (l : Link σ) (id : Nat) (s : Signal) : Link σ :=
  (l.hangUp id s).setWorker id {}

/-- Reports a message that cannot be sent. -/
def report (l : Link σ) (s : Submission) : Option Fault → Link σ
  | some fault => l.tell (.fault (.sending s) fault)
  | none => l

/-- Ends the writing of a message. -/
def finish (l : Link σ) (id : Nat) (signal : Signal) (s : Submission) (fault : Option Fault) :
    Link σ :=
  (l.release.report s fault).moveOn id signal

/-- Prepares a message that was taken from the queue, and asks for the write lock. -/
def takeOn (l : Link σ) (id : Nat) (signal : Signal) (s : Submission) : Link σ :=
  match (l.record (.taken s)).prepare env s with
  | (l, .error fault) => (l.report s (some fault)).moveOn id signal
  | (l, .ok job) =>
    let requested := { l with lock := l.lock.request (.worker id) }
    if l.lock.holder = none then requested.setWorker id { signal, stage := .writing job }
    else (requested.setWorker id { signal, stage := .queueing job }).suspend

/-- Goes on after a call of the transport. -/
def afterCall (l : Link σ) (id : Nat) (signal : Signal) (job : Job)
    (failure : Option (List String)) : Link σ :=
  match failure with
  | some causes => l.finish id signal job.submission (some (.transport (.failed causes)))
  | none => l.setWorker id { signal, stage := .writing job }

/-- Hands over the next frame of a message. -/
def writeNext (l : Link σ) (id : Nat) (signal : Signal) (job : Job) : Link σ :=
  match job.left with
  | [] => l.finish id signal job.submission none
  | f :: left =>
    let job := { job with left }
    let (l, call) := l.handOver env (.message job.submission.number job.message) f
    if call.delay = 0 then l.afterCall id signal job call.failure
    else
      (l.setWorker id { signal, stage := .calling job (l.now + call.delay) call.failure }).suspend

/-- Looks for a message, in the queue or by listening to the bell. -/
def seek (l : Link σ) (id : Nat) : Link σ :=
  let (l, signal) := l.listen id
  if l.isShutDown then l.leave id
  else
    match l.queue with
    | [] => l.waitForBell env id signal
    | s :: queue => { l with queue }.takeOn env id signal s

/-! ## Steps -/

/-- A step of the worker whose turn it is. -/
def work (l : Link σ) : Link σ :=
  match l.ready with
  | [] => l
  | id :: _ =>
    match l.workers.get? id with
    | none => l.suspend
    | some w =>
      match w.stage with
      | .seeking => l.seek env id
      | .idle _ => l.resume env id w.signal
      | .queueing job => l.setWorker id { w with stage := .writing job }
      | .writing job => l.writeNext env id w.signal job
      | .calling job _ failure => l.afterCall id w.signal job failure

end HeadLink.Link
