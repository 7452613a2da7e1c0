import HeadLink.Sessions
import HeadLink.Settings
import HeadLink.Transport.Basic
import HeadLink.Link.Priority
import HeadLink.Link.WriteLock

/-!
# The sending side of a link

Messages wait in a queue and are written by workers. Workers are started when messages come in and
end when they have had nothing to do for a while.

Actors, and what they wait for:

* a worker without work waits for the bell, for a limited time;
* a worker with a message waits for the write lock, and then for the transport;
* the caller of the link waits for the write lock and for the transport when it sends control
  frames.

One of them runs at a time, and each runs until it has to wait. Workers that need not wait any longer
stand in line in `Link.ready`.

## Contents
- **Workers.** A `Worker` is at a `Stage`, and hears the bell according to its `Signal`.
- **The link.** `Link` is everything that is shared, with the `journal` of what happened.
- **The bell.** `Link.ring` calls the worker that has listened longest; a ring that nobody hears is
  kept for the next worker that listens. `Link.ringAll` calls all listeners.
- **The lock.** `Link.release` passes the write lock on.
- **The transport.** `Link.handOver` hands it a frame.
-/

namespace HeadLink

/-! ## Workers -/

/-- A message in the hands of a worker. -/
structure Job where
  submission : Submission
  /-- The id that the message got. -/
  message : UInt32
  /-- The frames that are still to be handed to the transport. -/
  left : List Frame
  deriving DecidableEq

/-- How a worker stands to the bell. -/
inductive Signal where
  /-- It does not listen. -/
  | off
  /-- It has used up a ring that was kept. -/
  | kept
  | listening
  /-- It was rung for and has not noticed yet. -/
  | rung
  /-- It was called together with all listeners. -/
  | called
  deriving DecidableEq

/-- What a worker is about. -/
inductive Stage where
  /-- About to look for a message. -/
  | seeking
  /-- Found no message; waits for the bell until the deadline. -/
  | idle (deadline : Nat)
  /-- Waits for the write lock. -/
  | queueing (job : Job)
  /-- Holds the write lock, about to hand over the next frame. -/
  | writing (job : Job)
  /-- Holds the write lock while the transport is busy with a frame. -/
  | calling (job : Job) (ends : Nat) (failure : Option (List String))
  deriving DecidableEq

/-- A worker. -/
structure Worker where
  signal : Signal := .off
  stage : Stage := .seeking
  deriving DecidableEq

/-! ## The link -/

/-- On whose behalf a frame is written. -/
inductive Origin where
  | control
  /-- A message, by its submission number and its id. -/
  | message (number : Nat) (message : UInt32)
  deriving DecidableEq

/-- Something that happened on a link. -/
inductive Entry where
  /-- A frame was handed to the transport, which may have failed. -/
  | written (origin : Origin) (frame : Frame) (failure : Option (List String))
  /-- The listener was told something. -/
  | told (notice : Notice)
  /-- A worker took a message from the queue. -/
  | taken (submission : Submission)
  /-- A message was dropped from the queue when the link was shut down. -/
  | dropped (submission : Submission)
  deriving DecidableEq

/-- What a link works with. -/
structure Environment (σ : Type) where
  settings : Settings
  transport : Transport σ
  /-- Why the listener refuses a message, by the number of messages it got before. -/
  refusal : Nat → Option (List String) := fun _ => none

/-- The shared state of the callers and the workers of a link, over the state of its transport. -/
structure Link (σ : Type) where
  /-- Milliseconds since the link was opened. -/
  now : Nat := 0
  sessions : Sessions := ∅
  /-- The messages that wait, in the order in which they leave. -/
  queue : List Submission := []
  /-- How many messages were accepted. -/
  accepted : Nat := 0
  /-- The id that the latest message got. -/
  lastMessage : UInt32 := 0
  isShutDown : Bool := false
  workerCount : Nat := 0
  /-- How many workers have found the queue empty and not run since. -/
  idleCount : Nat := 0
  /-- How many workers were ever started. -/
  started : Nat := 0
  workers : Table Nat Worker := ∅
  /-- The workers that need not wait any longer, in the order in which they run. -/
  ready : List Nat := []
  /-- A ring that nobody has heard yet. -/
  keptRing : Bool := false
  /-- The workers that listen to the bell, longest first. -/
  listeners : List Nat := []
  lock : WriteLock := {}
  carrier : σ
  journal : Array Entry := #[]

namespace Link

variable {σ : Type}

/-- Notes that something happened. -/
def record (l : Link σ) (e : Entry) : Link σ :=
  { l with journal := l.journal.push e }

/-- Tells the listener something. -/
def tell (l : Link σ) (n : Notice) : Link σ :=
  l.record (.told n)

/-- What a worker is about. -/
def stageOf (l : Link σ) (id : Nat) : Option Stage :=
  (l.workers.get? id).map Worker.stage

/-- Puts a worker at the end of those that run next, unless it is among them. -/
def wake (l : Link σ) (id : Nat) : Link σ :=
  if id ∈ l.ready then l else { l with ready := l.ready ++ [id] }

/-- Lets the worker whose turn it is wait. -/
def suspend (l : Link σ) : Link σ :=
  { l with ready := l.ready.tail }

/-- Replaces a worker. -/
def setWorker (l : Link σ) (id : Nat) (w : Worker) : Link σ :=
  { l with workers := l.workers.insert id w }

/-! ## The bell -/

/-- Gives a worker a signal. An idle worker wakes up from it; any other one finds it later. -/
def signal (l : Link σ) (id : Nat) (s : Signal) : Link σ :=
  match l.workers.get? id with
  | none => l
  | some w =>
    let l := l.setWorker id { w with signal := s }
    match w.stage with
    | .idle _ => l.wake id
    | _ => l

/-- Rings for the worker that has listened longest, or keeps the ring if nobody listens. -/
def ring (l : Link σ) : Link σ :=
  match l.listeners with
  | [] => { l with keptRing := true }
  | id :: rest => { l with listeners := rest }.signal id .rung

/-- Calls all listeners. -/
def ringAll (l : Link σ) : Link σ :=
  l.listeners.foldl (fun l id => l.signal id .called) { l with listeners := [] }

/-- Stops listening. A ring that the worker has not noticed goes to another one. -/
def hangUp (l : Link σ) (id : Nat) (s : Signal) : Link σ :=
  match s with
  | .listening => { l with listeners := l.listeners.erase id }
  | .rung => l.ring
  | _ => l

/-! ## The lock -/

/-- Passes the write lock on, and lets the party that gets it run. -/
def release (l : Link σ) : Link σ :=
  let lock := l.lock.release
  match lock.holder with
  | some (.worker id) => { l with lock }.wake id
  | _ => { l with lock }

/-! ## The transport -/

/-- Hands a frame to the transport. -/
def handOver (env : Environment σ) (origin : Origin) (f : Frame) (l : Link σ) : Link σ × Call :=
  let (carrier, call) := env.transport.call l.carrier f.encode
  ({ l with carrier }.record (.written origin f call.failure), call)

end Link

end HeadLink
