import HeadLink.Endpoint.Control

/-!
# Receiving

Received bytes are cut into frames; control frames are acted on, and the others are put together to
messages for the listener. What is malformed is reported and passed over.

## Contents
- **Frames.** `Endpoint.onFrame` and `Endpoint.onArrival`.
- **Bytes.** `Endpoint.receive` takes a chunk.
- **Readers.** `Endpoint.receiveFrom` takes what a `Reader` gives until it ends.
-/

namespace HeadLink

namespace Endpoint

variable {σ : Type} (env : Environment σ)

/-! ## Frames -/

/-- Gives a message to the listener, which may refuse it. -/
def deliver (e : Endpoint σ) (m : Message) : Endpoint σ :=
  let told := { e with delivered := e.delivered + 1 }.tell (.messageReceived m)
  let answered :=
    match env.refusal e.delivered with
    | some causes => told.tell (.fault .delivering (.delivery causes))
    | none => told
  if m.isUnregisterResponse then answered.tell .appUnregistered else answered

/-- Deals with a frame. -/
def onFrame (e : Endpoint σ) (f : Frame) : Endpoint σ :=
  if f.header.type = .control then e.onControl env f.header
  else
    let (reassembly, result) := e.reassembly.accept f
    let e := { e with reassembly }
    match result with
    | .ok (some m) => e.deliver env m
    | .ok none => e
    | .error fault => e.tell (.fault (.reassembling f.header) fault)

/-- Deals with a frame, or with a header that was refused. -/
def onArrival (e : Endpoint σ) : Arrival → Endpoint σ
  | .ok f => e.onFrame env f
  | .error fault => e.tell (.fault .parsing (.header fault))

/-! ## Bytes -/

/-- Takes a chunk of received bytes. -/
def receive (e : Endpoint σ) (chunk : Bytes) : Endpoint σ :=
  let (deframer, arrivals) := e.deframer.push chunk
  arrivals.foldl (onArrival env) { e with deframer }

end Endpoint

/-! ## Readers -/

/-- Where bytes are read from: chunks, of which an empty one is the end of the stream, and then the
    end or a failure. -/
structure Reader where
  chunks : List Bytes
  failure : Option String := none

/-- The failure that ended the reading. -/
structure ReadFailure where
  cause : String

/-- The text of a failure to read. -/
def ReadFailure.message (f : ReadFailure) : String := "receive loop: " ++ f.cause

namespace Reader

/-- The chunks up to the end of the stream. -/
def beforeEnd (r : Reader) : List Bytes := r.chunks.takeWhile fun c => !c.isEmpty

/-- What the reads give that ask for at most `size` bytes each. -/
def reads (r : Reader) (size : Nat) : List Bytes := r.beforeEnd.flatMap (pieces size)

/-- How the reading ends: a failure counts only if the stream has not ended before it. -/
def outcome (r : Reader) : Except ReadFailure Unit :=
  match r.failure with
  | some cause => if r.chunks.all fun c => !c.isEmpty then .error { cause } else .ok ()
  | none => .ok ()

end Reader

/-- Receives what a reader gives until it ends or fails. -/
def Endpoint.receiveFrom {σ : Type} (env : Environment σ) (e : Endpoint σ) (r : Reader) :
    Endpoint σ × Except ReadFailure Unit :=
  ((r.reads env.settings.receiveBufferSize).foldl (Endpoint.receive env) e, r.outcome)

end HeadLink
