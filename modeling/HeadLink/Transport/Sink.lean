import HeadLink.Transport.Basic

/-!
# Writing frames into a byte sink

A byte sink may take fewer bytes than it is offered, it may take its time, and any write or flush may fail. A
frame is carried over when all its bytes are taken and a flush has succeeded.

## Contents
- **Sinks.** An `Exchange` is one call of a sink and its answer, `SinkState` what a sink has been through, and
  `SinkPlan` how it behaves.
- **Writing.** `SinkPlan.writeAll` offers bytes until all are taken.
- **The transport.** `SinkPlan.transport` writes a frame and flushes.
-/

namespace HeadLink

/-! ## Sinks -/

/-- A call of a sink, with the answer. -/
inductive Exchange where
  /-- A write takes some of the offered bytes, from the front. -/
  | took (offered taken : Bytes)
  /-- A write fails. -/
  | refused (offered : Bytes) (cause : String)
  | flushed (failure : Option String)
  deriving DecidableEq

namespace Exchange

/-- The bytes that the sink is offered. -/
def offered : Exchange → Bytes
  | .took offered _ | .refused offered _ => offered
  | .flushed _ => []

/-- The bytes that the sink takes. -/
def taken : Exchange → Bytes
  | .took _ taken => taken
  | .refused .. | .flushed _ => []

/-- Why the flush fails, if the sink is asked to flush. -/
def flush? : Exchange → Option (Option String)
  | .flushed failure => some failure
  | .took .. | .refused .. => none

end Exchange

/-- What a sink has been through. -/
structure SinkState where
  /-- All calls so far. -/
  past : Array Exchange := #[]
  /-- The bytes taken so far. -/
  taken : Array UInt8 := #[]
  /-- The number of flushes so far, failed ones included. -/
  flushes : Nat := 0

/-- The sink is called once more. -/
def SinkState.record (s : SinkState) (x : Exchange) : SinkState where
  past := s.past.push x
  taken := s.taken ++ x.taken
  flushes := s.flushes + x.flush?.toList.length

/-- How a sink behaves, depending on what it has been through. -/
structure SinkPlan where
  /-- How many of the offered bytes a write takes at most, or why it fails. -/
  write : SinkState → Bytes → Except String Nat
  /-- Why a flush fails, if it does. -/
  flush : SinkState → Option String
  /-- How many milliseconds the frame has taken that it has just dealt with. -/
  delay : SinkState → Nat := fun _ => 0

namespace SinkPlan

/-! ## Writing -/

/-- What a write that takes nothing is reported as. -/
def writeZero : String := "write zero"

/-- Offers the bytes to the sink until it has taken all of them. A write that fails or takes nothing
    ends the attempt. -/
def writeAll (p : SinkPlan) (s : SinkState) : Bytes → SinkState × Except String Unit
  | [] => (s, .ok ())
  | b :: rest =>
    match p.write s (b :: rest) with
    | .error cause => (s.record (.refused (b :: rest) cause), .error cause)
    | .ok 0 => (s.record (.took (b :: rest) []), .error writeZero)
    | .ok (n + 1) => p.writeAll (s.record (.took (b :: rest) (b :: rest.take n))) (rest.drop n)
termination_by bytes => bytes.length

/-- Asks the sink to flush. -/
def flushNow (p : SinkPlan) (s : SinkState) : SinkState × Option String :=
  (s.record (.flushed (p.flush s)), p.flush s)

/-! ## The transport -/

/-- Carries a frame over by writing all of it and flushing. -/
def transport (p : SinkPlan) : Transport SinkState where
  call s frame :=
    match p.writeAll s frame with
    | (s, .error cause) => (s, { delay := p.delay s, failure := some ["writing frame", cause] })
    | (s, .ok ()) =>
      match p.flushNow s with
      | (s, some cause) => (s, { delay := p.delay s, failure := some ["flushing frame", cause] })
      | (s, none) => (s, { delay := p.delay s })

/-- A sink that takes at most `maxWrite` bytes at a time, fails each write that begins when
    `closesAt` bytes are taken, and fails one flush. -/
def bounded (maxWrite : Nat) (closesAt : Option (Nat × String)) (failedFlush : Option (Nat × String)) :
    SinkPlan where
  write s _ :=
    match closesAt with
    | some (limit, cause) => if limit ≤ s.taken.size then .error cause else .ok maxWrite
    | none => .ok maxWrite
  flush s :=
    match failedFlush with
    | some (number, cause) => if s.flushes = number then some cause else none
    | none => none

end SinkPlan

end HeadLink
