import HeadLink.Table
import HeadLink.Message.Basic

/-!
# Putting messages together

Turns frames into messages. Any number of split messages may be under way at once, with their
consecutive frames mixed on the wire; they are told apart by their keys.

## Contents
- **State.** `Reassembly` and its `Partial` messages.
- **Frames.** `Reassembly.accept` takes one frame; a fault touches no other message than the frame's
  own.
- **Sessions.** `Reassembly.discardSession` forgets the unfinished messages of a session.
-/

namespace HeadLink

/-! ## State -/

/-- A message that was announced and has not ended yet. -/
structure Partial where
  /-- The header of the first frame, which the finished message takes after. -/
  header : Header
  /-- The size that the first frame announced. -/
  announced : Nat
  collected : Array UInt8 := #[]
  deriving DecidableEq

/-- The messages under way, and the limits set to them. -/
structure Reassembly where
  maxMessageSize : Nat
  maxOpen : Nat
  opened : Table MessageKey Partial := ∅

namespace Reassembly

/-- The number of messages under way. -/
def openCount (r : Reassembly) : Nat := r.opened.size

/-! ## Frames -/

/-- The size of the message that the payload of a first frame announces, without the header that the
    total on the wire counts in. -/
def announcedLength (h : Header) : Bytes → Option Nat
  | t₀ :: t₁ :: t₂ :: t₃ :: _ :: _ :: _ :: _ :: _ =>
    some ((Word.decode t₀ t₁ t₂ t₃).toNat - h.length)
  | _ => none

/-- Opens the message that a first frame announces. If one with the same key is under way, the new
    one takes its place. -/
def acceptFirst (r : Reassembly) (f : Frame) : Reassembly × Except ReassemblyFault Unit :=
  match announcedLength f.header f.payload with
  | none => (r, .error (.announcementTruncated f.payload.length))
  | some announced =>
    if r.maxMessageSize < announced then
      (r, .error (.announcedTooLarge announced r.maxMessageSize))
    else if r.maxOpen ≤ r.openCount ∧ ¬ r.opened.contains f.header.key then
      (r, .error (.tooManyOpen f.header r.maxOpen))
    else
      ({ r with opened := r.opened.insert f.header.key { header := f.header, announced } }, .ok ())

/-- Adds a consecutive frame to its message, and finishes the message if the frame is the last. -/
def acceptConsecutive (r : Reassembly) (f : Frame) :
    Reassembly × Except Fault (Option Message) :=
  match r.opened.get? f.header.key with
  | none => (r, .error (.reassembly (.notOpen f.header)))
  | some part =>
    let others := r.opened.erase f.header.key
    if r.maxMessageSize < part.collected.size + f.payload.length then
      ({ r with opened := others }, .error (.reassembly
        (.overflow f.header.key r.maxMessageSize part.collected.size f.payload.length)))
    else
      let collected := part.collected ++ f.payload
      if f.header.isLast then
        ({ r with opened := others },
          ((Message.ofPayload? part.header collected.toList).mapError .body).map some)
      else
        ({ r with opened := others.insert f.header.key { part with collected } }, .ok none)

/-- Takes a frame; gives the message that it completes, if it completes one. -/
def accept (r : Reassembly) (f : Frame) : Reassembly × Except Fault (Option Message) :=
  match f.header.type with
  | .single => (r, ((Message.ofPayload? f.header f.payload).mapError .body).map some)
  | .first =>
    let (r, opened) := r.acceptFirst f
    (r, (opened.mapError .reassembly).map fun _ => none)
  | .consecutive => r.acceptConsecutive f
  | .control => (r, .error (.reassembly (.controlFrame f.header)))

/-! ## Sessions -/

/-- Forgets the unfinished messages of a session. -/
def discardSession (r : Reassembly) (session : UInt8) : Reassembly :=
  { r with opened := r.opened.filterKeys fun key => key.session ≠ session }

end Reassembly

end HeadLink
