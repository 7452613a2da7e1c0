import HeadLink.Bytes

/-!
# Transports

A transport carries encoded frames to the peer. It may take its time over a frame, and it may fail.

## Contents
- **Transports.** `Transport`, over a state of its own, answers each frame with a `Call`.
- **Numbered calls.** `Transport.numbered` decides by the number of the call alone.
-/

namespace HeadLink

/-- How the transport deals with one frame. -/
structure Call where
  /-- How many milliseconds pass until the call returns. -/
  delay : Nat := 0
  /-- The chain of causes, outermost first, if the call fails. -/
  failure : Option (List String) := none

/-- Something that frames are handed to, one at a time. -/
structure Transport (σ : Type) where
  /-- What becomes of the transport when it gets the bytes of a frame, and how it deals with them. -/
  call : σ → Bytes → σ × Call

/-- A transport that takes the same time over each call and fails those calls, counted from 0, that
    have a failure. Its state is the number of calls so far. -/
def Transport.numbered (delay : Nat) (failure : Nat → Option (List String)) : Transport Nat where
  call n _ := (n + 1, { delay, failure := failure n })

end HeadLink
