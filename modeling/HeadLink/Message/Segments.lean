import HeadLink.Frame.Basic
import HeadLink.Fault

/-!
# Splitting messages into frames

A payload that fits goes into a single frame. A longer one is announced by a first frame, whose
payload holds the total size and the number of parts, and follows in consecutive frames. The detail
byte of a consecutive frame tells whether it is the last.

## Contents
- **Announcements.** `announcement` is the payload of a first frame.
- **Parts.** `consecutiveFrames` marks the last part.
- **Segments.** `segments` is the list of frames of a payload (`length_segments_le`).
-/

namespace HeadLink

/-- What all frames of a message have in common. -/
structure Envelope where
  version : UInt8
  service : ServiceType
  session : UInt8
  message : UInt32
  deriving DecidableEq

namespace Envelope

/-- A frame of the message. -/
def frame (e : Envelope) (type : FrameType) (detail : UInt8) (payload : Bytes) : Frame :=
  .data e.version type e.service detail e.session e.message payload

/-- The payload of a first frame: the size of the message and of one header together, and the number
    of consecutive frames. -/
def announcement (e : Envelope) (size parts : Nat) : Bytes :=
  Word.encode (.ofNat (size + headerLength e.version)) ++ Word.encode (.ofNat parts)

/-- The length of an announcement. -/
def announcementLength : Nat := 8

/-- The frames for the parts of a payload, of which the last one is marked. -/
def consecutiveFrames (e : Envelope) : List Bytes → List Frame
  | [] => []
  | [part] => [e.frame .consecutive Header.lastDetail part]
  | part :: parts => e.frame .consecutive Header.moreDetail part :: e.consecutiveFrames parts

/-- The frames of a payload, each with at most `budget` bytes of it. -/
def segments (e : Envelope) (payload : Bytes) (budget : Nat) : Except Fault (List Frame) :=
  if budget < announcementLength then .error (.argument (.frameBudgetTooSmall budget))
  else if Word.count ≤ payload.length + headerLength e.version then .error (.tooLarge payload.length)
  else if payload.length ≤ budget then .ok [e.frame .single 0 payload]
  else
    let parts := pieces budget payload
    .ok (e.frame .first 0 (e.announcement payload.length parts.length)
      :: e.consecutiveFrames parts)

/-- There is one consecutive frame per part. -/
theorem length_consecutiveFrames (e : Envelope) (parts : List Bytes) :
    (e.consecutiveFrames parts).length = parts.length := by
  fun_induction e.consecutiveFrames parts <;> simp_all

/-- A payload takes at most two frames more than it has bytes. -/
theorem length_segments_le {e : Envelope} {payload : Bytes} {budget : Nat} {frames : List Frame}
    (h : e.segments payload budget = .ok frames) : frames.length ≤ payload.length + 2 := by
  have hp := length_pieces_le budget payload
  unfold segments at h
  split at h
  · cases h
  · split at h
    · cases h
    · split at h
      · cases h
        simp
      · cases h
        rw [List.length_cons, length_consecutiveFrames]
        omega

end Envelope

end HeadLink
