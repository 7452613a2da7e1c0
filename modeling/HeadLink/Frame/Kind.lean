/-!
# Kinds of frames, services and control frames

The closed vocabularies of the frame header, each with its code on the wire and its name in
descriptions.

## Contents
- **Frame types.** `FrameType`: control frames, and the three parts that a message can travel in.
- **Services.** `ServiceType`: the channel that a frame belongs to. A lower code is sent first.
- **Control frames.** `ControlType`: what a control frame asks for or answers.
- **Codes.** For each kind `ofCode?_eq_some_iff`: a code stands for at most one member.
-/

namespace HeadLink

/-! ## Frame types -/

/-- The part that a frame plays. -/
inductive FrameType where
  /-- Session and service management. -/
  | control
  /-- A message that fits into one frame. -/
  | single
  /-- Announces a message that is split across several frames. -/
  | first
  /-- A part of a split message. -/
  | consecutive
  deriving DecidableEq

/-- The code in the low three bits of a header's first byte. -/
def FrameType.code : FrameType → UInt8
  | .control => 0
  | .single => 1
  | .first => 2
  | .consecutive => 3

/-- The frame type with a given code. -/
def FrameType.ofCode? : UInt8 → Option FrameType
  | 0 => some .control
  | 1 => some .single
  | 2 => some .first
  | 3 => some .consecutive
  | _ => none

/-- The frame type's name in descriptions. -/
def FrameType.name : FrameType → String
  | .control => "Control"
  | .single => "Single"
  | .first => "First"
  | .consecutive => "Consecutive"

theorem FrameType.ofCode?_eq_some_iff {c : UInt8} {t : FrameType} :
    FrameType.ofCode? c = some t ↔ c = t.code := by
  constructor
  · unfold FrameType.ofCode?
    split <;> simp_all [FrameType.code] <;> rintro rfl <;> rfl
  · rintro rfl
    cases t <;> rfl

/-! ## Services -/

/-- The channel that a frame belongs to. -/
inductive ServiceType where
  /-- The link's own management. -/
  | control
  /-- Remote procedure calls. -/
  | rpc
  | audio
  | nav
  /-- Calls that carry bulk data. -/
  | bulk
  deriving DecidableEq

/-- The code in a header's second byte; lower codes are sent first. -/
def ServiceType.code : ServiceType → UInt8
  | .control => 0x00
  | .rpc => 0x07
  | .audio => 0x0A
  | .nav => 0x0B
  | .bulk => 0x0F

/-- The service with a given code. -/
def ServiceType.ofCode? : UInt8 → Option ServiceType
  | 0x00 => some .control
  | 0x07 => some .rpc
  | 0x0A => some .audio
  | 0x0B => some .nav
  | 0x0F => some .bulk
  | _ => none

/-- The service's name in descriptions. -/
def ServiceType.name : ServiceType → String
  | .control => "Control"
  | .rpc => "Rpc"
  | .audio => "Audio"
  | .nav => "Nav"
  | .bulk => "Bulk"

/-- All services, by ascending code. -/
def ServiceType.all : List ServiceType :=
  [.control, .rpc, .audio, .nav, .bulk]

theorem ServiceType.mem_all (s : ServiceType) : s ∈ ServiceType.all := by
  cases s <;> decide

theorem ServiceType.ofCode?_eq_some_iff {c : UInt8} {s : ServiceType} :
    ServiceType.ofCode? c = some s ↔ c = s.code := by
  constructor
  · unfold ServiceType.ofCode?
    split <;> simp_all [ServiceType.code] <;> rintro rfl <;> rfl
  · rintro rfl
    cases s <;> rfl

/-! ## Control frames -/

/-- What a control frame asks for or answers. -/
inductive ControlType where
  | heartbeat
  | startService
  | startServiceAck
  | startServiceNack
  | endService
  | endServiceAck
  | endServiceNack
  | navAck
  | heartbeatAck
  deriving DecidableEq

/-- The code in a control frame's detail byte. -/
def ControlType.code : ControlType → UInt8
  | .heartbeat => 0x00
  | .startService => 0x01
  | .startServiceAck => 0x02
  | .startServiceNack => 0x03
  | .endService => 0x04
  | .endServiceAck => 0x05
  | .endServiceNack => 0x06
  | .navAck => 0xFE
  | .heartbeatAck => 0xFF

/-- The kind of control frame with a given code. -/
def ControlType.ofCode? : UInt8 → Option ControlType
  | 0x00 => some .heartbeat
  | 0x01 => some .startService
  | 0x02 => some .startServiceAck
  | 0x03 => some .startServiceNack
  | 0x04 => some .endService
  | 0x05 => some .endServiceAck
  | 0x06 => some .endServiceNack
  | 0xFE => some .navAck
  | 0xFF => some .heartbeatAck
  | _ => none

/-- The name of a kind of control frame. -/
def ControlType.name : ControlType → String
  | .heartbeat => "Heartbeat"
  | .startService => "StartService"
  | .startServiceAck => "StartServiceAck"
  | .startServiceNack => "StartServiceNack"
  | .endService => "EndService"
  | .endServiceAck => "EndServiceAck"
  | .endServiceNack => "EndServiceNack"
  | .navAck => "NavAck"
  | .heartbeatAck => "HeartbeatAck"

theorem ControlType.ofCode?_eq_some_iff {c : UInt8} {t : ControlType} :
    ControlType.ofCode? c = some t ↔ c = t.code := by
  constructor
  · unfold ControlType.ofCode?
    split <;> simp_all [ControlType.code] <;> rintro rfl <;> rfl
  · rintro rfl
    cases t <;> rfl

end HeadLink
