import HeadLink.Frame.Header

/-!
# Settings

The limits and sizes that a link works with.

## Contents
- **The settings.** `Settings`, with their usual values, and `Settings.frameBudget`.
- **Validity.** `Settings.fault?` names the first rule that settings break (`SettingsFault`).
-/

namespace HeadLink

/-- The limits and sizes of a link. -/
structure Settings where
  /-- The largest outbound frame, header included. -/
  mtu : Nat := 1500
  /-- The largest payload that an inbound header may announce. -/
  maxFramePayload : UInt32 := 1024 * 1024
  /-- The largest message, in either direction. -/
  maxMessageSize : Nat := 16 * 1024 * 1024
  /-- How many split messages may be under way at once. -/
  maxOpenMessages : Nat := 64
  /-- The version in use until the peer's acknowledgement settles one. -/
  initialVersion : UInt8 := 1
  minWorkers : Nat := 1
  maxWorkers : Nat := 10
  /-- After how many milliseconds without work a worker above the minimum ends. -/
  idleTimeout : Nat := 10000
  /-- How many bytes one read from the peer asks for. -/
  receiveBufferSize : Nat := 4096

/-- A rule that settings break. -/
inductive SettingsFault where
  | mtuTooSmall (mtu : Nat)
  | framePayloadBelowMtu
  | noOpenMessages
  | noWorkers
  | minAboveMax (min max : Nat)
  | versionOutOfRange (version : UInt8)
  | noReceiveBuffer
  deriving DecidableEq

/-- The text of a broken rule. -/
def SettingsFault.message : SettingsFault → String
  | .mtuTooSmall mtu => "MTU of " ++ toString mtu ++ " leaves no room for frame payload"
  | .framePayloadBelowMtu => "maximum frame payload size must be at least the MTU"
  | .noOpenMessages => "at least one open message is required for reassembly"
  | .noWorkers => "at least one send worker is required"
  | .minAboveMax min max =>
    "min_send_workers (" ++ toString min ++ ") exceeds max_send_workers (" ++ toString max ++ ")"
  | .versionOutOfRange version =>
    "protocol version " ++ toString version.toNat ++ " does not fit into the version nibble"
  | .noReceiveBuffer => "receive buffer size must not be 0"

namespace Settings

/-- The largest payload of an outbound frame of the given version. -/
def frameBudget (s : Settings) (version : UInt8) : Nat := s.mtu - headerLength version

/-- The first rule that the settings break, if any. -/
def fault? (s : Settings) : Option SettingsFault :=
  if s.mtu ≤ 12 then some (.mtuTooSmall s.mtu)
  else if s.maxFramePayload.toNat < s.mtu then some .framePayloadBelowMtu
  else if s.maxOpenMessages = 0 then some .noOpenMessages
  else if s.maxWorkers = 0 then some .noWorkers
  else if s.maxWorkers < s.minWorkers then some (.minAboveMax s.minWorkers s.maxWorkers)
  else if s.initialVersion < 1 ∨ 15 < s.initialVersion then some (.versionOutOfRange s.initialVersion)
  else if s.receiveBufferSize = 0 then some .noReceiveBuffer
  else none

/-- The settings break no rule. -/
def Valid (s : Settings) : Prop := s.fault? = none

end Settings

end HeadLink
