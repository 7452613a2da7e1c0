import HeadLink.Hex
import HeadLink.Frame.Codec
import HeadLink.Message.Key

/-!
# Faults

Everything that can go wrong on either path of a link, as causes. No fault ends a link: it is
returned to the caller or reported to the listener.

## Contents
- **Causes.** One type per place where something can go wrong, and `Fault`, which joins them.
- **Wording.** `Fault.message` is the text of a fault. Errors that wrap others are chains of texts,
  outermost first, joined by a colon.
-/

namespace HeadLink

/-! ## Causes -/

/-- Why the payload of a message is refused. -/
inductive BodyFault where
  /-- Fewer bytes than the fixed part of a body has. -/
  | truncated (available : Nat)
  | unknownRpcType (code : UInt8)
  /-- The announced data is longer than what follows the fixed part. -/
  | dataTooLong (announced available : Nat)
  deriving DecidableEq

/-- Why a frame has no place in the messages being put together. -/
inductive ReassemblyFault where
  /-- Control frames carry no part of a message. -/
  | controlFrame (header : Header)
  /-- The payload of a first frame is too short for an announcement. -/
  | announcementTruncated (available : Nat)
  | announcedTooLarge (announced limit : Nat)
  | tooManyOpen (header : Header) (limit : Nat)
  /-- A consecutive frame of a message that no first frame announced. -/
  | notOpen (header : Header)
  | overflow (key : MessageKey) (limit collected received : Nat)
  deriving DecidableEq

/-- Why what a caller asks for makes no sense. -/
inductive ArgumentFault where
  | functionIdTooLarge (functionId : UInt32)
  /-- Frames so short that not even a first frame fits. -/
  | frameBudgetTooSmall (budget : Nat)
  /-- Session 0 is reserved for opening sessions. -/
  | reservedSession (service : ServiceType)
  deriving DecidableEq

/-- Why nothing can be handed to the transport. -/
inductive TransportFault where
  /-- The transport failed, with a chain of causes, outermost first. -/
  | failed (causes : List String)
  /-- The outbox is shut down. -/
  | shutDown
  /-- A worker is needed where none can be started. -/
  | noExecutor
  /-- The write lock was not granted. -/
  | locked
  deriving DecidableEq

/-- Whatever can go wrong on a link. -/
inductive Fault where
  | header (fault : HeaderFault)
  | body (fault : BodyFault)
  | reassembly (fault : ReassemblyFault)
  /-- A message for a session that the peer has not acknowledged. -/
  | notStarted (session : UInt8)
  /-- The listener refused a message, with a chain of causes, outermost first. -/
  | delivery (causes : List String)
  | tooLarge (size : Nat)
  | transport (fault : TransportFault)
  | argument (fault : ArgumentFault)
  deriving DecidableEq

/-! ## Wording -/

/-- A chain of causes as one text. -/
def chainText (causes : List String) : String :=
  ": ".intercalate causes

/-- The text of a fault in a header. -/
def HeaderFault.message : HeaderFault → String
  | .truncated available => "header requires at least 8 bytes, got " ++ toString available
  | .versionZero => "protocol version 0"
  | .unknownType code => "unsupported frame type " ++ toString code.toNat
  | .unknownService code => "unsupported service type " ++ hexByte code
  | .messageMissing version =>
    "version " ++ toString version.toNat ++ " header requires 12 bytes"
  | .oversized size ceiling =>
    "declared payload of " ++ toString size.toNat ++ " bytes exceeds the maximum of "
      ++ toString ceiling.toNat

/-- The text of a fault in a message's payload. -/
def BodyFault.message : BodyFault → String
  | .truncated available => "binary header requires 12 bytes, got " ++ toString available
  | .unknownRpcType code => "unsupported RPC type " ++ toString code.toNat
  | .dataTooLong announced available =>
    "JSON length " ++ toString announced ++ " exceeds the remaining payload of "
      ++ toString available ++ " bytes"

/-- The text of a fault in the sequence of frames. -/
def ReassemblyFault.message : ReassemblyFault → String
  | .controlFrame header =>
    "control frame " ++ header.description ++ " passed to message reassembly"
  | .announcementTruncated available =>
    "first frame payload has " ++ toString available ++ " bytes, expected 8"
  | .announcedTooLarge announced limit =>
    "declared message size " ++ toString announced ++ " exceeds the maximum of " ++ toString limit
  | .tooManyOpen header limit =>
    "first frame " ++ header.description ++ " exceeds the maximum of " ++ toString limit
      ++ " messages in reassembly"
  | .notOpen header =>
    "consecutive frame " ++ header.description ++ " without a preceding first frame"
  | .overflow key limit collected received =>
    "message " ++ key.description ++ " exceeds the maximum size of " ++ toString limit
      ++ " bytes (" ++ toString collected ++ " buffered, " ++ toString received
      ++ " more received)"

/-- The text of a fault in a request. -/
def ArgumentFault.message : ArgumentFault → String
  | .functionIdTooLarge functionId =>
    "function id " ++ hex functionId.toNat ++ " does not fit into 28 bits"
  | .frameBudgetTooSmall budget =>
    "frame payload size " ++ toString budget ++ " is too small for segmentation"
  | .reservedSession service => "cannot start " ++ service.name ++ " on session 0"

/-- The text of a fault of the transport. -/
def TransportFault.message : TransportFault → String
  | .failed causes => chainText causes
  | .shutDown => "send scheduler is shut down"
  | .noExecutor => "no runtime for send workers"
  | .locked => "write lock not granted"

/-- The text of a fault. -/
def Fault.message : Fault → String
  | .header fault => "malformed frame header: " ++ fault.message
  | .body fault => "malformed binary header: " ++ fault.message
  | .reassembly fault => "malformed frame: " ++ fault.message
  | .notStarted session =>
    "attempt to send on session " ++ toString session.toNat ++ " prior to the StartService ACK"
  | .delivery causes => "message delivery failed: " ++ chainText causes
  | .tooLarge size =>
    "message of " ++ toString size ++ " bytes exceeds the maximum message size"
  | .transport fault => "transport error: " ++ fault.message
  | .argument fault => "invalid argument: " ++ fault.message

end HeadLink
