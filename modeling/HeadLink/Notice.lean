import HeadLink.Message.Basic

/-!
# Notices

What a link tells its listener. Faults on either path are notices too, together with what was being
done when they came up.

## Contents
- **Submissions.** `Outbound` messages, encoded and waiting to be sent.
- **Notices.** `Notice` and the `Context` of a fault.
-/

namespace HeadLink

/-! ## Submissions -/

/-- A message encoded for sending. -/
structure Outbound where
  session : UInt8
  service : ServiceType
  /-- The version that the payload is encoded for. -/
  version : UInt8
  correlationId : UInt32
  payload : Bytes
  deriving DecidableEq

/-- A message accepted for sending. -/
structure Submission extends Outbound where
  /-- How many messages were accepted before it. -/
  number : Nat
  deriving DecidableEq

/-! ## Notices -/

/-- What was being done when a fault came up. -/
inductive Context where
  | parsing
  | reassembling (header : Header)
  | delivering
  | acknowledging (service : ServiceType) (session : UInt8)
  | sending (submission : Submission)
  deriving DecidableEq

/-- The text of a context. -/
def Context.description : Context → String
  | .parsing => "parsing frame header"
  | .reassembling header => "reassembling " ++ header.description
  | .delivering => "delivering message"
  | .acknowledging service session =>
    "acknowledging start of " ++ service.name ++ " on session " ++ toString session.toNat
  | .sending submission =>
    "sending on " ++ submission.service.name ++ " for session " ++ toString submission.session.toNat

/-- What the listener is told. -/
inductive Notice where
  | messageReceived (message : Message)
  /-- The rpc service of a session is acknowledged. -/
  | sessionStarted (session version : UInt8)
  | serviceStarted (service : ServiceType) (session version : UInt8)
  | serviceEnded (service : ServiceType) (session version : UInt8)
  | startRejected (service : ServiceType) (session version : UInt8)
  | appUnregistered
  | heartbeatAck (session : UInt8)
  | navAck (message : UInt32)
  | fault (context : Context) (cause : Fault)
  deriving DecidableEq

end HeadLink
