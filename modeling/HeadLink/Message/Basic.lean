import HeadLink.Frame.Basic
import HeadLink.Message.Body

/-!
# Messages

A message is what the application hands over and gets: a body on a service of a session. It takes
one frame or several on the wire.

## Contents
- **The message.** `Message`, and `Message.outboundService`, the service that it is sent on.
- **Payloads.** `Message.payload` and `Message.ofPayload?` convert between a message and the bytes
  that its frames carry.
-/

namespace HeadLink

/-- A message of the application. -/
structure Message where
  version : UInt8
  service : ServiceType
  session : UInt8
  body : Body
  deriving DecidableEq

namespace Message

/-- The function that unregisters the application at the peer. -/
def unregisterFunction : UInt32 := 2

/-- Whether the peer confirms that the application is unregistered. -/
def isUnregisterResponse (m : Message) : Bool :=
  m.body.rpcType = .response && m.body.functionId = unregisterFunction

/-- The service that a message is sent on: calls with bulk data go to the bulk service. -/
def outboundService (m : Message) : ServiceType :=
  if m.service = .rpc ∧ m.body.hasBulk then .bulk else m.service

/-- The bytes that the frames of a message carry in the given version: the encoded body from
    version 2 on, the bare data before. -/
def payload (m : Message) (version : UInt8) : Except Fault Bytes :=
  if 2 ≤ version then m.body.encode else .ok m.body.data

/-- The message with the given payload, on the session and the service of the header. -/
def ofPayload? (h : Header) (payload : Bytes) : Except BodyFault Message :=
  if 2 ≤ h.version then
    (Body.decode? payload).map fun body =>
      { version := h.version, service := h.service, session := h.session, body }
  else .ok { version := h.version, service := h.service, session := h.session
             body := { data := payload } }

end Message

end HeadLink
