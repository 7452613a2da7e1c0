import HeadLink.Frame.Header

/-!
# Message keys

Message ids are unique only within a session, and version 1 frames carry none. A split message is
therefore known by its session, its service and its message id together.
-/

namespace HeadLink

/-- What tells the frames of one split message from those of another. -/
structure MessageKey where
  session : UInt8
  service : ServiceType
  message : UInt32
  deriving DecidableEq

/-- The key of the message that a frame belongs to. -/
def Header.key (h : Header) : MessageKey where
  session := h.session
  service := h.service
  message := h.message

/-- The text that stands for the key in fault descriptions. -/
def MessageKey.description (k : MessageKey) : String :=
  "MessageKey \x7b session_id: " ++ toString k.session.toNat ++ ", service_type: " ++ k.service.name
    ++ ", message_id: " ++ toString k.message.toNat ++ " \x7d"

end HeadLink
