import HeadLink.Frame.Codec

/-!
# Frames

A frame is a header together with its payload. On the wire the payload follows the header.
-/

namespace HeadLink

/-- A header and the payload that follows it. -/
structure Frame where
  header : Header
  payload : Bytes := []
  deriving DecidableEq

namespace Frame

/-- The bytes of a frame. -/
def encode (f : Frame) : Bytes := f.header.encode ++ f.payload

/-- A control frame without payload. -/
def control (version : UInt8) (service : ServiceType) (session : UInt8) (type : ControlType) :
    Frame where
  header := .control version service session type 0 0

/-- A frame with a message or a part of it, whose header announces the payload's length. -/
def data (version : UInt8) (type : FrameType) (service : ServiceType) (detail session : UInt8)
    (message : UInt32) (payload : Bytes) : Frame where
  header := .data version type service detail session message (.ofNat payload.length)
  payload := payload

/-- A frame takes the room of its header and its payload. -/
theorem length_encode (f : Frame) : f.encode.length = f.header.length + f.payload.length := by
  rw [encode, List.length_append, Header.length_encode]

end Frame

end HeadLink
