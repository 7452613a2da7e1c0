import HeadLink.Frame.Kind

/-!
# Frame headers

Every frame starts with a header of fixed size. Version 1 headers are 8 bytes long; from version 2 on
a header is 12 bytes long and carries a message id.

## Contents
- **The header.** `Header`, its length (`headerLength`) and its text in descriptions
  (`Header.description`).
- **Constructors.** `Header.control` and `Header.data` leave the message id out where the version has
  no place for it.
- **Views.** `Header.controlType?` and `Header.isLast`.
-/

namespace HeadLink

/-- The length in bytes of a header of the given protocol version. -/
def headerLength (version : UInt8) : Nat :=
  if 2 ≤ version then 12 else 8

/-- The header of a frame. -/
structure Header where
  version : UInt8
  compressed : Bool := false
  type : FrameType
  service : ServiceType
  /-- The kind of a control frame; for a consecutive frame, whether more frames follow. -/
  detail : UInt8 := 0
  session : UInt8
  /-- The length of the payload in bytes. -/
  size : UInt32 := 0
  /-- The message that the frame belongs to. -/
  message : UInt32 := 0
  deriving DecidableEq

namespace Header

/-- The detail byte of the consecutive frame that ends a message. -/
def lastDetail : UInt8 := 0

/-- The detail byte of a consecutive frame that more frames follow. -/
def moreDetail : UInt8 := 1

/-- A message id as far as the protocol version has room for it. -/
def messageFor (version : UInt8) (message : UInt32) : UInt32 :=
  if 2 ≤ version then message else 0

/-- The header of a control frame. -/
def control (version : UInt8) (service : ServiceType) (session : UInt8) (type : ControlType)
    (message size : UInt32) : Header where
  version := version
  type := .control
  service := service
  detail := type.code
  session := session
  size := size
  message := messageFor version message

/-- The header of a frame that carries a message or a part of it. -/
def data (version : UInt8) (type : FrameType) (service : ServiceType) (detail session : UInt8)
    (message size : UInt32) : Header where
  version := version
  type := type
  service := service
  detail := detail
  session := session
  size := size
  message := messageFor version message

/-- The length of the header on the wire. -/
def length (h : Header) : Nat := headerLength h.version

/-- What a control frame asks for or answers, if it is one of the known kinds. -/
def controlType? (h : Header) : Option ControlType :=
  if h.type = .control then ControlType.ofCode? h.detail else none

/-- Whether the frame ends a split message. -/
def isLast (h : Header) : Bool :=
  h.type = .consecutive && h.detail = lastDetail

/-- The text that stands for the header in fault descriptions. -/
def description (h : Header) : String :=
  "FRAME\x7bV" ++ toString h.version.toNat ++ ":" ++ h.type.name ++ "/" ++ h.service.name ++ "#"
    ++ toString h.detail.toNat ++ "@" ++ toString h.session.toNat ++ ":" ++ toString h.message.toNat
    ++ "[" ++ toString h.size.toNat ++ "]\x7d"

end Header

theorem headerLength_of_le {version : UInt8} (h : 2 ≤ version) : headerLength version = 12 := by
  simp [headerLength, h]

theorem headerLength_of_not_le {version : UInt8} (h : ¬ 2 ≤ version) : headerLength version = 8 := by
  simp [headerLength, h]

/-- A header is at least 8 bytes long. -/
theorem eight_le_headerLength (version : UInt8) : 8 ≤ headerLength version := by
  unfold headerLength
  split <;> decide

/-- A header is at most 12 bytes long. -/
theorem headerLength_le_twelve (version : UInt8) : headerLength version ≤ 12 := by
  unfold headerLength
  split <;> decide

end HeadLink
