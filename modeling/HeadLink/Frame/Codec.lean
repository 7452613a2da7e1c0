import HeadLink.Bytes
import HeadLink.Frame.Header

/-!
# Headers on the wire

The layout of a header, all numbers most significant byte first:

* byte 0: the version in the high four bits, the compression flag, the frame type in the low three;
* byte 1: the service; byte 2: the detail; byte 3: the session;
* bytes 4 to 7: the payload size;
* bytes 8 to 11, from version 2 on: the message id.

## Contents
- **Writing.** `Header.encode`, whose length is `Header.length` (`Header.length_encode`).
- **Reading.** `Header.decode?` reads a header from the front of a byte sequence or says what is
  wrong with it (`HeaderFault`).
- **A first look.** `announcedVersion` and `announcedSize` read the version and the payload size of a
  header that may be unreadable otherwise.
- **A ceiling.** `Header.check` refuses headers that announce too long a payload.
-/

namespace HeadLink

/-! ## Faults -/

/-- Why a header is refused. -/
inductive HeaderFault where
  /-- Fewer bytes than any header has. -/
  | truncated (available : Nat)
  /-- Version 0 has no layout. -/
  | versionZero
  | unknownType (code : UInt8)
  | unknownService (code : UInt8)
  /-- The version calls for a message id, and the bytes end before it. -/
  | messageMissing (version : UInt8)
  /-- The announced payload is longer than the receiver takes. -/
  | oversized (size ceiling : UInt32)
  deriving DecidableEq

/-! ## Writing -/

/-- The first byte of a header. -/
def Header.firstByte (h : Header) : UInt8 :=
  h.version <<< 4 ||| (if h.compressed then 0x08 else 0) ||| h.type.code

/-- The bytes of a header. -/
def Header.encode (h : Header) : Bytes :=
  [h.firstByte, h.service.code, h.detail, h.session] ++ Word.encode h.size
    ++ (if 2 ≤ h.version then Word.encode h.message else [])

/-- The written header has the length that its version prescribes. -/
theorem Header.length_encode (h : Header) : h.encode.length = h.length := by
  unfold Header.encode Header.length headerLength
  split <;> rfl

/-! ## A first look -/

/-- The version that a header's first byte announces. -/
def announcedVersion (first : UInt8) : UInt8 := first >>> 4

/-- The payload size that the header bytes announce. It stands at the same place for all frame types
    and services, so it can be read from headers that are refused; only version 0 has no layout. -/
def announcedSize : Bytes → Option UInt32
  | b :: _ :: _ :: _ :: s₀ :: s₁ :: s₂ :: s₃ :: _ =>
    if announcedVersion b = 0 then none else some (Word.decode s₀ s₁ s₂ s₃)
  | _ => none

/-! ## Reading -/

/-- The message id at the front of the bytes, if the version has one. -/
def messageField (version : UInt8) (bytes : Bytes) : Except HeaderFault (UInt32 × Bytes) :=
  if 2 ≤ version then
    match bytes with
    | m₀ :: m₁ :: m₂ :: m₃ :: rest => .ok (Word.decode m₀ m₁ m₂ m₃, rest)
    | _ => .error (.messageMissing version)
  else .ok (0, bytes)

/-- Reads a header from the front of the bytes and gives what follows it. The size that it announces
    is not judged, see `Header.check`. -/
def Header.decode? : Bytes → Except HeaderFault (Header × Bytes)
  | b :: s :: detail :: session :: s₀ :: s₁ :: s₂ :: s₃ :: rest =>
    let version := announcedVersion b
    if version = 0 then .error .versionZero
    else match FrameType.ofCode? (b &&& 0x07) with
      | none => .error (.unknownType (b &&& 0x07))
      | some type => match ServiceType.ofCode? s with
        | none => .error (.unknownService s)
        | some service => match messageField version rest with
          | .error fault => .error fault
          | .ok (message, rest) =>
            let compressed := decide (b &&& 0x08 ≠ 0)
            let size := Word.decode s₀ s₁ s₂ s₃
            .ok ({ version, compressed, type, service, detail, session, size, message }, rest)
  | bytes => .error (.truncated bytes.length)

/-! ## A ceiling -/

/-- Refuses a header that announces a payload above the ceiling. -/
def Header.check (h : Header) (ceiling : UInt32) : Except HeaderFault Unit :=
  if ceiling < h.size then .error (.oversized h.size ceiling) else .ok ()

end HeadLink
