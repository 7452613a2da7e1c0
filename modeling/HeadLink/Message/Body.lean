import HeadLink.Bytes
import HeadLink.Fault

/-!
# Message bodies

From version 2 on the payload of a message starts with a fixed part of 12 bytes, all numbers most
significant byte first:

* bytes 0 to 3: the kind of call in the high four bits, the function id in the other 28;
* bytes 4 to 7: the correlation id;
* bytes 8 to 11: the length of the data.

The data follows, and whatever is left after it is bulk data.

## Contents
- **Kinds of calls.** `RpcType`.
- **Bodies.** `Body`, `Body.write`, `Body.encode` and `Body.decode?`. Empty bulk data leaves no trace on the wire.
-/

namespace HeadLink

/-! ## Kinds of calls -/

/-- The role of a message in a remote procedure call. -/
inductive RpcType where
  | request
  | response
  | notification
  deriving DecidableEq

/-- The code in the high four bits of a body's first byte. -/
def RpcType.code : RpcType → UInt8
  | .request => 0
  | .response => 1
  | .notification => 2

/-- The kind of call with a given code. -/
def RpcType.ofCode? : UInt8 → Option RpcType
  | 0 => some .request
  | 1 => some .response
  | 2 => some .notification
  | _ => none

/-- The name of a kind of call. -/
def RpcType.name : RpcType → String
  | .request => "Request"
  | .response => "Response"
  | .notification => "Notification"

theorem RpcType.ofCode?_eq_some_iff {c : UInt8} {t : RpcType} :
    RpcType.ofCode? c = some t ↔ c = t.code := by
  constructor
  · unfold RpcType.ofCode?
    split <;> simp_all [RpcType.code] <;> rintro rfl <;> rfl
  · rintro rfl
    cases t <;> rfl

/-! ## Bodies -/

/-- What a message says, apart from the session and the service that it travels on. -/
structure Body where
  rpcType : RpcType := .request
  functionId : UInt32 := 0
  correlationId : UInt32 := 0
  /-- JSON text from version 2 on, the whole payload before. -/
  data : Bytes
  bulk : Option Bytes := none
  deriving DecidableEq

namespace Body

/-- The largest function id that 28 bits hold. -/
def maxFunctionId : UInt32 := 0x0fffffff

/-- The bytes of bulk data that go on the wire. -/
def bulkBytes (b : Body) : Bytes := b.bulk.getD []

/-- Whether there is at least one byte of bulk data. -/
def hasBulk (b : Body) : Bool := !b.bulkBytes.isEmpty

/-- Replaces the bulk data; empty bulk data is the same as none. -/
def withBulk (b : Body) (bulk : Bytes) : Body :=
  { b with bulk := if bulk.isEmpty then none else some bulk }

/-- The first word of a body: the kind of call above the function id. -/
def firstWord (b : Body) : UInt32 := b.rpcType.code.toUInt32 <<< 28 ||| b.functionId

/-- Writes a body at the end of a buffer. Whether it fits the layout is known before its first byte is written. -/
def write (b : Body) : EStateM Fault Bytes Unit := do
  if maxFunctionId < b.functionId then throw (.argument (.functionIdTooLarge b.functionId))
  else if Word.count ≤ b.data.length then throw (.tooLarge b.data.length)
  else
    modify (· ++ Word.encode b.firstWord)
    modify (· ++ Word.encode b.correlationId)
    modify (· ++ Word.encode (.ofNat b.data.length))
    modify (· ++ b.data)
    modify (· ++ b.bulkBytes)

/-- The bytes of a body, unless its function id or its data is too large for the layout. -/
def encode (b : Body) : Except Fault Bytes :=
  match b.write.run [] with
  | .ok _ bytes => .ok bytes
  | .error fault _ => .error fault

/-- What is written, in one piece; nothing if the body does not fit. -/
theorem run_write (b : Body) (buffer : Bytes) :
    b.write.run buffer =
      if maxFunctionId < b.functionId then .error (.argument (.functionIdTooLarge b.functionId)) buffer
      else if Word.count ≤ b.data.length then .error (.tooLarge b.data.length) buffer
      else .ok () (buffer ++ (Word.encode b.firstWord ++ Word.encode b.correlationId
        ++ Word.encode (.ofNat b.data.length) ++ b.data ++ b.bulkBytes)) := by
  unfold write
  by_cases hid : maxFunctionId < b.functionId
  · rw [if_pos hid, if_pos hid]
    rfl
  · rw [if_neg hid, if_neg hid]
    by_cases hlength : Word.count ≤ b.data.length
    · rw [if_pos hlength, if_pos hlength]
      rfl
    · rw [if_neg hlength, if_neg hlength]
      simp only [← List.append_assoc]
      rfl

theorem encode_eq (b : Body) :
    b.encode =
      if maxFunctionId < b.functionId then .error (.argument (.functionIdTooLarge b.functionId))
      else if Word.count ≤ b.data.length then .error (.tooLarge b.data.length)
      else .ok (Word.encode b.firstWord ++ Word.encode b.correlationId
        ++ Word.encode (.ofNat b.data.length) ++ b.data ++ b.bulkBytes) := by
  rw [encode, run_write, List.nil_append]
  by_cases hid : maxFunctionId < b.functionId
  · rw [if_pos hid, if_pos hid]
  · rw [if_neg hid, if_neg hid]
    by_cases hlength : Word.count ≤ b.data.length
    · rw [if_pos hlength, if_pos hlength]
    · rw [if_neg hlength, if_neg hlength]

/-- Reads a body from a whole payload. -/
def decode? : Bytes → Except BodyFault Body
  | f₀ :: f₁ :: f₂ :: f₃ :: c₀ :: c₁ :: c₂ :: c₃ :: n₀ :: n₁ :: n₂ :: n₃ :: rest =>
    match RpcType.ofCode? (f₀ >>> 4) with
    | none => .error (.unknownRpcType (f₀ >>> 4))
    | some rpcType =>
      let size := (Word.decode n₀ n₁ n₂ n₃).toNat
      if rest.length < size then .error (.dataTooLong size rest.length)
      else
        let bulk := rest.drop size
        .ok {
          rpcType
          functionId := Word.decode f₀ f₁ f₂ f₃ &&& maxFunctionId
          correlationId := Word.decode c₀ c₁ c₂ c₃
          data := rest.take size
          bulk := if bulk.isEmpty then none else some bulk }
  | payload => .error (.truncated payload.length)

end Body

end HeadLink
