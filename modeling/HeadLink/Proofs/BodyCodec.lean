import HeadLink.Message.Basic
import HeadLink.Proofs.HeaderCodec

/-!
# Bodies and messages on the wire

The first word of a body holds the kind of call above the function id; both are found again as long as
the function id leaves the high four bits alone, which is what `Body.encode` insists on. Empty bulk data
leaves no trace, so a body comes back with its bulk data normalised (`decode?_encode_body`).

What a message comes back as depends on the version that it was sent in: in version 1 only the data is
on the wire (`Message.asReceived`, `ofPayload?_payload`).

## Contents
- **The first word.** `toNat_firstWord`.
- **Bodies.** `encode_eq_ok_iff`, `decode?_encode_body`.
- **Messages.** `Message.asReceived`, `ofPayload?_payload`.
-/

namespace HeadLink

/-! ## The first word -/

/-- Below 28 bits the function id and the kind of call do not overlap. -/
theorem toNat_firstWord {b : Body} (h : b.functionId ≤ Body.maxFunctionId) :
    b.firstWord.toNat = b.rpcType.code.toNat * 0x10000000 + b.functionId.toNat := by
  have hid : b.functionId.toNat < 2 ^ 28 := by
    have hle := UInt32.le_iff_toNat_le.mp h
    have hmax : Body.maxFunctionId.toNat = 2 ^ 28 - 1 := rfl
    omega
  -- no kind of call has a code that is shifted out
  have hshift : (b.rpcType.code.toUInt32 <<< 28).toNat = b.rpcType.code.toNat <<< 28 := by
    cases b.rpcType <;> rfl
  rw [Body.firstWord, UInt32.toNat_or, hshift, ← Nat.shiftLeft_add_eq_or_of_lt hid]
  exact congrArg (· + b.functionId.toNat) (Nat.shiftLeft_eq _ 28)

/-- The kind of call is found again in the high four bits of the first byte. -/
theorem rpcType_firstWord {b : Body} (h : b.functionId ≤ Body.maxFunctionId) :
    RpcType.ofCode? (UInt8.ofNat (b.firstWord.toNat / 0x1000000) >>> 4) = some b.rpcType := by
  rw [RpcType.ofCode?_eq_some_iff, ← UInt8.toNat_inj, UInt8.toNat_shiftRight, UInt8.toNat_ofNat',
    toNat_firstWord h]
  have hid := UInt32.le_iff_toNat_le.mp h
  have hmax : Body.maxFunctionId.toNat = 2 ^ 28 - 1 := rfl
  have hcode : b.rpcType.code.toNat ≤ 2 := by cases b.rpcType <;> decide
  show _ >>> 4 = _
  rw [Nat.shiftRight_eq_div_pow]
  omega

/-- The function id is found again below the kind of call. -/
theorem functionId_firstWord {b : Body} (h : b.functionId ≤ Body.maxFunctionId) :
    b.firstWord &&& Body.maxFunctionId = b.functionId := by
  have hid := UInt32.le_iff_toNat_le.mp h
  have hmax : Body.maxFunctionId.toNat = 2 ^ 28 - 1 := rfl
  rw [← UInt32.toNat_inj, UInt32.toNat_and, hmax, Nat.and_two_pow_sub_one_eq_mod, toNat_firstWord h]
  omega

/-! ## Bodies -/

/-- What is written for a body, and when. -/
theorem encode_eq_ok_iff {b : Body} {payload : Bytes} :
    b.encode = .ok payload ↔ b.functionId ≤ Body.maxFunctionId ∧ b.data.length < Word.count
      ∧ payload = Word.encode b.firstWord ++ Word.encode b.correlationId
          ++ Word.encode (.ofNat b.data.length) ++ b.data ++ b.bulkBytes := by
  rw [Body.encode_eq, ← UInt32.not_lt]
  split
  · rename_i h
    exact ⟨nofun, fun hc => absurd h hc.1⟩
  · rename_i h
    split
    · rename_i hl
      exact ⟨nofun, fun hc => absurd hc.2.1 (Nat.not_lt.mpr hl)⟩
    · rename_i hl
      constructor
      · intro hc
        cases hc
        exact ⟨h, Nat.not_le.mp hl, rfl⟩
      · rintro ⟨-, -, rfl⟩
        rfl

/-- **A body is read back as it was written**, with empty bulk data counted as none. -/
theorem decode?_encode_body {b : Body} {payload : Bytes} (h : b.encode = .ok payload) :
    Body.decode? payload = .ok (b.withBulk b.bulkBytes) := by
  obtain ⟨hid, hl, rfl⟩ := encode_eq_ok_iff.mp h
  have hlen : (UInt32.ofNat b.data.length).toNat = b.data.length := toNat_ofNat_of_lt hl
  unfold Word.encode
  simp only [List.cons_append, List.nil_append, Body.decode?, rpcType_firstWord hid,
    Word.decode_encode, functionId_firstWord hid]
  rw [hlen, List.take_left, List.drop_left, if_neg (by rw [List.length_append]; omega)]
  rfl

/-! ## Messages -/

/-- What a message comes back as when it is sent in the given version. -/
def Message.asReceived (m : Message) (version : UInt8) : Message where
  version := version
  service := m.outboundService
  session := m.session
  body := if 2 ≤ version then m.body.withBulk m.body.bulkBytes else { data := m.body.data }

/-- **A message comes back** under any header with its version, its session and the service that it was
    sent on. -/
theorem ofPayload?_payload {m : Message} {version : UInt8} {payload : Bytes}
    (hp : m.payload version = .ok payload) {h : Header} (hv : h.version = version)
    (hs : h.service = m.outboundService) (hn : h.session = m.session) :
    Message.ofPayload? h payload = .ok (m.asReceived version) := by
  subst hv
  unfold Message.payload at hp
  unfold Message.ofPayload? Message.asReceived
  by_cases h2 : 2 ≤ h.version
  · rw [if_pos h2] at hp
    rw [if_pos h2, if_pos h2, decode?_encode_body hp, hs, hn]
    rfl
  · rw [if_neg h2] at hp
    cases hp
    rw [if_neg h2, if_neg h2, hs, hn]

end HeadLink
