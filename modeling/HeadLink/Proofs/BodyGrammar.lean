import HeadLink.Proofs.BodyCodec

/-!
# The bytes that are bodies

Which payloads are read as a body is a property of the bytes alone (`BodyGrammar`): the fixed part is there, the
high four bits of the first byte are the code of a kind of call, and the length that is announced for the data is
not larger than what follows. The length decides where the data ends and the bulk data begins, so any payload with
enough bytes has exactly one reading, whatever the two are.

A body that was read fits the layout, and its first word is the word that the kind of call and the function id were
read from (`firstWord_of_fields`). So it is written as the same bytes again. In the other direction one thing is
lost: empty bulk data takes no byte, and comes back as none.

## Contents
- **Grammar.** `BodyGrammar`.
- **Fields.** `decode?_eq_ok_iff`, `firstWord_of_fields`.
- **Writing.** `exists_encode_iff`, `run_write_of_encode`, `eq_of_run_write_error`.
- **Both directions.** `exists_decode?_iff_bodyGrammar`, `encode_of_decode?`, `body_codec_bijective`.
-/

namespace HeadLink

/-! ## Grammar -/

/-- The byte string is a body: it begins with the fixed part, whose first four bits are the code of a kind of call
    and whose last four bytes announce no more data than there are bytes after it. -/
structure BodyGrammar (bytes : Bytes) : Prop where
  whole : 12 ≤ bytes.length
  rpcType : (bytes.getD 0 0).toNat / 16 ≤ 2
  data : bigEndian ((bytes.drop 8).take 4) ≤ bytes.length - 12

/-! ## Fields -/

theorem RpcType.code_le (t : RpcType) : t.code.toNat ≤ 2 := by
  cases t <;> decide

/-- The kind of call is where a header has its version. -/
theorem toNat_highBits (b : UInt8) : (b >>> 4).toNat = b.toNat / 16 :=
  toNat_announcedVersion b

/-- The codes of the kinds of calls are the three smallest. -/
theorem RpcType.exists_ofCode?_iff {c : UInt8} : (∃ t, RpcType.ofCode? c = some t) ↔ c.toNat ≤ 2 := by
  constructor
  · rintro ⟨t, ht⟩
    rw [RpcType.ofCode?_eq_some_iff.mp ht]
    exact t.code_le
  · intro hc
    have hcases : c = 0 ∨ c = 1 ∨ c = 2 := by
      simp only [← UInt8.toNat_inj]
      show c.toNat = 0 ∨ c.toNat = 1 ∨ c.toNat = 2
      omega
    rcases hcases with rfl | rfl | rfl
    · exact ⟨.request, rfl⟩
    · exact ⟨.response, rfl⟩
    · exact ⟨.notification, rfl⟩

section Payloads

variable {f₀ f₁ f₂ f₃ c₀ c₁ c₂ c₃ n₀ n₁ n₂ n₃ : UInt8} {rest : Bytes} {b : Body}

/-- **What a successful read says of the single bytes.** -/
theorem decode?_eq_ok_iff :
    Body.decode? (f₀ :: f₁ :: f₂ :: f₃ :: c₀ :: c₁ :: c₂ :: c₃ :: n₀ :: n₁ :: n₂ :: n₃ :: rest) = .ok b
      ↔ RpcType.ofCode? (f₀ >>> 4) = some b.rpcType
        ∧ b.functionId = Word.decode f₀ f₁ f₂ f₃ &&& Body.maxFunctionId
        ∧ b.correlationId = Word.decode c₀ c₁ c₂ c₃
        ∧ (Word.decode n₀ n₁ n₂ n₃).toNat ≤ rest.length
        ∧ b.data = rest.take (Word.decode n₀ n₁ n₂ n₃).toNat
        ∧ b.bulk = if (rest.drop (Word.decode n₀ n₁ n₂ n₃).toNat).isEmpty then none
            else some (rest.drop (Word.decode n₀ n₁ n₂ n₃).toNat) := by
  simp only [Body.decode?]
  cases hcode : RpcType.ofCode? (f₀ >>> 4) with
  | none =>
    constructor
    · intro h
      cases h
    · rintro ⟨htype, -⟩
      cases htype
  | some rpcType =>
    simp only
    split
    · rename_i hlong
      constructor
      · intro h
        cases h
      · rintro ⟨-, -, -, hsize, -⟩
        exact absurd hsize (Nat.not_le.mpr hlong)
    · rename_i hfits
      constructor
      · intro h
        cases h
        exact ⟨rfl, rfl, rfl, Nat.not_lt.mp hfits, rfl, rfl⟩
      · rintro ⟨htype, hid, hcorrelation, -, hdata, hbulk⟩
        cases b
        cases htype
        simp only at hid hcorrelation hdata hbulk
        rw [hid, hcorrelation, hdata, hbulk]

/-- Counting empty bulk data as none loses no byte. -/
theorem bulkBytes_of_bulk {bulk : Bytes} (h : b.bulk = if bulk.isEmpty then none else some bulk) :
    b.bulkBytes = bulk := by
  unfold Body.bulkBytes
  rw [h]
  cases bulk <;> rfl

/-- Nothing but a string with a fixed part is read. -/
theorem exists_of_body_decode? {bytes : Bytes} (h : Body.decode? bytes = .ok b) :
    ∃ f₀ f₁ f₂ f₃ c₀ c₁ c₂ c₃ n₀ n₁ n₂ n₃ rest,
      bytes = f₀ :: f₁ :: f₂ :: f₃ :: c₀ :: c₁ :: c₂ :: c₃ :: n₀ :: n₁ :: n₂ :: n₃ :: rest := by
  unfold Body.decode? at h
  split at h
  · exact ⟨_, _, _, _, _, _, _, _, _, _, _, _, _, rfl⟩
  · cases h

/-- **The first word is what the kind of call and the function id are read from.** -/
theorem firstWord_of_fields (htype : RpcType.ofCode? (f₀ >>> 4) = some b.rpcType)
    (hid : b.functionId = Word.decode f₀ f₁ f₂ f₃ &&& Body.maxFunctionId) :
    b.functionId ≤ Body.maxFunctionId ∧ b.firstWord = Word.decode f₀ f₁ f₂ f₃ := by
  have hcode : b.rpcType.code.toNat = f₀.toNat / 16 := by
    rw [← RpcType.ofCode?_eq_some_iff.mp htype, toNat_highBits]
  have hmax : Body.maxFunctionId.toNat = 2 ^ 28 - 1 := rfl
  have hlow : b.functionId.toNat = (Word.decode f₀ f₁ f₂ f₃).toNat % 2 ^ 28 := by
    rw [hid, UInt32.toNat_and, hmax, Nat.and_two_pow_sub_one_eq_mod]
  have hle : b.functionId ≤ Body.maxFunctionId := by
    rw [UInt32.le_iff_toNat_le, hlow, hmax]
    omega
  refine ⟨hle, ?_⟩
  -- the code is the quotient by the 28th power of two, the function id the remainder
  rw [← UInt32.toNat_inj, toNat_firstWord hle, hlow, hcode, toNat_decode]
  have h₁ := f₁.toNat_lt
  have h₂ := f₂.toNat_lt
  have h₃ := f₃.toNat_lt
  simp only [bigEndian, List.foldl]
  omega

end Payloads

/-! ## Writing -/

section Writing

variable {b : Body} {buffer bytes : Bytes}

/-- Taking the bulk data for what it is on the wire leaves out empty bulk data and nothing else. -/
theorem withBulk_bulkBytes (b : Body) :
    b.withBulk b.bulkBytes = { b with bulk := b.bulk.filter fun bulk => !bulk.isEmpty } := by
  unfold Body.withBulk Body.bulkBytes
  cases b.bulk with
  | none => rfl
  | some bulk => cases bulk <;> rfl

/-- **A body is written exactly if its function id has 28 bits and the length of its data 32.** -/
theorem exists_encode_iff :
    (∃ bytes, b.encode = .ok bytes) ↔ b.functionId.toNat < 0x10000000 ∧ b.data.length < Word.count := by
  have hid : b.functionId ≤ Body.maxFunctionId ↔ b.functionId.toNat < 0x10000000 := by
    rw [UInt32.le_iff_toNat_le]
    exact (Nat.lt_succ_iff).symm
  simp only [encode_eq_ok_iff, hid]
  constructor
  · rintro ⟨bytes, hlow, hlength, -⟩
    exact ⟨hlow, hlength⟩
  · rintro ⟨hlow, hlength⟩
    exact ⟨_, hlow, hlength, rfl⟩

/-- What a body is written as does not depend on what is in the buffer. -/
theorem run_write_of_encode (h : b.encode = .ok bytes) : b.write.run buffer = .ok () (buffer ++ bytes) := by
  obtain ⟨hid, hlength, rfl⟩ := encode_eq_ok_iff.mp h
  rw [Body.run_write, if_neg (UInt32.not_lt.mpr hid), if_neg (Nat.not_le.mpr hlength)]

/-- **A body that is not written leaves nothing in the buffer.** -/
theorem eq_of_run_write_error {fault : Fault} {buffer' : Bytes} (h : b.write.run buffer = .error fault buffer') :
    buffer' = buffer ∧ b.encode = .error fault := by
  rw [Body.run_write] at h
  rw [Body.encode_eq]
  split at h
  · rename_i hid
    cases h
    exact ⟨rfl, if_pos hid⟩
  · rename_i hid
    rw [if_neg hid]
    split at h
    · rename_i hlength
      cases h
      exact ⟨rfl, if_pos hlength⟩
    · cases h

end Writing

/-! ## Both directions -/

/-- **Reading accepts exactly the strings of the grammar.** -/
theorem exists_decode?_iff_bodyGrammar {bytes : Bytes} : (∃ b, Body.decode? bytes = .ok b) ↔ BodyGrammar bytes := by
  constructor
  · rintro ⟨b, hd⟩
    obtain ⟨f₀, f₁, f₂, f₃, c₀, c₁, c₂, c₃, n₀, n₁, n₂, n₃, rest, rfl⟩ := exists_of_body_decode? hd
    obtain ⟨htype, -, -, hsize, -⟩ := decode?_eq_ok_iff.mp hd
    refine ⟨?_, ?_, ?_⟩
    · simp only [List.length_cons]
      omega
    · show f₀.toNat / 16 ≤ 2
      rw [← toNat_highBits]
      exact RpcType.exists_ofCode?_iff.mp ⟨_, htype⟩
    · show bigEndian [n₀, n₁, n₂, n₃] ≤ rest.length
      rw [← toNat_decode]
      exact hsize
  · rintro ⟨hwhole, htype, hsize⟩
    match bytes, hwhole with
    | f₀ :: f₁ :: f₂ :: f₃ :: c₀ :: c₁ :: c₂ :: c₃ :: n₀ :: n₁ :: n₂ :: n₃ :: rest, _ =>
      change f₀.toNat / 16 ≤ 2 at htype
      change bigEndian [n₀, n₁, n₂, n₃] ≤ rest.length at hsize
      rw [← toNat_highBits] at htype
      rw [← toNat_decode] at hsize
      obtain ⟨rpcType, hrpc⟩ := RpcType.exists_ofCode?_iff.mpr htype
      refine ⟨{ rpcType
                functionId := Word.decode f₀ f₁ f₂ f₃ &&& Body.maxFunctionId
                correlationId := Word.decode c₀ c₁ c₂ c₃
                data := rest.take (Word.decode n₀ n₁ n₂ n₃).toNat
                bulk := if (rest.drop (Word.decode n₀ n₁ n₂ n₃).toNat).isEmpty then none
                  else some (rest.drop (Word.decode n₀ n₁ n₂ n₃).toNat) }, ?_⟩
      exact decode?_eq_ok_iff.mpr ⟨hrpc, rfl, rfl, hsize, rfl, rfl⟩

/-- **What was read is written as the bytes that it was read from.** -/
theorem encode_of_decode? {bytes : Bytes} {b : Body} (hd : Body.decode? bytes = .ok b) : b.encode = .ok bytes := by
  obtain ⟨f₀, f₁, f₂, f₃, c₀, c₁, c₂, c₃, n₀, n₁, n₂, n₃, rest, rfl⟩ := exists_of_body_decode? hd
  obtain ⟨htype, hid, hcorrelation, hsize, hdata, hbulk⟩ := decode?_eq_ok_iff.mp hd
  obtain ⟨hle, hfirst⟩ := firstWord_of_fields htype hid
  have hlength : b.data.length = (Word.decode n₀ n₁ n₂ n₃).toNat := by
    rw [hdata, List.length_take, Nat.min_eq_left hsize]
  have hrest : b.data ++ b.bulkBytes = rest := by
    rw [hdata, bulkBytes_of_bulk hbulk, List.take_append_drop]
  refine encode_eq_ok_iff.mpr ⟨hle, ?_, ?_⟩
  · rw [hlength]
    exact (Word.decode n₀ n₁ n₂ n₃).toNat_lt
  · rw [hfirst, hcorrelation, hlength, UInt32.ofNat_toNat, List.append_assoc, hrest]
    simp only [Word.encode_decode, List.cons_append, List.nil_append]

/-- **Reading and writing bodies are inverse to each other, but for empty bulk data.** A body is written exactly if
    its function id and the length of its data fit their fields, at the end of whatever the buffer holds; what is
    written is read back as the body, with empty bulk data as none. If it is not written the buffer is as before.
    Reading accepts exactly the strings of the grammar, and what was read is written as the same bytes again. -/
theorem body_codec_bijective :
    (∀ b : Body, (∃ bytes, b.encode = .ok bytes) ↔ b.functionId.toNat < 0x10000000 ∧ b.data.length < Word.count)
      ∧ (∀ (b : Body) (bytes : Bytes), b.encode = .ok bytes →
          Body.decode? bytes = .ok { b with bulk := b.bulk.filter fun bulk => !bulk.isEmpty }
            ∧ ∀ buffer, b.write.run buffer = .ok () (buffer ++ bytes))
      ∧ (∀ (b : Body) (buffer buffer' : Bytes) (fault : Fault),
          b.write.run buffer = .error fault buffer' → buffer' = buffer ∧ b.encode = .error fault)
      ∧ (∀ bytes, (∃ b, Body.decode? bytes = .ok b) ↔ BodyGrammar bytes)
      ∧ ∀ (bytes : Bytes) (b : Body), Body.decode? bytes = .ok b → b.encode = .ok bytes := by
  refine ⟨fun b => exists_encode_iff, ?_, ?_, fun bytes => exists_decode?_iff_bodyGrammar, ?_⟩
  · intro b bytes h
    rw [← withBulk_bulkBytes]
    exact ⟨decode?_encode_body h, fun buffer => run_write_of_encode h⟩
  · intro b buffer buffer' fault h
    exact eq_of_run_write_error h
  · intro bytes b hd
    exact encode_of_decode? hd

/-- A response with the largest function id and empty bulk data, written behind two bytes. With a function id that is
    one larger, nothing is written. A payload whose length lies is no body, and one with bulk data is written as it
    was read. -/
theorem body_codec_bijective_response :
    let b : Body := { rpcType := .response, functionId := 0x0FFFFFFF, correlationId := 7, data := [0x7B, 0x7D]
                      bulk := some [] }
    let bytes : Bytes := [0x1F, 0xFF, 0xFF, 0xFF, 0, 0, 0, 7, 0, 0, 0, 2, 0x7B, 0x7D]
    (Body.decode? bytes = .ok { b with bulk := none } ∧ b.write.run [1, 2] = .ok () ([1, 2] ++ bytes))
      ∧ { b with functionId := 0x10000000 }.encode = .error (.argument (.functionIdTooLarge 0x10000000))
      ∧ (BodyGrammar (bytes ++ [9]) ∧ { b with bulk := some [9] }.encode = .ok (bytes ++ [9]))
      ∧ ¬ BodyGrammar bytes.dropLast := by
  intro b bytes
  obtain ⟨-, hwritten, hunwritten, hgrammar, hread⟩ := body_codec_bijective
  obtain ⟨hback, hbuffer⟩ := hwritten b bytes (by decide)
  have hbulk : Body.decode? (bytes ++ [9]) = .ok { b with bulk := some [9] } := by decide
  refine ⟨⟨hback, hbuffer [1, 2]⟩, ?_, ⟨(hgrammar _).mp ⟨_, hbulk⟩, hread _ _ hbulk⟩, ?_⟩
  · exact (hunwritten { b with functionId := 0x10000000 } [1, 2] [1, 2] _ rfl).2
  · intro hg
    obtain ⟨b', hd⟩ := (hgrammar _).mpr hg
    have herror : Body.decode? bytes.dropLast = .error (.dataTooLong 2 1) := by decide
    rw [herror] at hd
    cases hd

end HeadLink
