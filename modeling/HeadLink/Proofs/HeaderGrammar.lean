import HeadLink.Proofs.HeaderCodec

/-!
# The bytes that are headers

Which byte strings begin with a header is a property of the bytes alone (`HeaderGrammar`): there are enough of
them, and the three places that are not free to hold any value hold known ones. Reading accepts exactly the
strings of this grammar, and writing what was read gives the same bytes again. Together with
`decode?_encode`, the other direction, reading and writing are inverse to each other between the headers that
fit the layout and the beginnings of the strings of the grammar.

A successful read says what the single bytes are (`decode?_cons_eq_ok_iff`). It remains that the first byte is made
of the fields that are read from it and of nothing else (`firstByte_of_fields`).

## Contents
- **Grammar.** `HeaderGrammar`.
- **Fields.** `firstByte_of_fields`, `encode_messageField`.
- **Both directions.** `exists_decode?_iff`, `eq_encode_append`, `header_codec_bijective`.
-/

namespace HeadLink

/-! ## Grammar -/

/-- The byte string begins with a header: with at least eight bytes, of which the first holds a version other
    than 0 and the code of a frame type and the second the code of a service, and with four bytes more if the
    version has a message id. -/
structure HeaderGrammar (bytes : Bytes) : Prop where
  whole : 8 ≤ bytes.length
  version : (bytes.getD 0 0).toNat / 16 ≠ 0
  type : ∃ type : FrameType, (bytes.getD 0 0).toNat % 8 = type.code.toNat
  service : ∃ service : ServiceType, bytes.getD 1 0 = service.code
  message : 2 ≤ (bytes.getD 0 0).toNat / 16 → 12 ≤ bytes.length

/-! ## Fields -/

theorem two_le_announcedVersion {b : UInt8} : 2 ≤ announcedVersion b ↔ 2 ≤ b.toNat / 16 := by
  rw [UInt8.le_iff_toNat_le, toNat_announcedVersion]
  exact Iff.rfl

/-- The low three bits, as a number. -/
theorem toNat_and_seven (b : UInt8) : (b &&& 0x07).toNat = b.toNat % 8 := by
  rw [UInt8.toNat_and]
  exact Nat.and_two_pow_sub_one_eq_mod b.toNat 3

/-- A byte is its high four bits, the bit below them and the low three bits. -/
theorem join_bits (b : UInt8) :
    announcedVersion b <<< 4 ||| (if b &&& 0x08 ≠ 0 then 0x08 else 0) ||| b &&& 0x07 = b := by
  have all : ∀ n : Fin 256, announcedVersion (.ofNat n) <<< 4
      ||| (if UInt8.ofNat n &&& 0x08 ≠ 0 then 0x08 else 0) ||| UInt8.ofNat n &&& 0x07 = .ofNat n := by
    decide +kernel
  have h := all ⟨b.toNat, b.toNat_lt⟩
  rwa [UInt8.ofNat_toNat] at h

/-- **The first byte is what its three fields are read from.** -/
theorem firstByte_of_fields {h : Header} {b : UInt8} (hversion : h.version = announcedVersion b)
    (hcompressed : h.compressed = decide (b &&& 0x08 ≠ 0)) (htype : b &&& 0x07 = h.type.code) :
    h.firstByte = b := by
  unfold Header.firstByte
  rw [hversion, hcompressed, ← htype]
  simpa only [decide_eq_true_eq] using join_bits b

/-- There is a message id to read as soon as the bytes are long enough for the version. -/
theorem exists_messageField_of_le {version : UInt8} {bytes : Bytes} (h : 2 ≤ version → 4 ≤ bytes.length) :
    ∃ message rest, messageField version bytes = .ok (message, rest) := by
  unfold messageField
  split
  · rename_i hv
    match bytes, h hv with
    | m₀ :: m₁ :: m₂ :: m₃ :: rest, _ => exact ⟨Word.decode m₀ m₁ m₂ m₃, rest, rfl⟩
  · exact ⟨_, _, rfl⟩

/-- The bytes that a message id was read from are those that it is written as. -/
theorem encode_messageField {version : UInt8} {bytes rest : Bytes} {message : UInt32}
    (h : messageField version bytes = .ok (message, rest)) :
    bytes = (if 2 ≤ version then Word.encode message else []) ++ rest := by
  unfold messageField at h
  split at h
  · rename_i hv
    rw [if_pos hv]
    split at h
    · cases h
      rw [Word.encode_decode]
      rfl
    · cases h
  · rename_i hv
    rw [if_neg hv]
    cases h
    rfl

/-! ## Both directions -/

/-- **Reading accepts exactly the strings of the grammar.** -/
theorem exists_decode?_iff {bytes : Bytes} :
    (∃ h rest, Header.decode? bytes = .ok (h, rest)) ↔ HeaderGrammar bytes := by
  constructor
  · rintro ⟨h, rest, hd⟩
    obtain ⟨b, s, detail, session, s₀, s₁, s₂, s₃, tail, rfl⟩ := exists_of_decode? hd
    obtain ⟨hv, htype, hservice, hmessage, -⟩ := decode?_cons_eq_ok_iff.mp hd
    refine ⟨?_, ?_, ⟨h.type, ?_⟩, ⟨h.service, hservice⟩, ?_⟩
    · simp only [List.length_cons]
      omega
    · show b.toNat / 16 ≠ 0
      rw [← toNat_announcedVersion]
      exact fun h0 => hv (UInt8.toNat_inj.mp h0)
    · show b.toNat % 8 = _
      rw [← toNat_and_seven, htype]
    · show 2 ≤ b.toNat / 16 → _
      intro h2
      have htail := congrArg List.length (encode_messageField hmessage)
      rw [if_pos (two_le_announcedVersion.mpr h2), List.length_append, Word.length_encode] at htail
      simp only [List.length_cons]
      omega
  · rintro ⟨hwhole, hversion, ⟨type, htype⟩, ⟨service, hservice⟩, hmessage⟩
    match bytes, hwhole with
    | b :: s :: detail :: session :: s₀ :: s₁ :: s₂ :: s₃ :: tail, _ =>
      change b.toNat / 16 ≠ 0 at hversion
      change b.toNat % 8 = type.code.toNat at htype
      change s = service.code at hservice
      change 2 ≤ b.toNat / 16 → _ at hmessage
      rw [← toNat_announcedVersion] at hversion
      rw [← toNat_and_seven, UInt8.toNat_inj] at htype
      have htail : 2 ≤ announcedVersion b → 4 ≤ tail.length := by
        intro h2
        have hlength := hmessage (two_le_announcedVersion.mp h2)
        simp only [List.length_cons] at hlength
        omega
      obtain ⟨message, rest, hfield⟩ := exists_messageField_of_le htail
      refine ⟨{ version := announcedVersion b, compressed := decide (b &&& 0x08 ≠ 0), type, service
                detail, session, size := Word.decode s₀ s₁ s₂ s₃, message }, rest, ?_⟩
      refine decode?_cons_eq_ok_iff.mpr ⟨?_, htype, hservice, hfield, rfl, rfl, rfl, rfl, rfl⟩
      exact fun h0 => hversion (by rw [h0]; rfl)

/-- **What was read is written as the bytes that it was read from.** -/
theorem eq_encode_append {bytes rest : Bytes} {h : Header} (hd : Header.decode? bytes = .ok (h, rest)) :
    bytes = h.encode ++ rest := by
  obtain ⟨b, s, detail, session, s₀, s₁, s₂, s₃, tail, rfl⟩ := exists_of_decode? hd
  obtain ⟨-, htype, hservice, hmessage, hversion, hcompressed, hdetail, hsession, hsize⟩ :=
    decode?_cons_eq_ok_iff.mp hd
  unfold Header.encode
  rw [firstByte_of_fields hversion hcompressed htype, ← hservice, hdetail, hsession, hsize,
    Word.encode_decode, hversion, List.append_assoc, ← encode_messageField hmessage]
  rfl

/-- The payload size that a header announces can be told without reading it. -/
theorem announcedSize_of_decode? {bytes rest : Bytes} {h : Header}
    (hd : Header.decode? bytes = .ok (h, rest)) : announcedSize bytes = some h.size := by
  obtain ⟨b, s, detail, session, s₀, s₁, s₂, s₃, tail, rfl⟩ := exists_of_decode? hd
  obtain ⟨hv, -, -, -, -, -, -, -, hsize⟩ := decode?_cons_eq_ok_iff.mp hd
  rw [hsize]
  exact if_neg hv

/-- **Reading and writing headers are inverse to each other.** Reading accepts exactly the strings of the grammar.
    It takes as many bytes as the header is long, which are the bytes that the header is written as, and
    announces the size that a first look finds there. Conversely, every header of a version from 1 to 15, without a
    message id in version 1, is read back as it was written, whatever follows it. -/
theorem header_codec_bijective :
    (∀ bytes, (∃ h rest, Header.decode? bytes = .ok (h, rest)) ↔ HeaderGrammar bytes)
      ∧ (∀ bytes h rest, Header.decode? bytes = .ok (h, rest) →
          h.Fits ∧ h.length ≤ bytes.length ∧ h.encode = bytes.take h.length
            ∧ rest = bytes.drop h.length ∧ announcedSize bytes = some h.size)
      ∧ ∀ h : Header, 1 ≤ h.version → h.version ≤ 15 → (h.version = 1 → h.message = 0) →
          ∀ rest, Header.decode? (h.encode ++ rest) = .ok (h, rest) := by
  refine ⟨fun bytes => exists_decode?_iff, ?_, ?_⟩
  · intro bytes h rest hd
    have hbytes := eq_encode_append hd
    have hlength := h.length_encode
    refine ⟨fits_of_decode? hd, ?_, ?_, ?_, announcedSize_of_decode? hd⟩
    · rw [hbytes, List.length_append, hlength]
      exact Nat.le_add_right _ _
    · rw [hbytes, ← hlength, List.take_left]
    · conv_rhs => rw [hbytes, ← hlength, List.drop_left]
  · intro h h1 h15 hmessage rest
    refine decode?_encode ⟨h1, h15, fun h2 => hmessage (UInt8.le_antisymm ?_ h1)⟩ rest
    rw [UInt8.le_iff_toNat_le] at h2 ⊢
    exact Nat.le_of_lt_succ (Nat.not_le.mp h2)

/-- A compressed header of version 15 with the largest numbers; without its last byte it is none. -/
theorem header_codec_bijective_largest :
    let h : Header := { version := 15, compressed := true, type := .consecutive, service := .bulk
                        detail := 255, session := 255, size := 0xFFFFFFFF, message := 0xFFFFFFFF }
    let bytes : Bytes := [0xFB, 0x0F, 0xFF, 0xFF, 0xFF, 0xFF, 0xFF, 0xFF, 0xFF, 0xFF, 0xFF, 0xFF]
    Header.decode? (h.encode ++ [1, 2]) = .ok (h, [1, 2])
      ∧ (HeaderGrammar bytes ∧ h.encode = bytes.take h.length ∧ announcedSize bytes = some h.size)
      ∧ ¬ HeaderGrammar bytes.dropLast := by
  intro h bytes
  obtain ⟨hgrammar, hread, hwritten⟩ := header_codec_bijective
  have hd : Header.decode? bytes = .ok (h, []) := by decide
  obtain ⟨-, -, hencode, -, hsize⟩ := hread bytes h [] hd
  refine ⟨hwritten h (by decide) (by decide) (by decide) [1, 2],
    ⟨(hgrammar bytes).mp ⟨h, [], hd⟩, hencode, hsize⟩, ?_⟩
  intro hg
  obtain ⟨h', rest, hd'⟩ := (hgrammar _).mpr hg
  have herror : Header.decode? bytes.dropLast = .error (.messageMissing 15) := by decide
  rw [herror] at hd'
  cases hd'

end HeadLink
