import HeadLink.Frame.Basic
import Mathlib.Data.Fin.Basic

/-!
# Reading back what was written

The layout of a header has four bits for the version and, in version 1, no place for a message id.
A header within these limits (`Header.Fits`) is read back exactly as it was written, whatever follows
it (`decode?_encode`); conversely, every header that is read is within them (`fits_of_decode?`).

The limits matter to the sending side alone: a header is built from the version of a session, which
was itself read from a header.

## Contents
- **Words.** `bigEndian`, the number that some bytes stand for.
- **The first byte.** Three fields share it; each is found again (`firstByte_fields`).
- **Single bytes.** What it takes to read a header (`decode?_cons_eq_ok_iff`); both directions start from it.
- **Round trip.** `Header.Fits`, `decode?_encode`, `fits_of_decode?`.
-/

namespace HeadLink

/-! ## Words -/

/-- The number that bytes stand for, most significant byte first. -/
def bigEndian (bytes : Bytes) : Nat := bytes.foldl (fun n b => n * 256 + b.toNat) 0

/-- A word is the number that its four bytes stand for. -/
theorem toNat_decode (a b c d : UInt8) : (Word.decode a b c d).toNat = bigEndian [a, b, c, d] := by
  have ha := a.toNat_lt
  have hb := b.toNat_lt
  have hc := c.toNat_lt
  have hd := d.toNat_lt
  simp only [Word.decode, bigEndian, List.foldl, UInt32.toNat_ofNat']
  omega

/-- A length below the number of words is the number of its word. -/
theorem toNat_ofNat_of_lt {n : Nat} (h : n < Word.count) : (UInt32.ofNat n).toNat = n := by
  rw [UInt32.toNat_ofNat']
  exact Nat.mod_eq_of_lt h

/-! ## The first byte

Four bits for the version, one for the compression flag, three for the frame type. There are few
enough values to go through all of them. -/

/-- A version of four bits is one of sixteen. -/
theorem exists_fin_of_le {version : UInt8} (h : version ≤ 15) :
    ∃ n : Fin 16, version = UInt8.ofNat n.val := by
  have hlt : version.toNat < 16 := Nat.lt_succ_of_le (UInt8.le_iff_toNat_le.mp h)
  refine ⟨⟨version.toNat, hlt⟩, ?_⟩
  show version = UInt8.ofNat version.toNat
  rw [UInt8.ofNat_toNat]

/-- **The first byte keeps its three fields apart.** -/
theorem firstByte_fields {h : Header} (hv : h.version ≤ 15) :
    announcedVersion h.firstByte = h.version ∧ h.firstByte &&& 0x07 = h.type.code
      ∧ decide (h.firstByte &&& 0x08 ≠ 0) = h.compressed := by
  obtain ⟨n, hn⟩ := exists_fin_of_le hv
  unfold announcedVersion Header.firstByte
  rw [hn]
  clear hn
  cases h.compressed <;> cases h.type <;> revert n <;> decide

/-- The high four bits, as a number. -/
theorem toNat_announcedVersion (b : UInt8) : (announcedVersion b).toNat = b.toNat / 16 := by
  rw [announcedVersion, UInt8.toNat_shiftRight]
  exact Nat.shiftRight_eq_div_pow b.toNat 4

/-- Four bits are left for the version. -/
theorem announcedVersion_le (b : UInt8) : announcedVersion b ≤ 15 := by
  rw [UInt8.le_iff_toNat_le, toNat_announcedVersion]
  have hb := b.toNat_lt
  show b.toNat / 16 ≤ 15
  omega

/-! ## Single bytes -/

/-- **What a successful read says of the single bytes.** -/
theorem decode?_cons_eq_ok_iff {b s detail session s₀ s₁ s₂ s₃ : UInt8} {tail rest : Bytes}
    {h : Header} :
    Header.decode? (b :: s :: detail :: session :: s₀ :: s₁ :: s₂ :: s₃ :: tail) = .ok (h, rest) ↔
      announcedVersion b ≠ 0 ∧ b &&& 0x07 = h.type.code ∧ s = h.service.code
        ∧ messageField (announcedVersion b) tail = .ok (h.message, rest)
        ∧ h.version = announcedVersion b ∧ h.compressed = decide (b &&& 0x08 ≠ 0) ∧ h.detail = detail
        ∧ h.session = session ∧ h.size = Word.decode s₀ s₁ s₂ s₃ := by
  rw [← FrameType.ofCode?_eq_some_iff, ← ServiceType.ofCode?_eq_some_iff]
  constructor
  · intro hd
    unfold Header.decode? at hd
    dsimp only at hd
    split at hd
    · cases hd
    · rename_i hv
      split at hd
      · cases hd
      · rename_i type htype
        split at hd
        · cases hd
        · rename_i service hservice
          split at hd
          · cases hd
          · rename_i message rest' hmessage
            cases hd
            exact ⟨hv, htype, hservice, hmessage, rfl, rfl, rfl, rfl, rfl⟩
  · rintro ⟨hv, htype, hservice, hmessage, hversion, hcompressed, hdetail, hsession, hsize⟩
    obtain ⟨version, compressed, type, service, detail', session', size, message⟩ := h
    dsimp only at hversion hcompressed hdetail hsession hsize
    subst hversion hcompressed hdetail hsession hsize
    unfold Header.decode?
    dsimp only
    rw [if_neg hv, htype, hservice]
    dsimp only
    rw [hmessage]

/-- Only strings of eight bytes or more are headers. -/
theorem exists_of_decode? {bytes rest : Bytes} {h : Header} (hd : Header.decode? bytes = .ok (h, rest)) :
    ∃ b s detail session s₀ s₁ s₂ s₃ tail,
      bytes = b :: s :: detail :: session :: s₀ :: s₁ :: s₂ :: s₃ :: tail := by
  unfold Header.decode? at hd
  split at hd
  · exact ⟨_, _, _, _, _, _, _, _, _, rfl⟩
  · cases hd

/-! ## Round trip -/

/-- What a header has to keep to so that the layout can carry it: a version other than 0 in four bits,
    and no message id where there is no place for it. -/
structure Header.Fits (h : Header) : Prop where
  one_le : 1 ≤ h.version
  le_fifteen : h.version ≤ 15
  message_eq : ¬ 2 ≤ h.version → h.message = 0

theorem Header.Fits.version_ne_zero {h : Header} (hf : h.Fits) : h.version ≠ 0 := by
  intro h0
  have h1 := UInt8.le_iff_toNat_le.mp hf.one_le
  rw [h0] at h1
  exact absurd h1 (by decide)

/-- The message id is read back, or was 0 in a version that has none. -/
theorem messageField_encode {h : Header} (hf : h.Fits) (rest : Bytes) :
    messageField h.version ((if 2 ≤ h.version then Word.encode h.message else []) ++ rest)
      = .ok (h.message, rest) := by
  unfold messageField
  by_cases hv : 2 ≤ h.version
  · rw [if_pos hv, if_pos hv]
    show Except.ok (Word.decode _ _ _ _, rest) = _
    rw [Word.decode_encode]
  · rw [if_neg hv, if_neg hv, hf.message_eq hv]
    rfl

/-- **A header is read back as it was written**, and what follows it is left. -/
theorem decode?_encode {h : Header} (hf : h.Fits) (rest : Bytes) :
    Header.decode? (h.encode ++ rest) = .ok (h, rest) := by
  obtain ⟨hversion, htype, hcompressed⟩ := firstByte_fields hf.le_fifteen
  refine decode?_cons_eq_ok_iff.mpr ⟨?_, htype, rfl, ?_, hversion.symm, hcompressed.symm, rfl, rfl, ?_⟩
  · rw [hversion]
    exact hf.version_ne_zero
  · rw [hversion]
    exact messageField_encode hf rest
  · exact (Word.decode_encode h.size).symm

/-- Where a version has no message id, the one that is read is 0. -/
theorem messageField_eq_zero {version : UInt8} {bytes rest : Bytes} {message : UInt32}
    (h : messageField version bytes = .ok (message, rest)) (hv : ¬ 2 ≤ version) : message = 0 := by
  unfold messageField at h
  rw [if_neg hv] at h
  injection h with h
  injection h with h _
  exact h.symm

/-- **A header that is read fits the layout.** -/
theorem fits_of_decode? {bytes rest : Bytes} {h : Header}
    (hd : Header.decode? bytes = .ok (h, rest)) : h.Fits := by
  obtain ⟨b, s, detail, session, s₀, s₁, s₂, s₃, tail, rfl⟩ := exists_of_decode? hd
  obtain ⟨hv, -, -, hmessage, hversion, -⟩ := decode?_cons_eq_ok_iff.mp hd
  rw [← hversion] at hv hmessage
  refine ⟨?_, hversion ▸ announcedVersion_le b, messageField_eq_zero hmessage⟩
  rw [UInt8.le_iff_toNat_le]
  exact Nat.pos_of_ne_zero fun h0 => hv (UInt8.toNat_inj.mp h0)

end HeadLink
