import HeadLink.Proofs.Contiguity
import HeadLink.Proofs.MessageRoundTrip

/-!
# What a message is split into

Splitting a payload is deciding where the cuts are, and marking the last part. The cuts are at the multiples of
the budget: the part with the index `i` is what stands there, up to the budget (`getElem?_pieces`). Everything
else that is said about the parts follows from that: how many there are (`length_pieces`, rounded up), that all
of them are full but possibly the last, and that none is empty, also if the payload ends at a multiple of the
budget.

The number of parts is written into the announcement before there are any parts, so it is one more thing to
agree with them, and so is the size, which is read back on the other side less the header
(`Reassembly.announcedLength_announcement`).

## Contents
- **Pieces.** `getElem?_pieces`, `length_pieces`, `length_getElem_pieces`.
- **Consecutive frames.** `getElem_consecutiveFrames`, `map_payload_consecutiveFrames`.
- **Splits.** `Envelope.Split`, `Envelope.split_frames`.
- **All outcomes.** `segments_structure`.
-/

namespace HeadLink

/-! ## Pieces -/

section Pieces

variable {α : Type} {size : Nat}

/-- **The pieces are cut at the multiples of the size.** The induction is on the pieces; each one moves the
    index of the rest by one and the place in the list by the size. -/
theorem getElem?_pieces (hs : 1 ≤ size) (xs : List α) (i : Nat) :
    (pieces size xs)[i]?
      = if i * size < xs.length then some ((xs.drop (i * size)).take size) else none := by
  obtain ⟨k, rfl⟩ : ∃ k, size = k + 1 := ⟨size - 1, by omega⟩
  fun_induction pieces (k + 1) xs generalizing i with
  | case1 => rfl
  | case2 x xs ih =>
    cases i with
    | zero =>
      rw [Nat.zero_mul, List.length_cons, if_pos (Nat.succ_pos _)]
      rfl
    | succ i =>
      have hplace : (i + 1) * (k + 1) = k + i * (k + 1) + 1 := by
        rw [Nat.succ_mul]
        omega
      rw [List.getElem?_cons_succ, ih i, hplace, List.drop_succ_cons, List.length_cons, List.length_drop,
        Nat.add_sub_cancel, List.drop_drop]
      exact if_congr (by omega) rfl rfl

/-- There is a piece at every multiple of the size below the length. -/
theorem lt_length_pieces_iff (hs : 1 ≤ size) (xs : List α) (i : Nat) :
    i < (pieces size xs).length ↔ i * size < xs.length := by
  rw [← Nat.not_le, ← List.getElem?_eq_none_iff, getElem?_pieces hs]
  split
  · rename_i hlt
    exact iff_of_true (Option.some_ne_none _) hlt
  · rename_i hle
    exact iff_of_false (fun hnot => hnot rfl) hle

/-- **There are as many pieces as the length divided by the size, rounded up.** -/
theorem length_pieces (hs : 1 ≤ size) (xs : List α) :
    (pieces size xs).length = (xs.length + size - 1) / size := by
  refine eq_of_forall_lt_iff fun i => ?_
  rw [lt_length_pieces_iff hs, Nat.lt_iff_add_one_le, Nat.lt_iff_add_one_le, Nat.le_div_iff_mul_le hs,
    Nat.succ_mul]
  omega

theorem getElem_pieces (hs : 1 ≤ size) {xs : List α} {i : Nat} (hi : i < (pieces size xs).length) :
    (pieces size xs)[i] = (xs.drop (i * size)).take size := by
  have h := getElem?_pieces hs xs i
  rwa [List.getElem?_eq_getElem hi, if_pos ((lt_length_pieces_iff hs xs i).mp hi), Option.some.injEq] at h

/-- **All pieces are full but possibly the last.** -/
theorem length_getElem_pieces (hs : 1 ≤ size) {xs : List α} {i : Nat} (hi : i + 1 < (pieces size xs).length) :
    ((pieces size xs)[i]).length = size := by
  have hnext := (lt_length_pieces_iff hs xs (i + 1)).mp hi
  rw [Nat.succ_mul] at hnext
  rw [getElem_pieces hs, List.length_take, List.length_drop]
  omega

end Pieces

/-! ## Consecutive frames -/

/-- A word is the number that it is written as. -/
theorem bigEndian_encode (n : UInt32) : bigEndian (Word.encode n) = n.toNat := by
  unfold Word.encode
  rw [← toNat_decode, Word.decode_encode]

namespace Envelope

/-- **Exactly the last consecutive frame is marked as the last**, and each carries the part with its index. -/
theorem getElem_consecutiveFrames {e : Envelope} {parts : List Bytes} {i : Nat}
    (hi : i < (e.consecutiveFrames parts).length) (hp : i < parts.length) :
    (e.consecutiveFrames parts)[i]
      = e.frame .consecutive (if i + 1 = parts.length then Header.lastDetail else Header.moreDetail)
          parts[i] := by
  fun_induction e.consecutiveFrames parts generalizing i with
  | case1 => exact absurd hp (Nat.not_lt_zero i)
  | case2 part =>
    obtain rfl : i = 0 := Nat.lt_one_iff.mp hp
    rfl
  | case3 part parts hne ih =>
    have hpos : parts.length ≠ 0 := fun h0 => hne (List.length_eq_zero_iff.mp h0)
    cases i with
    | zero =>
      rw [if_neg (by rw [List.length_cons]; omega)]
      rfl
    | succ i =>
      simp only [List.getElem_cons_succ, List.length_cons, Nat.add_right_cancel_iff]
      exact ih _ _

/-- Each part travels in one frame. -/
theorem map_payload_consecutiveFrames (e : Envelope) (parts : List Bytes) :
    (e.consecutiveFrames parts).map Frame.payload = parts := by
  fun_induction e.consecutiveFrames parts with
  | case1 => rfl
  | case2 part => rfl
  | case3 part parts hne ih => rw [List.map_cons, ih]; rfl

/-! ## Splits -/

/-- A payload that is longer than the budget, split: an announcement of its size and of the number of parts, and
    the parts. -/
structure Split (payload : Bytes) (budget : Nat) (first : Frame) (parts : List Frame) : Prop where
  first_type : first.header.type = .first
  first_length : first.payload.length = 8
  /-- What the receiver takes for the size of the message. -/
  announces_size : Reassembly.announcedLength first.header first.payload = some payload.length
  announces_parts : bigEndian (first.payload.drop 4) = parts.length
  length_parts : parts.length = (payload.length + budget - 1) / budget
  flatten_parts : (parts.map Frame.payload).flatten = payload
  type : ∀ f ∈ parts, f.header.type = .consecutive
  ne_nil : ∀ f ∈ parts, f.payload ≠ []
  length_le : ∀ f ∈ parts, f.payload.length ≤ budget
  full : ∀ i (hi : i < parts.length), i + 1 < parts.length → (parts[i]).payload.length = budget
  detail : ∀ i (hi : i < parts.length), (parts[i]).header.detail = if i + 1 = parts.length then 0 else 1

/-- The second word of an announcement is the number of parts. -/
theorem bigEndian_announcement (e : Envelope) (size : Nat) {parts : Nat} (h : parts < Word.count) :
    bigEndian ((e.announcement size parts).drop 4) = parts :=
  (bigEndian_encode _).trans (toNat_ofNat_of_lt h)

/-- **The frames of a long payload are a split of it.** -/
theorem split_frames (e : Envelope) {payload : Bytes} {budget : Nat} (hb : announcementLength ≤ budget)
    (hc : payload.length + headerLength e.version < Word.count) :
    Split payload budget (e.frame .first 0 (e.announcement payload.length (pieces budget payload).length))
      (e.consecutiveFrames (pieces budget payload)) := by
  have hs : 1 ≤ budget := Nat.le_trans (by decide) hb
  have hlength := e.length_consecutiveFrames (pieces budget payload)
  have hcount := length_pieces_le budget payload
  refine
    { first_type := rfl
      first_length := rfl
      announces_size := Reassembly.announcedLength_announcement e _ hc
      announces_parts := ?_
      length_parts := hlength.trans (length_pieces hs payload)
      flatten_parts := ?_
      type := ?_
      ne_nil := ?_
      length_le := ?_
      full := ?_
      detail := ?_ }
  · rw [hlength]
    exact bigEndian_announcement e _ (by omega)
  · rw [map_payload_consecutiveFrames, flatten_pieces]
  · intro f hf
    obtain ⟨detail, part, -, rfl⟩ := exists_of_mem_consecutiveFrames hf
    rfl
  · intro f hf
    obtain ⟨detail, part, hpart, rfl⟩ := exists_of_mem_consecutiveFrames hf
    exact ne_nil_of_mem_pieces hpart
  · intro f hf
    obtain ⟨detail, part, hpart, rfl⟩ := exists_of_mem_consecutiveFrames hf
    exact length_le_of_mem_pieces hs hpart
  · intro i hi hnext
    rw [hlength] at hnext
    rw [getElem_consecutiveFrames hi (Nat.lt_of_succ_lt hnext)]
    exact length_getElem_pieces hs hnext
  · intro i hi
    have hp := hi
    rw [hlength] at hp
    rw [getElem_consecutiveFrames hi hp, hlength]
    rfl

/-! ## All outcomes -/

/-- A budget is refused exactly if an announcement does not fit into it. -/
theorem segments_eq_tooSmall_iff {e : Envelope} {payload : Bytes} {budget : Nat} :
    e.segments payload budget = .error (.argument (.frameBudgetTooSmall budget)) ↔ budget < 8 := by
  constructor
  · intro h
    unfold segments at h
    split at h
    · assumption
    · split at h
      · cases h
      · split at h <;> cases h
  · exact fun hb => if_pos hb

/-- A payload is refused exactly if, in a budget that is not refused, its total is no word. -/
theorem segments_eq_tooLarge_iff {e : Envelope} {payload : Bytes} {budget : Nat} :
    e.segments payload budget = .error (.tooLarge payload.length)
      ↔ 8 ≤ budget ∧ Word.count ≤ payload.length + headerLength e.version := by
  constructor
  · intro h
    unfold segments at h
    split at h
    · cases h
    · rename_i hb
      split at h
      · rename_i hc
        exact ⟨Nat.not_lt.mp hb, hc⟩
      · split at h <;> cases h
  · rintro ⟨hb, hc⟩
    unfold segments
    rw [if_neg (show ¬ budget < announcementLength from Nat.not_lt.mpr hb)]
    exact if_pos hc

/-- All frames of a message carry its envelope, and announce as much payload as they have. -/
theorem size_of_segments {e : Envelope} {payload : Bytes} {budget : Nat} {frames : List Frame}
    (h : e.segments payload budget = .ok frames) :
    ∀ f ∈ frames, e.Carries f ∧ f.header.size.toNat = f.payload.length := by
  intro f hf
  refine ⟨carries_of_segments h f hf, ?_⟩
  obtain ⟨hb, hc⟩ := bounds_of_segments h
  -- a budget that is no word is above the payload, which then goes into one frame
  by_cases hle : payload.length ≤ budget
  · rw [segments_eq hb hc, if_pos hle] at h
    cases h
    rw [List.mem_singleton.mp hf]
    exact toNat_ofNat_of_lt (by omega)
  · obtain ⟨type, detail, part, rfl, hpart⟩ := exists_of_mem_segments h hf
    exact toNat_ofNat_of_lt (by omega)

end Envelope

/-- **The structure of a message that is split.** A budget below 8 is refused, and else a payload whose total is no
    word. Whatever is not refused is split: into one frame with all of it if it is within the budget, and else into
    a first frame and the parts that it announces. All frames carry the envelope of the message, and announce as
    much payload as they have. -/
theorem segments_structure (e : Envelope) (payload : Bytes) (budget : Nat) :
    (e.segments payload budget = .error (.argument (.frameBudgetTooSmall budget)) ↔ budget < 8)
      ∧ (e.segments payload budget = .error (.tooLarge payload.length)
          ↔ 8 ≤ budget ∧ Word.count ≤ payload.length + headerLength e.version)
      ∧ (8 ≤ budget → payload.length + headerLength e.version < Word.count →
          ∃ frames, e.segments payload budget = .ok frames
            ∧ (∀ f ∈ frames, e.Carries f ∧ f.header.size.toNat = f.payload.length)
            ∧ if payload.length ≤ budget then
                ∃ f, frames = [f] ∧ f.header.type = .single ∧ f.payload = payload
              else ∃ first parts, frames = first :: parts
                ∧ Envelope.Split payload budget first parts) := by
  refine ⟨Envelope.segments_eq_tooSmall_iff, Envelope.segments_eq_tooLarge_iff, fun hb hc => ?_⟩
  have h := Envelope.segments_eq hb hc
  refine ⟨_, h, Envelope.size_of_segments h, ?_⟩
  by_cases hle : payload.length ≤ budget
  · rw [if_pos hle, if_pos hle]
    exact ⟨_, rfl, rfl, rfl⟩
  · rw [if_neg hle, if_neg hle]
    exact ⟨_, _, rfl, e.split_frames hb hc⟩

/-- Sixteen bytes in a budget of 8 are two full parts; a byte more makes a third part. -/
theorem segments_structure_multiple :
    let e : Envelope := { version := 2, service := .rpc, session := 7, message := 9 }
    ∀ payload : Bytes, payload.length = 16 ∨ payload.length = 17 →
      ∃ first parts, e.segments payload 8 = .ok (first :: parts)
        ∧ Envelope.Split payload 8 first parts ∧ parts.length = payload.length - 14 := by
  intro e payload hlength
  obtain ⟨-, -, h⟩ := segments_structure e payload 8
  have htotal : payload.length + headerLength e.version < Word.count := by
    have := headerLength_le_twelve e.version
    unfold Word.count
    omega
  obtain ⟨frames, hframes, -, hsplit⟩ := h (by decide) htotal
  rw [if_neg (by omega)] at hsplit
  obtain ⟨first, parts, rfl, hsplit⟩ := hsplit
  refine ⟨first, parts, hframes, hsplit, ?_⟩
  have hparts := hsplit.length_parts
  omega

end HeadLink
