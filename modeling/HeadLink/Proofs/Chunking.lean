import HeadLink.Frame.Deframer
import HeadLink.Proofs.HeaderCodec

/-!
# Chunks do not matter

A deframer takes as many bytes off a chunk as its phase calls for. Where a chunk ends in the middle of
a header or of a payload, the next pass goes on with what is missing. So it comes to the same whether
bytes arrive in one chunk or in several.

The idea is to compare a pass over a chunk with a pass over its first byte alone (`push_cons_eq`): if
the phase calls for more than that byte, the rest of the chunk is what the next pass gets to see. The
comparison needs what every deframer keeps to (`Deframer.Sound`): a phase always calls for at least one
byte more.

## Contents
- **What a deframer keeps to.** `Deframer.Sound`, kept by every pass (`sound_pass`).
- **One byte.** `push_cons`; `Deframer.StartsAlike`, phase by phase; `push_cons_eq`.
- **Chunks.** `Deframer.pushAll` pushes chunks one after the other; `push_append`, `pushAll_eq_push`. The
  frames that arrive fit (`fits_of_mem_push`).
- **Reachable deframers.** `Deframer.Reachable`.
-/

namespace HeadLink

/-- A frame that a receiver with the given ceiling takes: its header fits the layout and announces the
    payload that it has. -/
structure Frame.Fits (f : Frame) (ceiling : UInt32) : Prop where
  header : f.header.Fits
  size : f.header.size.toNat = f.payload.length
  within : f.header.size ≤ ceiling

namespace Deframer

/-! ## What a deframer keeps to -/

/-- **A phase that calls for more.** A header that is under way is incomplete and sized by the version
    that its first byte announced; a payload that is under way is incomplete, and its header was read
    off the stream and accepted; there is something left to skip. -/
def Sound (d : Deframer) : Prop :=
  match d.phase with
  | .header got => got.length < headerLength d.version
      ∧ ∀ b ∈ got.head?, announcedVersion b ≠ 0 → announcedVersion b = d.version
  | .payload header collected => collected.size < header.size.toNat
      ∧ header.size ≤ d.ceiling ∧ header.Fits
  | .skipping remaining => 0 < remaining

/-- A deframer in front of a header is sound. -/
theorem sound_of_header_nil {d : Deframer} (h : d.phase = .header []) : d.Sound := by
  unfold Sound
  rw [h]
  exact ⟨Nat.lt_of_lt_of_le (by decide) (eight_le_headerLength d.version), by simp⟩

/-- A deframer in front of a header is where it would start again. -/
theorem restart_of_header_nil {d : Deframer} (h : d.phase = .header []) : d.restart = d := by
  unfold restart
  rw [← h]

theorem sound_skip (d : Deframer) (size : Nat) : (d.skip size).Sound := by
  by_cases h : size = 0
  · exact sound_of_header_nil (by simp [skip, h])
  · show (Deframer.Sound { d with phase := _ })
    unfold Sound
    rw [if_neg h]
    exact Nat.pos_of_ne_zero h

theorem ceiling_adopt (d : Deframer) (b : UInt8) : (d.adopt b).ceiling = d.ceiling := by
  unfold adopt
  split <;> rfl

/-- A version that is announced is adopted. -/
theorem version_adopt {d : Deframer} {b : UInt8} (h : announcedVersion b ≠ 0) :
    (d.adopt b).version = announcedVersion b := by
  unfold adopt
  rw [if_neg h]

/-- Version 0 is not adopted. -/
theorem adopt_of_eq_zero {d : Deframer} {b : UInt8} (h : announcedVersion b = 0) : d.adopt b = d := by
  unfold adopt
  rw [if_pos h]

theorem check_eq_ok_iff {h : Header} {ceiling : UInt32} :
    h.check ceiling = .ok () ↔ h.size ≤ ceiling := by
  unfold Header.check
  rw [← UInt32.not_lt]
  split <;> simp_all

theorem sound_closeHeader (d : Deframer) (bytes rest : Bytes) :
    (d.closeHeader bytes rest).deframer.Sound := by
  unfold closeHeader
  split
  · exact sound_skip d _
  · rename_i header _ hd
    split
    · exact sound_skip d _
    · rename_i hc
      split
      · exact sound_of_header_nil rfl
      · rename_i hz
        have hpos : header.size.toNat ≠ 0 := fun h0 => hz (UInt32.toNat_inj.mp h0)
        exact ⟨Nat.pos_of_ne_zero hpos, check_eq_ok_iff.mp hc, fits_of_decode? hd⟩

/-- A pass over header bytes keeps a deframer sound, provided the version fits the header's first
    byte. -/
theorem sound_passHeader {d : Deframer} {got : Bytes} {b : UInt8} (rest : Bytes)
    (h : ∀ x ∈ (got ++ [b]).head?, announcedVersion x ≠ 0 → announcedVersion x = d.version) :
    (d.passHeader got b rest).deframer.Sound := by
  unfold passHeader
  dsimp only
  split
  · rename_i hlt
    refine ⟨hlt, ?_⟩
    intro x hx
    refine h x ?_
    cases got <;> simpa using hx
  · exact sound_closeHeader d _ _

theorem sound_passPayload {d : Deframer} {header : Header} {collected : Array UInt8} {b : UInt8}
    (rest : Bytes) (hc : header.size ≤ d.ceiling) (hf : header.Fits) :
    (d.passPayload header collected b rest).deframer.Sound := by
  unfold passPayload
  dsimp only
  split
  · rename_i hlt
    exact ⟨hlt, hc, hf⟩
  · exact sound_of_header_nil rfl

/-- **Every pass keeps a deframer sound.** -/
theorem sound_pass {d : Deframer} (h : d.Sound) (b : UInt8) (rest : Bytes) :
    (d.pass b rest).deframer.Sound := by
  unfold Sound at h
  unfold pass
  dsimp only
  cases hphase : d.phase with
  | header got =>
    rw [hphase] at h
    refine sound_passHeader rest ?_
    intro x hx hx0
    cases got with
    | nil =>
      -- `b` is the first byte, and what it announces was adopted before the header was sized
      obtain rfl : b = x := by simpa using hx
      exact (version_adopt hx0).symm
    | cons y ys => exact h.2 x (by simpa using hx) hx0
  | payload header collected =>
    rw [hphase] at h
    exact sound_passPayload rest h.2.1 h.2.2
  | skipping remaining => exact sound_skip _ _

/-! ## One byte -/

/-- What arrives is added to what has arrived. -/
theorem pushOnto_eq (d : Deframer) (arrivals : Array Arrival) :
    ∀ chunk : Bytes, d.pushOnto arrivals chunk
      = ((d.pushOnto #[] chunk).1, arrivals ++ (d.pushOnto #[] chunk).2)
  | [] => by simp [pushOnto]
  | b :: rest => by
    have hlt := length_rest_pass_lt d b rest
    -- both sides make the same pass, and go on with what it leaves
    rw [pushOnto, pushOnto_eq _ _ (d.pass b rest).rest]
    conv => rhs; rw [pushOnto, pushOnto_eq _ _ (d.pass b rest).rest]
    refine Prod.ext rfl (Array.ext' ?_)
    simp
termination_by chunk => chunk.length
decreasing_by all_goals exact length_rest_pass_lt d b rest

@[simp] theorem push_nil (d : Deframer) : d.push [] = (d, []) := by
  simp [push, pushOnto]

/-- Pushing a chunk is a pass over its front and pushing what is left. -/
theorem push_cons (d : Deframer) (b : UInt8) (rest : Bytes) :
    d.push (b :: rest) = (((d.pass b rest).deframer.push (d.pass b rest).rest).1,
      (d.pass b rest).arrival.toList ++ ((d.pass b rest).deframer.push (d.pass b rest).rest).2) := by
  unfold push
  rw [pushOnto, pushOnto_eq]
  simp

/-- A pass over a single byte leaves nothing. -/
theorem rest_pass_singleton (d : Deframer) (b : UInt8) : (d.pass b []).rest = [] := by
  have h := length_rest_pass_lt d b []
  exact List.length_eq_zero_iff.mp (Nat.lt_one_iff.mp h)

/-! ### A pass over more bytes than one -/

/-- A header that calls for more than `b` goes on with what follows. -/
theorem passHeader_cons {d : Deframer} {got : Bytes} {b : UInt8} (c : UInt8) (rest : Bytes)
    (h : got.length + 1 < headerLength d.version) :
    d.passHeader got b (c :: rest) = d.passHeader (got ++ [b]) c rest := by
  have hm : headerLength d.version - (got.length + 1)
      = headerLength d.version - ((got ++ [b]).length + 1) + 1 := by
    rw [List.length_append, List.length_singleton]
    omega
  unfold passHeader
  rw [hm]
  simp only [List.take_succ_cons, List.drop_succ_cons, List.append_assoc, List.singleton_append]

/-- A header that calls for more than `b`, alone in its chunk, is under way. -/
theorem passHeader_nil {d : Deframer} {got : Bytes} {b : UInt8}
    (h : got.length + 1 < headerLength d.version) :
    d.passHeader got b [] = { deframer := { d with phase := .header (got ++ [b]) }, rest := [] } := by
  have hl : (got ++ [b]).length < headerLength d.version := by
    rw [List.length_append, List.length_singleton]
    exact h
  unfold passHeader
  simp only [List.take_nil, List.drop_nil, hl, if_true]

/-- A header that calls for no more than `b` takes nothing of what follows. -/
theorem passHeader_last {d : Deframer} {got : Bytes} {b : UInt8} (rest : Bytes)
    (h : headerLength d.version ≤ got.length + 1) :
    d.passHeader got b rest = { d.passHeader got b [] with rest := rest } := by
  have hm : headerLength d.version - (got.length + 1) = 0 := Nat.sub_eq_zero_of_le h
  have hl : ¬ (got ++ [b]).length < headerLength d.version := by
    rw [List.length_append, List.length_singleton]
    omega
  unfold passHeader
  rw [hm]
  simp only [List.take_zero, List.drop_zero, hl, if_false]
  unfold closeHeader
  split
  · rfl
  · split
    · rfl
    · split <;> rfl

/-- A payload that calls for more than `b` goes on with what follows. -/
theorem passPayload_cons {d : Deframer} {header : Header} {collected : Array UInt8} {b : UInt8}
    (c : UInt8) (rest : Bytes) (h : collected.size + 1 < header.size.toNat) :
    d.passPayload header collected b (c :: rest)
      = d.passPayload header (collected.push b) c rest := by
  have hm : header.size.toNat - (collected.size + 1)
      = header.size.toNat - ((collected.push b).size + 1) + 1 := by
    rw [Array.size_push]
    omega
  have hb : collected.push b ++ (c :: rest.take (header.size.toNat - ((collected.push b).size + 1)))
      = (collected.push b).push c
        ++ rest.take (header.size.toNat - ((collected.push b).size + 1)) := by
    apply Array.ext'
    simp
  unfold passPayload
  rw [hm]
  simp only [List.take_succ_cons, List.drop_succ_cons, hb]

/-- A payload that calls for more than `b`, alone in its chunk, is under way. -/
theorem passPayload_nil {d : Deframer} {header : Header} {collected : Array UInt8} {b : UInt8}
    (h : collected.size + 1 < header.size.toNat) :
    d.passPayload header collected b []
      = { deframer := { d with phase := .payload header (collected.push b) }, rest := [] } := by
  unfold passPayload
  simp only [List.take_nil, List.drop_nil, Array.appendList_nil, Array.size_push, h, if_true]

/-- A payload that calls for no more than `b` takes nothing of what follows. -/
theorem passPayload_last {d : Deframer} {header : Header} {collected : Array UInt8} {b : UInt8}
    (rest : Bytes) (h : header.size.toNat ≤ collected.size + 1) :
    d.passPayload header collected b rest
      = { d.passPayload header collected b [] with rest := rest } := by
  have hm : header.size.toNat - (collected.size + 1) = 0 := Nat.sub_eq_zero_of_le h
  have hl : ¬ (collected.push b ++ ([] : Bytes)).size < header.size.toNat := by
    simp only [Array.size_push, Array.appendList_nil]
    omega
  unfold passPayload
  rw [hm]
  simp only [List.take_zero, List.drop_zero, hl, if_false]

/-- Skipping that calls for more than one byte goes on with what follows. -/
theorem passSkipped_cons (d : Deframer) (n : Nat) (c : UInt8) (rest : Bytes) :
    d.passSkipped (n + 2) (c :: rest) = d.passSkipped (n + 1) rest := by
  have hl : n + 2 - (1 + ((c :: rest).take (n + 1)).length) = n + 1 - (1 + (rest.take n).length) := by
    rw [List.take_succ_cons, List.length_cons]
    omega
  unfold passSkipped
  show Pass.mk (d.skip (n + 2 - (1 + ((c :: rest).take (n + 1)).length))) none _ = _
  rw [hl]
  rfl

/-- How a pass over `b` and what follows it compares with a pass over `b` alone: either the phase calls for
    more, and what follows is what the next pass gets to see; or the phase ends with `b`, and what follows
    is left. -/
def StartsAlike (d : Deframer) (b c : UInt8) (rest : Bytes) : Prop :=
  ((d.pass b []).arrival = none ∧ d.pass b (c :: rest) = (d.pass b []).deframer.pass c rest)
    ∨ d.pass b (c :: rest) = { d.pass b [] with rest := c :: rest }

theorem startsAlike_header {d : Deframer} {got : Bytes} (hphase : d.phase = .header got) (b c : UInt8)
    (rest : Bytes) : d.StartsAlike b c rest := by
  unfold StartsAlike
  -- `f` is the deframer that sizes the header: the version of its first byte is adopted
  have hf (x : UInt8) (xs : Bytes) : d.pass x xs
      = (if got.isEmpty then d.restart.adopt x else d.restart).passHeader got x xs := by
    unfold pass
    rw [hphase]
  rw [hf, hf]
  -- it is in front of a header already, so the next pass finds it as this one did
  have hr : ∀ f, f = (if got.isEmpty then d.restart.adopt b else d.restart) → f.restart = f := by
    rintro f rfl
    split
    · unfold adopt
      split <;> rfl
    · rfl
  generalize (if got.isEmpty then d.restart.adopt b else d.restart) = f at hr
  by_cases hm : got.length + 1 < headerLength f.version
  · left
    rw [passHeader_nil hm]
    refine ⟨rfl, ?_⟩
    rw [passHeader_cons c rest hm]
    unfold pass
    have hne : (got ++ [b]).isEmpty = false := by simp
    simp only [hne]
    show _ = f.restart.passHeader (got ++ [b]) c rest
    rw [hr f rfl]
  · right
    exact passHeader_last _ (Nat.le_of_not_lt hm)

theorem startsAlike_payload {d : Deframer} {header : Header} {collected : Array UInt8}
    (hphase : d.phase = .payload header collected) (b c : UInt8) (rest : Bytes) :
    d.StartsAlike b c rest := by
  unfold StartsAlike
  have hf (x : UInt8) (xs : Bytes) : d.pass x xs = d.restart.passPayload header collected x xs := by
    unfold pass
    rw [hphase]
  rw [hf, hf]
  by_cases hm : collected.size + 1 < header.size.toNat
  · left
    rw [passPayload_nil hm]
    exact ⟨rfl, passPayload_cons c rest hm⟩
  · right
    exact passPayload_last _ (Nat.le_of_not_lt hm)

theorem startsAlike_skipping {d : Deframer} {remaining : Nat} (hphase : d.phase = .skipping remaining)
    (hpos : 0 < remaining) (b c : UInt8) (rest : Bytes) : d.StartsAlike b c rest := by
  unfold StartsAlike
  have hf (x : UInt8) (xs : Bytes) : d.pass x xs = d.restart.passSkipped remaining xs := by
    unfold pass
    rw [hphase]
  rw [hf, hf]
  -- there is at least one byte to skip, which is `b`
  obtain ⟨n, rfl⟩ := Nat.exists_eq_succ_of_ne_zero (Nat.pos_iff_ne_zero.mp hpos)
  cases n with
  | zero =>
    right
    rfl
  | succ n =>
    left
    refine ⟨rfl, ?_⟩
    rw [passSkipped_cons]
    rfl

/-- **A pass over a chunk starts like a pass over its first byte.** -/
theorem pass_cons {d : Deframer} (h : d.Sound) (b c : UInt8) (rest : Bytes) :
    d.StartsAlike b c rest := by
  unfold Sound at h
  cases hphase : d.phase with
  | header got => exact startsAlike_header hphase b c rest
  | payload header collected => exact startsAlike_payload hphase b c rest
  | skipping remaining =>
    rw [hphase] at h
    exact startsAlike_skipping hphase h b c rest

/-- **A pass over a chunk is a pass over its first byte, and then what follows.** -/
theorem push_cons_eq {d : Deframer} (h : d.Sound) (b : UInt8) (rest : Bytes) :
    d.push (b :: rest) = (((d.pass b []).deframer.push rest).1,
      (d.pass b []).arrival.toList ++ ((d.pass b []).deframer.push rest).2) := by
  cases rest with
  | nil => rw [push_cons, rest_pass_singleton]
  | cons c rest =>
    rcases pass_cons h b c rest with ⟨hnone, heq⟩ | heq
    · rw [push_cons d, heq, push_cons (d.pass b []).deframer, hnone]
      rfl
    · rw [push_cons d, heq]

/-! ## Chunks -/

/-- Pushes chunks one after the other and gives all that arrives. -/
def pushAll (d : Deframer) : List Bytes → Deframer × List Arrival
  | [] => (d, [])
  | chunk :: chunks =>
    let (d, arrivals) := d.push chunk
    let (d, more) := d.pushAll chunks
    (d, arrivals ++ more)

theorem pushAll_cons (d : Deframer) (chunk : Bytes) (chunks : List Bytes) :
    d.pushAll (chunk :: chunks) = (((d.push chunk).1.pushAll chunks).1,
      (d.push chunk).2 ++ ((d.push chunk).1.pushAll chunks).2) := rfl

/-- **Cutting a chunk in two changes nothing.** The induction follows the bytes before the cut; the
    deframer stays sound from byte to byte. -/
theorem push_append {d : Deframer} (h : d.Sound) (before after : Bytes) :
    d.push (before ++ after) = (((d.push before).1.push after).1,
      (d.push before).2 ++ ((d.push before).1.push after).2) := by
  induction before generalizing d with
  | nil => simp
  | cons b rest ih =>
    have hnext := sound_pass h b []
    rw [List.cons_append, push_cons_eq h, push_cons_eq h, ih hnext, List.append_assoc]

/-- Pushing keeps a deframer sound. -/
theorem sound_push {d : Deframer} (h : d.Sound) (chunk : Bytes) : (d.push chunk).1.Sound := by
  induction chunk generalizing d with
  | nil => simpa using h
  | cons b rest ih =>
    rw [push_cons_eq h]
    exact ih (sound_pass h b [])

/-- A frame that a complete header completes has no payload. -/
theorem fits_of_closeHeader {d : Deframer} {bytes rest : Bytes} {f : Frame}
    (hf : (d.closeHeader bytes rest).arrival = some (.ok f)) : f.Fits d.ceiling := by
  unfold closeHeader at hf
  split at hf
  · cases hf
  · rename_i hd
    split at hf
    · cases hf
    · rename_i hc
      split at hf
      · rename_i hz
        cases hf
        exact ⟨fits_of_decode? hd, by simp [hz], check_eq_ok_iff.mp hc⟩
      · cases hf

theorem fits_of_passHeader {d : Deframer} {got rest : Bytes} {b : UInt8} {f : Frame}
    (hf : (d.passHeader got b rest).arrival = some (.ok f)) : f.Fits d.ceiling := by
  unfold passHeader at hf
  dsimp only at hf
  split at hf
  · cases hf
  · exact fits_of_closeHeader hf

/-- A frame that payload bytes complete has the payload that its header announces. -/
theorem fits_of_passPayload {d : Deframer} {header : Header} {collected : Array UInt8} {b : UInt8} {rest : Bytes}
    {f : Frame} (hlt : collected.size < header.size.toNat) (hc : header.size ≤ d.ceiling) (hfits : header.Fits)
    (hf : (d.passPayload header collected b rest).arrival = some (.ok f)) : f.Fits d.ceiling := by
  unfold passPayload at hf
  dsimp only at hf
  split at hf
  · cases hf
  · rename_i hall
    cases hf
    refine ⟨hfits, ?_, hc⟩
    -- a pass takes no more bytes than the payload calls for
    have hsize (n : Nat) : (collected.push b ++ rest.take n).size = collected.size + 1 + min n rest.length := by
      rw [← Array.length_toList, Array.toList_appendList, List.length_append, Array.length_toList, Array.size_push,
        List.length_take]
    rw [hsize] at hall
    show header.size.toNat = _
    rw [Array.length_toList, hsize]
    omega

/-- **A frame that a pass completes fits**: its header was accepted, and it has the payload that the header
    announces. -/
theorem fits_of_pass {d : Deframer} (h : d.Sound) {b : UInt8} {rest : Bytes} {f : Frame}
    (hf : (d.pass b rest).arrival = some (.ok f)) : f.Fits d.ceiling := by
  unfold Sound at h
  unfold pass at hf
  dsimp only at hf
  cases hphase : d.phase with
  | header got =>
    rw [hphase] at hf
    have hfits := fits_of_passHeader hf
    split at hfits
    · rwa [ceiling_adopt] at hfits
    · exact hfits
  | payload header collected =>
    -- the header was read in an earlier pass, and soundness has kept what was known of it
    rw [hphase] at h hf
    exact fits_of_passPayload h.1 h.2.1 h.2.2 hf
  | skipping remaining =>
    rw [hphase] at hf
    cases hf

theorem ceiling_passHeader (d : Deframer) (got : Bytes) (b : UInt8) (rest : Bytes) :
    (d.passHeader got b rest).deframer.ceiling = d.ceiling := by
  unfold passHeader
  dsimp only
  split
  · rfl
  · unfold closeHeader
    split
    · rfl
    · split
      · rfl
      · split <;> rfl

/-- A pass leaves the ceiling alone. -/
theorem ceiling_pass (d : Deframer) (b : UInt8) (rest : Bytes) : (d.pass b rest).deframer.ceiling = d.ceiling := by
  unfold pass
  dsimp only
  split
  · rw [ceiling_passHeader]
    split
    · exact ceiling_adopt d.restart b
    · rfl
  · unfold passPayload
    dsimp only
    split <;> rfl
  · rfl

/-- A deframer keeps its ceiling. -/
theorem ceiling_push (d : Deframer) (chunk : Bytes) : (d.push chunk).1.ceiling = d.ceiling := by
  have honto (arrivals : Array Arrival) : (d.pushOnto arrivals chunk).1.ceiling = d.ceiling := by
    fun_induction pushOnto d arrivals chunk with
    | case1 => rfl
    | case2 d arrivals b rest pass ih => exact ih.trans (ceiling_pass d b rest)
  exact honto #[]

/-- **The frames that arrive fit.** -/
theorem fits_of_mem_push {d : Deframer} (h : d.Sound) {chunk : Bytes} {f : Frame}
    (hf : .ok f ∈ (d.push chunk).2) : f.Fits d.ceiling := by
  induction chunk generalizing d with
  | nil => simp at hf
  | cons b rest ih =>
    rw [push_cons_eq h] at hf
    rcases List.mem_append.mp hf with hf | hf
    · exact fits_of_pass h (Option.mem_toList.mp hf)
    · have hfits := ih (sound_pass h b []) hf
      rwa [ceiling_pass] at hfits

/-- Chunks that come one after the other are as good as one chunk. -/
theorem pushAll_eq_push {d : Deframer} (h : d.Sound) (chunks : List Bytes) :
    d.pushAll chunks = d.push chunks.flatten := by
  induction chunks generalizing d with
  | nil => simp [pushAll]
  | cons chunk chunks ih =>
    rw [List.flatten_cons, push_append h, pushAll_cons, ih (sound_push h chunk)]

/-! ## Reachable deframers -/

/-- A deframer that pushes can lead to, whatever version and ceiling it started with. -/
inductive Reachable : Deframer → Prop where
  | fresh (version : UInt8) (ceiling : UInt32) : Reachable { version, ceiling }
  | push {d : Deframer} (h : Reachable d) (chunk : Bytes) : Reachable (d.push chunk).1

theorem Reachable.sound {d : Deframer} (h : Reachable d) : d.Sound := by
  induction h with
  | fresh version ceiling => exact sound_of_header_nil rfl
  | push _ chunk ih => exact sound_push ih chunk

/-- **Chunk invariance.** For every deframer that can be reached, it comes to the same whether bytes are
    pushed at once or cut into chunks in whatever way: the same arrivals in the same order, and the same
    deframer afterwards. -/
theorem pushAll_eq_push_of_flatten_eq {d : Deframer} (h : Reachable d) {chunks : List Bytes}
    {bytes : Bytes} (hb : chunks.flatten = bytes) : d.pushAll chunks = d.push bytes := by
  rw [pushAll_eq_push h.sound, hb]

/-- A header of another version, cut after its second byte, of an unknown service, with a payload to be
    skipped that is cut as well; an empty chunk; and a header of version 1 after it. -/
theorem pushAll_cut_header :
    Reachable ((Deframer.mk 1 4 (.header [])).push [0x21, 0x08]).1
      ∧ [[0, 1, 0, 0], [], [0, 3, 0, 0, 0, 1, 9], [9, 9, 0x11], [0x07, 0, 1, 0, 0, 0, 0]].flatten
        = [0, 1, 0, 0, 0, 3, 0, 0, 0, 1, 9, 9, 9, 0x11, 0x07, 0, 1, 0, 0, 0, 0]
      ∧ ((Deframer.mk 1 4 (.header [])).push [0x21, 0x08]).1.pushAll
          [[0, 1, 0, 0], [], [0, 3, 0, 0, 0, 1, 9], [9, 9, 0x11], [0x07, 0, 1, 0, 0, 0, 0]]
        = ((Deframer.mk 1 4 (.header [])).push [0x21, 0x08]).1.push
          [0, 1, 0, 0, 0, 3, 0, 0, 0, 1, 9, 9, 9, 0x11, 0x07, 0, 1, 0, 0, 0, 0] :=
  have h := Reachable.push (.fresh 1 4) [0x21, 0x08]
  ⟨h, rfl, pushAll_eq_push_of_flatten_eq h rfl⟩

end Deframer

end HeadLink
