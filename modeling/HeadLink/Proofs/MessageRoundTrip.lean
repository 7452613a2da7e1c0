import HeadLink.Message.Reassembly
import HeadLink.Message.Segments
import HeadLink.Proofs.Alignment
import HeadLink.Proofs.BodyCodec
import HeadLink.Proofs.Tables

/-!
# Messages survive the wire

A payload that is split into frames, written, cut into chunks, deframed and put together is the payload
again. The pieces of the argument, in the order in which the bytes travel:

* every frame of a message fits a receiver whose ceiling is at least the budget (`fits_of_segments`), so
  the frames arrive as they were written (`push_frames`);
* a first frame opens the message; each consecutive frame but the last adds its part, and the last one
  ends the message (`takeAll_consecutive`). While it is under way the message is one more entry of the
  table, and at the end the table is what it was before (`Table.erase_insert`);
* the payload that was collected is the message's (`ofPayload?_payload`).

## Contents
- **Frames of a message.** `segments_eq`, `fits_of_segments`.
- **Putting together.** `Reassembly.takeAll`, `takeAll_consecutive`, `takeAll_segments`.
- **Round trip.** `message_round_trip`.
-/

namespace HeadLink

/-! ## Frames of a message -/

/-- The key that the frames of a message have. -/
def Envelope.key (e : Envelope) : MessageKey where
  session := e.session
  service := e.service
  message := Header.messageFor e.version e.message

namespace Envelope

@[simp] theorem key_frame (e : Envelope) (type : FrameType) (detail : UInt8) (payload : Bytes) :
    (e.frame type detail payload).header.key = e.key := rfl

/-- A frame of a message fits a receiver, as long as its payload is within the ceiling. -/
theorem fits_frame {e : Envelope} (h1 : 1 ≤ e.version) (h15 : e.version ≤ 15) (type : FrameType)
    (detail : UInt8) {payload : Bytes} {ceiling : UInt32} (hp : payload.length ≤ ceiling.toNat) :
    (e.frame type detail payload).Fits ceiling := by
  have hlt : payload.length < Word.count := Nat.lt_of_le_of_lt hp ceiling.toNat_lt
  have hsize : (UInt32.ofNat payload.length).toNat = payload.length := toNat_ofNat_of_lt hlt
  refine ⟨⟨h1, h15, ?_⟩, hsize, ?_⟩
  · intro hv
    exact if_neg hv
  · rw [UInt32.le_iff_toNat_le]
    show (UInt32.ofNat payload.length).toNat ≤ _
    rw [hsize]
    exact hp

/-- A frame for a part is a consecutive frame with that part. -/
theorem exists_of_mem_consecutiveFrames {e : Envelope} {parts : List Bytes} {f : Frame}
    (hf : f ∈ e.consecutiveFrames parts) :
    ∃ detail, ∃ part ∈ parts, f = e.frame .consecutive detail part := by
  fun_induction e.consecutiveFrames parts with
  | case1 => exact absurd hf List.not_mem_nil
  | case2 part => exact ⟨_, part, List.mem_cons_self, List.mem_singleton.mp hf⟩
  | case3 part parts _ ih =>
    rcases List.mem_cons.mp hf with rfl | hf
    · exact ⟨_, part, List.mem_cons_self, rfl⟩
    · obtain ⟨detail, p, hp, rfl⟩ := ih hf
      exact ⟨detail, p, List.mem_cons_of_mem part hp, rfl⟩

end Envelope

/-- No piece is longer than the given size. -/
theorem length_le_of_mem_pieces {α : Type} {size : Nat} (hs : 1 ≤ size) {xs p : List α}
    (h : p ∈ pieces size xs) : p.length ≤ size := by
  fun_induction pieces size xs with
  | case1 => exact absurd h List.not_mem_nil
  | case2 x xs ih =>
    rcases List.mem_cons.mp h with rfl | h
    · rw [List.length_cons, List.length_take]
      omega
    · exact ih h

theorem pieces_ne_nil {α : Type} (size : Nat) {xs : List α} (h : xs ≠ []) : pieces size xs ≠ [] := by
  cases xs with
  | nil => exact absurd rfl h
  | cons x xs =>
    rw [pieces_cons]
    exact List.cons_ne_nil _ _

namespace Envelope

/-- **What a payload is split into**: one frame if it is within the budget, and else an announcement and
    the parts. -/
theorem segments_eq {e : Envelope} {payload : Bytes} {budget : Nat} (hb : announcementLength ≤ budget)
    (hc : payload.length + headerLength e.version < Word.count) :
    e.segments payload budget = .ok (if payload.length ≤ budget then [e.frame .single 0 payload]
      else e.frame .first 0 (e.announcement payload.length (pieces budget payload).length)
        :: e.consecutiveFrames (pieces budget payload)) := by
  unfold segments
  rw [if_neg (Nat.not_lt.mpr hb), if_neg (Nat.not_le.mpr hc)]
  split <;> rfl

/-- A payload is split only within a budget that has room for an announcement, and only if its total
    is a word. -/
theorem bounds_of_segments {e : Envelope} {payload : Bytes} {budget : Nat} {frames : List Frame}
    (h : e.segments payload budget = .ok frames) :
    announcementLength ≤ budget ∧ payload.length + headerLength e.version < Word.count := by
  unfold segments at h
  split at h
  · cases h
  · rename_i hb
    split at h
    · cases h
    · rename_i hc
      exact ⟨Nat.not_lt.mp hb, Nat.not_le.mp hc⟩

/-- Every frame of a message has its envelope, and a payload within the budget. -/
theorem exists_of_mem_segments {e : Envelope} {payload : Bytes} {budget : Nat} {frames : List Frame}
    (h : e.segments payload budget = .ok frames) {f : Frame} (hf : f ∈ frames) :
    ∃ type detail part, f = e.frame type detail part ∧ part.length ≤ budget := by
  obtain ⟨hb, hcount⟩ := bounds_of_segments h
  have hb8 : 8 ≤ budget := hb
  rw [segments_eq hb hcount] at h
  cases h
  split at hf
  · rename_i hle
    exact ⟨_, _, _, List.mem_singleton.mp hf, hle⟩
  · rcases List.mem_cons.mp hf with rfl | hf
    · exact ⟨_, _, _, rfl, hb8⟩
    · obtain ⟨detail, part, hpart, rfl⟩ := exists_of_mem_consecutiveFrames hf
      exact ⟨_, _, _, rfl, length_le_of_mem_pieces (Nat.le_trans (by decide) hb8) hpart⟩

/-- A message takes at least one frame. -/
theorem segments_ne_nil {e : Envelope} {payload : Bytes} {budget : Nat} {frames : List Frame}
    (h : e.segments payload budget = .ok frames) : frames ≠ [] := by
  obtain ⟨hb, hcount⟩ := bounds_of_segments h
  rw [segments_eq hb hcount] at h
  cases h
  split <;> exact List.cons_ne_nil _ _

/-- **The frames of a message fit a receiver** whose ceiling is at least the budget. -/
theorem fits_of_segments {e : Envelope} (h1 : 1 ≤ e.version) (h15 : e.version ≤ 15) {payload : Bytes}
    {budget : Nat} {frames : List Frame} (h : e.segments payload budget = .ok frames)
    {ceiling : UInt32} (hc : budget ≤ ceiling.toNat) : ∀ f ∈ frames, f.Fits ceiling := by
  intro f hf
  obtain ⟨type, detail, part, rfl, hle⟩ := exists_of_mem_segments h hf
  exact fits_frame h1 h15 type detail (Nat.le_trans hle hc)

end Envelope

/-! ## Putting together -/

namespace Reassembly

/-- Takes what a deframer gives, one result for each arrival: a frame's own, or the fault of a header. -/
def takeAll (r : Reassembly) : List Arrival → Reassembly × List (Except Fault (Option Message))
  | [] => (r, [])
  | .ok f :: arrivals =>
    let (r, result) := r.accept f
    let (r, results) := r.takeAll arrivals
    (r, result :: results)
  | .error fault :: arrivals =>
    let (r, results) := r.takeAll arrivals
    (r, .error (.header fault) :: results)

theorem takeAll_ok (r : Reassembly) (f : Frame) (arrivals : List Arrival) :
    r.takeAll (.ok f :: arrivals)
      = (((r.accept f).1.takeAll arrivals).1, (r.accept f).2 :: ((r.accept f).1.takeAll arrivals).2) :=
  rfl

/-- A message under way, as one more entry of the table. -/
def opening (r : Reassembly) (k : MessageKey) (part : Partial) : Reassembly :=
  { r with opened := r.opened.insert k part }

/-- What the last frame of a message brings. -/
def outcome (header : Header) (payload : Bytes) : Except Fault (Option Message) :=
  ((Message.ofPayload? header payload).mapError .body).map some

/-- A consecutive frame of a message under way adds its part; the last one ends the message. -/
theorem accept_consecutive {r : Reassembly} {e : Envelope} (hfree : r.opened.get? e.key = none)
    {part : Partial} (detail : UInt8) {bytes : Bytes}
    (hmax : part.collected.size + bytes.length ≤ r.maxMessageSize) :
    (r.opening e.key part).accept (e.frame .consecutive detail bytes)
      = if detail = Header.lastDetail then (r, outcome part.header (part.collected ++ bytes).toList)
        else (r.opening e.key { part with collected := part.collected ++ bytes }, .ok none) := by
  have hget : (r.opening e.key part).opened.get? e.key = some part := by
    show (r.opened.insert e.key part).get? e.key = some part
    rw [Table.get?_insert, if_pos rfl]
  have herase : (r.opening e.key part).opened.erase e.key = r.opened := Table.erase_insert hfree part
  show (r.opening e.key part).acceptConsecutive (e.frame .consecutive detail bytes) = _
  unfold acceptConsecutive
  rw [Envelope.key_frame, hget]
  dsimp only
  rw [herase]
  have hover : ¬ r.maxMessageSize < part.collected.size + bytes.length := Nat.not_lt.mpr hmax
  show (if r.maxMessageSize < part.collected.size + bytes.length then _ else _) = _
  rw [if_neg hover]
  by_cases hd : detail = Header.lastDetail
  · have hlast : (e.frame .consecutive detail bytes).header.isLast = true := by
      show (decide (FrameType.consecutive = .consecutive) && decide (detail = _)) = true
      rw [hd]
      rfl
    rw [if_pos hd, if_pos hlast]
    rfl
  · have hlast : ¬ (e.frame .consecutive detail bytes).header.isLast = true := by
      show ¬ (decide (FrameType.consecutive = .consecutive) && decide (detail = _)) = true
      simp [hd]
    rw [if_neg hd, if_neg hlast]
    rfl

/-- **The parts of a message, in order, end it with its payload.** The induction is on the parts; what is
    collected so far is generalised, and the table without the message stays the same. -/
theorem takeAll_consecutive {r : Reassembly} {e : Envelope} (hfree : r.opened.get? e.key = none)
    {parts : List Bytes} (hne : parts ≠ []) {part : Partial}
    (hmax : part.collected.size + parts.flatten.length ≤ r.maxMessageSize) :
    (r.opening e.key part).takeAll ((e.consecutiveFrames parts).map .ok)
      = (r, List.replicate (parts.length - 1) (.ok none)
          ++ [outcome part.header (part.collected.toList ++ parts.flatten)]) := by
  induction parts generalizing part with
  | nil => exact absurd rfl hne
  | cons p ps ih =>
    have hp : part.collected.size + p.length ≤ r.maxMessageSize := by
      rw [List.flatten_cons, List.length_append] at hmax
      omega
    -- only the last part is marked as the last one
    cases ps with
    | nil =>
      show (r.opening e.key part).takeAll [.ok (e.frame .consecutive Header.lastDetail p)] = _
      rw [takeAll_ok, accept_consecutive hfree _ hp, if_pos rfl]
      show (r, [_]) = (r, [_])
      rw [Array.toList_appendList, List.flatten_singleton]
    | cons q qs =>
      have hmore : Header.moreDetail ≠ Header.lastDetail := by decide
      have hfits : ({ part with collected := part.collected ++ p } : Partial).collected.size
          + (q :: qs).flatten.length ≤ r.maxMessageSize := by
        rw [List.flatten_cons, List.length_append] at hmax
        rw [← Array.length_toList, Array.toList_appendList, List.length_append, Array.length_toList]
        omega
      have hnext := ih (List.cons_ne_nil q qs) hfits
      show (r.opening e.key part).takeAll (.ok (e.frame .consecutive Header.moreDetail p)
        :: (e.consecutiveFrames (q :: qs)).map .ok) = _
      rw [takeAll_ok, accept_consecutive hfree _ hp, if_neg hmore, hnext]
      dsimp only
      rw [Array.toList_appendList, List.append_assoc, List.flatten_cons (l := p)]
      rfl

theorem accept_of_first {f : Frame} (h : f.header.type = .first) (r : Reassembly) :
    r.accept f
      = ((r.acceptFirst f).1, ((r.acceptFirst f).2.mapError Fault.reassembly).map fun _ => none) := by
  unfold accept
  rw [h]

/-- The announcement in a first frame is read back as the size of the message. -/
theorem announcedLength_announcement (e : Envelope) {size : Nat} (parts : Nat)
    (hcount : size + headerLength e.version < Word.count) :
    announcedLength (e.frame .first 0 (e.announcement size parts)).header (e.announcement size parts)
      = some size := by
  have htotal := toNat_ofNat_of_lt hcount
  unfold Envelope.announcement Word.encode
  simp only [List.cons_append, List.nil_append, announcedLength, Word.decode_encode]
  rw [htotal]
  exact congrArg some (Nat.add_sub_cancel size (headerLength e.version))

/-- A first frame opens its message, if there is room for one more. -/
theorem accept_first {r : Reassembly} {e : Envelope} (hroom : r.openCount < r.maxOpen) {size : Nat}
    (parts : Nat) (hmax : size ≤ r.maxMessageSize)
    (hcount : size + headerLength e.version < Word.count) :
    ∃ part : Partial, part.collected = #[]
      ∧ part.header = (e.frame .first 0 (e.announcement size parts)).header
      ∧ r.accept (e.frame .first 0 (e.announcement size parts)) = (r.opening e.key part, .ok none) := by
  have hlength : announcedLength (e.frame .first 0 (e.announcement size parts)).header
      (e.frame .first 0 (e.announcement size parts)).payload = some size :=
    announcedLength_announcement e parts hcount
  have hopen : r.acceptFirst (e.frame .first 0 (e.announcement size parts))
      = (r.opening e.key
          { header := (e.frame .first 0 (e.announcement size parts)).header, announced := size },
        .ok ()) := by
    unfold acceptFirst
    rw [hlength]
    dsimp only
    rw [if_neg (Nat.not_lt.mpr hmax), if_neg fun h => Nat.not_le.mpr hroom h.1]
    rfl
  refine ⟨{ header := (e.frame .first 0 (e.announcement size parts)).header, announced := size },
    rfl, rfl, ?_⟩
  rw [accept_of_first rfl, hopen]
  rfl

/-- **The frames of a message end it with its payload**, and leave nothing behind. Every frame but the
    last brings nothing. -/
theorem takeAll_segments {r : Reassembly} {e : Envelope} (hfree : r.opened.get? e.key = none)
    (hroom : r.openCount < r.maxOpen) {payload : Bytes} (hmax : payload.length ≤ r.maxMessageSize)
    {budget : Nat} {frames : List Frame} (hs : e.segments payload budget = .ok frames) :
    ∃ header : Header, header.version = e.version ∧ header.service = e.service
      ∧ header.session = e.session
      ∧ r.takeAll (frames.map .ok)
        = (r, List.replicate (frames.length - 1) (.ok none) ++ [outcome header payload]) := by
  obtain ⟨hb, hcount⟩ := Envelope.bounds_of_segments hs
  rw [Envelope.segments_eq hb hcount] at hs
  cases hs
  split
  · exact ⟨(e.frame .single 0 payload).header, rfl, rfl, rfl, rfl⟩
  · rename_i hlong
    have hne : payload ≠ [] := by
      rintro rfl
      exact hlong (Nat.zero_le budget)
    obtain ⟨part, hcollected, hheader, haccept⟩ :=
      accept_first hroom (pieces budget payload).length hmax hcount
    have hfits : part.collected.size + (pieces budget payload).flatten.length ≤ r.maxMessageSize := by
      rw [hcollected, flatten_pieces]
      show 0 + payload.length ≤ _
      omega
    -- the first frame brings nothing, and there is one consecutive frame for each piece
    have hrest := takeAll_consecutive hfree (pieces_ne_nil budget hne) hfits
    have hcount' : (pieces budget payload).length ≠ 0 := fun h0 =>
      pieces_ne_nil budget hne (List.length_eq_zero_iff.mp h0)
    refine ⟨part.header, by rw [hheader]; rfl, by rw [hheader]; rfl, by rw [hheader]; rfl, ?_⟩
    rw [List.map_cons, takeAll_ok, haccept, hrest, hcollected, flatten_pieces, List.length_cons,
      Envelope.length_consecutiveFrames, Nat.add_sub_cancel]
    obtain ⟨n, hn⟩ := Nat.exists_eq_succ_of_ne_zero hcount'
    rw [hn]
    rfl

end Reassembly

/-! ## Round trip -/

theorem Deframer.phase_of_isIdle {d : Deframer} (h : d.isIdle = true) : d.phase = .header [] := by
  unfold isIdle at h
  split at h
  · rename_i got hphase
    rw [hphase, List.isEmpty_iff.mp h]
  · cases h

/-- After frames of one version, that version is in use. -/
theorem foldl_version {frames : List Frame} (hne : frames ≠ []) {version : UInt8}
    (h : ∀ f ∈ frames, f.header.version = version) (before : UInt8) :
    frames.foldl (fun _ f => f.header.version) before = version := by
  induction frames generalizing before with
  | nil => exact absurd rfl hne
  | cons f fs ih =>
    have hf := h f List.mem_cons_self
    cases fs with
    | nil => exact hf
    | cons g gs =>
      exact ih (List.cons_ne_nil g gs) (fun x hx => h x (List.mem_cons_of_mem f hx)) f.header.version

/-- What the frames of a message have in common when it is sent in the given version under the given
    id. -/
def Message.envelope (m : Message) (version : UInt8) (id : UInt32) : Envelope where
  version := version
  service := m.outboundService
  session := m.session
  message := id

/-- **Round trip.** A message that is encoded for a version, split within a budget and written as bytes
    comes back, however the bytes are cut into chunks: it comes with its last frame, there is no fault,
    and nothing is left behind. The deframer may have been using any version. -/
theorem message_round_trip {version : UInt8} (h1 : 1 ≤ version) (h15 : version ≤ 15) {m : Message}
    {payload : Bytes} (hp : m.payload version = .ok payload) {id : UInt32} {budget : Nat}
    (hb : 8 ≤ budget) (hcount : payload.length + headerLength version < Word.count)
    {d : Deframer} (hd : d.isIdle = true) (hc : budget ≤ d.ceiling.toNat)
    {r : Reassembly} (hfree : r.opened.get? (m.envelope version id).key = none)
    (hroom : r.openCount < r.maxOpen) (hmax : payload.length ≤ r.maxMessageSize) :
    ∃ frames, (m.envelope version id).segments payload budget = .ok frames
      ∧ ∀ chunks : List Bytes, chunks.flatten = frames.flatMap Frame.encode →
        ∃ arrivals, d.pushAll chunks = ({ version, ceiling := d.ceiling }, arrivals)
          ∧ r.takeAll arrivals = (r, List.replicate (frames.length - 1) (.ok none)
              ++ [.ok (some (m.asReceived version))]) := by
  have hs := Envelope.segments_eq (e := m.envelope version id) hb hcount
  -- from here on it matters only that these are the frames, not which they are
  generalize (if payload.length ≤ budget then _ else _ : List Frame) = frames at hs
  refine ⟨frames, hs, ?_⟩
  intro chunks hchunks
  have hphase := Deframer.phase_of_isIdle hd
  have hpush := Deframer.push_frames hphase (Envelope.fits_of_segments h1 h15 hs hc)
  have hversion : frames.foldl (fun _ f => f.header.version) d.version = version :=
    foldl_version (Envelope.segments_ne_nil hs) (fun f hf => by
      obtain ⟨type, detail, part, rfl, -⟩ := Envelope.exists_of_mem_segments hs hf
      rfl) _
  obtain ⟨header, hv, hservice, hsession, htake⟩ :=
    Reassembly.takeAll_segments hfree hroom hmax hs
  have hmessage : Reassembly.outcome header payload = .ok (some (m.asReceived version)) := by
    unfold Reassembly.outcome
    rw [ofPayload?_payload hp hv hservice hsession]
    rfl
  refine ⟨frames.map .ok, ?_, ?_⟩
  · rw [Deframer.pushAll_eq_push (Deframer.sound_of_header_nil hphase), hchunks, hpush, hversion]
  · rw [htake, hmessage]

/-- A call with bulk data, which takes five frames of at most 8 bytes each. The receiver has used
    another version, and a message with the same id on another service is under way. -/
theorem message_round_trip_call :
    let m : Message := ⟨1, .rpc, 7, { functionId := 5, correlationId := 3, data := [1, 2, 3],
                                      bulk := some [4, 5, 6, 7, 8, 9, 10, 11, 12, 13, 14, 15] }⟩
    let d : Deframer := { version := 1, ceiling := 8 }
    let r : Reassembly := { maxMessageSize := 27, maxOpen := 2
                            opened := (∅ : Table MessageKey Partial).insert ⟨7, .rpc, 9⟩
                              { header := .data 2 .first .rpc 0 7 9 8, announced := 20 } }
    (∃ payload, m.payload 2 = .ok payload ∧ payload.length = 27)
      ∧ ∃ frames, (m.envelope 2 9).segments (m.payload 2).toOption.get! 8 = .ok frames
        ∧ ∀ chunks : List Bytes, chunks.flatten = frames.flatMap Frame.encode →
          ∃ arrivals, d.pushAll chunks = ({ version := 2, ceiling := 8 }, arrivals)
            ∧ r.takeAll arrivals = (r, List.replicate (frames.length - 1) (.ok none)
                ++ [.ok (some (m.asReceived 2))]) := by
  intro m d r
  have hp : m.payload 2 = .ok [0, 0, 0, 5, 0, 0, 0, 3, 0, 0, 0, 3, 1, 2, 3,
      4, 5, 6, 7, 8, 9, 10, 11, 12, 13, 14, 15] := by decide
  refine ⟨⟨_, hp, rfl⟩, ?_⟩
  rw [hp]
  exact message_round_trip (by decide) (by decide) hp (by decide) (by decide) (by decide) (by decide)
    (by decide) (by decide) (by decide)

end HeadLink
