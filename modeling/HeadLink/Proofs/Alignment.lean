import HeadLink.Proofs.Chunking

/-!
# The stream stays aligned

A header that is refused does not throw the deframer off: the payload that it announces is skipped, and
the next header is found where it begins. Only a header that announces version 0 has no payload that
could be skipped; what follows it is taken for the next header.

A stream is therefore a sequence of items, each of which brings exactly one arrival
(`push_items`). What an item looks like depends on the ones before it only through the
version that the last of them announced.

## Contents
- **Items.** `Item`, `Item.Fits`, `Aligned`.
- **Answers.** `Item.Accepted`, `Item.Answered`.
- **Whole headers.** What is read from as many bytes as a header has (`decode?_whole`).
- **One item.** `push_framed`, `push_blank`.
- **All items.** `push_items`.
- **Frames.** What is written as frames arrives as these frames (`push_frames`).
-/

namespace HeadLink

/-! ## Items -/

/-- A stretch of the stream that stands for itself. -/
inductive Item where
  /-- The bytes of a header, and the payload that they announce. -/
  | framed (head payload : Bytes)
  /-- As many bytes as a header has, of which the first announces version 0. -/
  | blank (block : Bytes)

/-- The version that the first of some bytes announces. -/
def versionOf (bytes : Bytes) : UInt8 := (bytes.head?.map announcedVersion).getD 0

namespace Item

/-- What stands where a header is expected. -/
def head : Item → Bytes
  | framed head _ => head
  | blank block => block

/-- What follows the header. -/
def payload : Item → Bytes
  | framed _ payload => payload
  | blank _ => []

def bytes (i : Item) : Bytes := i.head ++ i.payload

/-- Whether an item may follow when the given version is in use. Nothing else is asked of its bytes: the
    frame type, the service and the length may be unknown, too large or 0, and the payload may look like
    a header. -/
def Fits (version : UInt8) : Item → Prop
  | framed head payload => versionOf head ≠ 0 ∧ head.length = headerLength (versionOf head)
      ∧ payload.length = bigEndian ((head.drop 4).take 4)
  | blank block => versionOf block = 0 ∧ block.length = headerLength version

/-- The version in use after an item. -/
def versionAfter (version : UInt8) : Item → UInt8
  | framed head _ => versionOf head
  | blank _ => version

end Item

/-- Items of which each fits the version in use after those before it. -/
def Aligned (version : UInt8) : List Item → Prop
  | [] => True
  | i :: is => i.Fits version ∧ Aligned (i.versionAfter version) is

instance (version : UInt8) (i : Item) : Decidable (i.Fits version) := by
  cases i <;> exact inferInstanceAs (Decidable (_ ∧ _))

instance decidableAligned : (version : UInt8) → (items : List Item) → Decidable (Aligned version items)
  | _, [] => .isTrue trivial
  | version, i :: is =>
    have := decidableAligned (i.versionAfter version) is
    inferInstanceAs (Decidable (i.Fits version ∧ Aligned (i.versionAfter version) is))

/-! ## Answers -/

/-- Whether the two bytes that name a frame type and a service name known ones. -/
def KnownKinds (head : Bytes) : Prop :=
  (∃ b type, head[0]? = some b ∧ FrameType.ofCode? (b &&& 0x07) = some type)
    ∧ ∃ c service, head[1]? = some c ∧ ServiceType.ofCode? c = some service

namespace Item

/-- Whether an item is a frame that is taken. -/
def Accepted (ceiling : UInt32) : Item → Prop
  | framed head payload => KnownKinds head ∧ payload.length ≤ ceiling.toNat
  | blank _ => False

/-- What arrives for an item: the frame itself if it is accepted, and a fault if not. -/
def Answered (ceiling : UInt32) (i : Item) : Arrival → Prop
  | .ok f => i.Accepted ceiling ∧ Header.decode? i.head = .ok (f.header, []) ∧ f.payload = i.payload
  | .error _ => ¬ i.Accepted ceiling

end Item

/-! ## Whole headers -/

/-- As many bytes as a header has are the eight fixed ones and, from version 2 on, four more. -/
theorem exists_of_length_eq {head : Bytes} {version : UInt8} (h : head.length = headerLength version) :
    ∃ b s detail session s₀ s₁ s₂ s₃ rest,
      head = b :: s :: detail :: session :: s₀ :: s₁ :: s₂ :: s₃ :: rest
        ∧ rest.length + 8 = headerLength version := by
  have h8 := eight_le_headerLength version
  match head, h with
  | b :: s :: detail :: session :: s₀ :: s₁ :: s₂ :: s₃ :: rest, h =>
    exact ⟨b, s, detail, session, s₀, s₁, s₂, s₃, rest, rfl, h⟩
  -- fewer than eight bytes are too few in every version
  | [], h | [_], h | [_, _], h | [_, _, _], h | [_, _, _, _], h | [_, _, _, _, _], h
  | [_, _, _, _, _, _], h | [_, _, _, _, _, _, _], h =>
    simp only [List.length_cons, List.length_nil] at h
    omega

/-- What is left of a whole header is the message id, and nothing after it. -/
theorem exists_messageField {version : UInt8} {rest : Bytes}
    (h : rest.length + 8 = headerLength version) :
    ∃ message, messageField version rest = .ok (message, []) := by
  unfold messageField
  by_cases hv : 2 ≤ version
  · rw [if_pos hv]
    rw [headerLength_of_le hv] at h
    match rest, h with
    | [m₀, m₁, m₂, m₃], _ => exact ⟨_, rfl⟩
  · rw [if_neg hv]
    rw [headerLength_of_not_le hv] at h
    exact ⟨0, by rw [List.length_eq_zero_iff.mp (Nat.succ.inj (Nat.add_right_cancel (m := 7) h))]⟩

/-- The payload size that a whole header announces is the number that bytes 4 to 7 stand for. -/
theorem announcedSize_whole {head : Bytes} (hv : versionOf head ≠ 0)
    (hl : head.length = headerLength (versionOf head)) :
    ∃ size, announcedSize head = some size ∧ size.toNat = bigEndian ((head.drop 4).take 4) := by
  obtain ⟨b, s, detail, session, s₀, s₁, s₂, s₃, rest, rfl, -⟩ := exists_of_length_eq hl
  refine ⟨Word.decode s₀ s₁ s₂ s₃, if_neg hv, ?_⟩
  rw [toNat_decode]
  rfl

/-- **A whole header is read if its frame type and its service are known**, and it is refused if not.
    The payload size is read either way. -/
theorem decode?_whole {head : Bytes} (hv : versionOf head ≠ 0)
    (hl : head.length = headerLength (versionOf head)) :
    (∃ h, Header.decode? head = .ok (h, []) ∧ KnownKinds head ∧ announcedSize head = some h.size)
      ∨ ∃ fault, Header.decode? head = .error fault ∧ ¬ KnownKinds head := by
  obtain ⟨b, s, detail, session, s₀, s₁, s₂, s₃, rest, rfl, hrest⟩ := exists_of_length_eq hl
  obtain ⟨message, hm⟩ := exists_messageField hrest
  have hv' : announcedVersion b ≠ 0 := hv
  have hm' : messageField (announcedVersion b) rest = .ok (message, []) := hm
  unfold Header.decode?
  dsimp only
  rw [if_neg hv', hm']
  cases htype : FrameType.ofCode? (b &&& 0x07) with
  | none =>
    right
    refine ⟨_, rfl, ?_⟩
    rintro ⟨⟨b', type, hb, hknown⟩, -⟩
    obtain rfl : b = b' := Option.some.inj hb
    rw [htype] at hknown
    cases hknown
  | some type =>
    cases hservice : ServiceType.ofCode? s with
    | none =>
      right
      refine ⟨_, rfl, ?_⟩
      rintro ⟨-, c, service, hc, hknown⟩
      obtain rfl : s = c := Option.some.inj hc
      rw [hservice] at hknown
      cases hknown
    | some service =>
      left
      exact ⟨_, rfl, ⟨⟨b, type, rfl, htype⟩, s, service, rfl, hservice⟩, if_neg hv'⟩

/-! ## One item -/

namespace Deframer

/-- **Of what is skipped only the number of bytes counts.** -/
theorem push_skip (d : Deframer) {bytes : Bytes} {size : Nat} (h : bytes.length ≤ size) :
    (d.skip size).push bytes = (d.skip (size - bytes.length), []) := by
  cases bytes with
  | nil => exact push_nil _
  | cons b rest =>
    rw [push_cons]
    rw [List.length_cons] at h
    -- one pass skips them all
    have hp : (d.skip size).pass b rest = { deframer := d.skip (size - (b :: rest).length), rest := [] } := by
      have hphase : d.skip size = { d with phase := .skipping size } := by
        unfold skip
        rw [if_neg (by omega)]
      have htake : (rest.take (size - 1)).length = rest.length := by
        rw [List.length_take]
        omega
      have hdrop : rest.drop (size - 1) = [] := List.drop_eq_nil_of_le (by omega)
      rw [hphase]
      show ({ deframer := d.restart.skip (size - (1 + (rest.take (size - 1)).length))
              rest := rest.drop (size - 1) } : Pass) = _
      rw [htake, hdrop, List.length_cons, Nat.add_comm]
      rfl
    rw [hp, push_nil]
    rfl

/-- A payload is complete with its last byte. -/
theorem push_payload (d : Deframer) {header : Header} {payload : Bytes}
    (h : payload.length = header.size.toNat) (hne : payload ≠ []) :
    ({ d with phase := .payload header #[] } : Deframer).push payload
      = (d.restart, [.ok { header, payload }]) := by
  cases payload with
  | nil => exact absurd rfl hne
  | cons b rest =>
    rw [push_cons]
    have hlen : header.size.toNat = rest.length + 1 := h.symm
    have hp : ({ d with phase := .payload header #[] } : Deframer).pass b rest
        = { deframer := d.restart, arrival := some (.ok { header, payload := b :: rest }), rest := [] } := by
      unfold pass passPayload
      simp [restart, hlen]
    rw [hp, push_nil]
    rfl

/-- In front of a header, the bytes that the adopted version asks for are judged at once. -/
theorem push_head {d : Deframer} (hi : d.phase = .header []) {b : UInt8} {tail : Bytes}
    (hl : (b :: tail).length = headerLength (d.adopt b).version) (rest : Bytes) :
    d.push (b :: tail ++ rest)
      = ((((d.adopt b).closeHeader (b :: tail) rest).deframer.push rest).1,
        ((d.adopt b).closeHeader (b :: tail) rest).arrival.toList
          ++ (((d.adopt b).closeHeader (b :: tail) rest).deframer.push rest).2) := by
  have hm : headerLength (d.adopt b).version - (([] : Bytes).length + 1) = tail.length := by
    rw [← hl]
    rfl
  have hlt : ¬ (b :: tail).length < headerLength (d.adopt b).version := by omega
  have hp : d.pass b (tail ++ rest) = (d.adopt b).closeHeader (b :: tail) rest := by
    unfold pass
    rw [hi, restart_of_header_nil hi]
    show (d.adopt b).passHeader [] b (tail ++ rest) = _
    unfold passHeader
    rw [hm]
    simp only [List.take_left, List.drop_left, List.nil_append, hlt, if_false]
  rw [List.cons_append, push_cons, hp, rest_closeHeader]

/-- A header that is refused, with the payload that it announces, brings a fault. -/
theorem push_refused {d : Deframer} (hi : d.phase = .header []) {b : UInt8} {tail payload : Bytes}
    (hl : (b :: tail).length = headerLength (d.adopt b).version) {fault : HeaderFault} {size : Nat}
    (hc : ∀ rest, (d.adopt b).closeHeader (b :: tail) rest
      = { deframer := (d.adopt b).skip size, arrival := some (.error fault), rest })
    (hp : payload.length = size) :
    d.push (b :: tail ++ payload) = ((d.adopt b).restart, [.error fault]) := by
  rw [push_head hi hl, hc, push_skip _ hp.le, hp, Nat.sub_self]
  rfl

/-- A header that is accepted, with the payload that it announces, brings a frame. -/
theorem push_accepted {d : Deframer} (hi : d.phase = .header []) {b : UInt8} {tail payload : Bytes}
    (hl : (b :: tail).length = headerLength (d.adopt b).version) {header : Header}
    (hd : Header.decode? (b :: tail) = .ok (header, [])) (hc : header.size ≤ d.ceiling)
    (hp : payload.length = header.size.toNat) :
    d.push (b :: tail ++ payload) = ((d.adopt b).restart, [.ok { header, payload }]) := by
  have hcheck : header.check (d.adopt b).ceiling = .ok () := by
    rw [ceiling_adopt]
    exact check_eq_ok_iff.mpr hc
  rw [push_head hi hl]
  unfold closeHeader
  rw [hd]
  dsimp only
  rw [hcheck]
  dsimp only
  by_cases hz : header.size = 0
  · have hnil : payload = [] := List.length_eq_zero_iff.mp (by rw [hp, hz]; rfl)
    rw [if_pos hz, hnil, push_nil]
    rfl
  · rw [if_neg hz, push_payload _ hp]
    · rfl
    · rintro rfl
      exact hz (UInt32.toNat_inj.mp hp.symm)

/-- In front of a header again, the deframer differs only by the version that it adopted. -/
theorem restart_adopt (d : Deframer) {b : UInt8} (h : announcedVersion b ≠ 0) :
    (d.adopt b).restart = { d with version := announcedVersion b, phase := .header [] } := by
  unfold adopt
  rw [if_neg h]
  rfl

/-- **A frame brings one arrival**, whether it is accepted or not. -/
theorem push_framed {d : Deframer} (hi : d.phase = .header []) {head payload : Bytes}
    (hf : (Item.framed head payload).Fits d.version) :
    ∃ arrival, d.push (head ++ payload)
        = ({ d with version := versionOf head, phase := .header [] }, [arrival])
      ∧ (Item.framed head payload).Answered d.ceiling arrival := by
  obtain ⟨hv, hl, hp⟩ := hf
  cases head with
  | nil => exact absurd rfl hv
  | cons b tail =>
    have hvb : announcedVersion b ≠ 0 := hv
    have hl' : (b :: tail).length = headerLength (d.adopt b).version := by
      rw [version_adopt hvb]
      exact hl
    obtain ⟨size, hsize, hbig⟩ := announcedSize_whole hv hl
    rw [← hbig] at hp
    rcases decode?_whole hv hl with ⟨h, hd, hknown, hs⟩ | ⟨fault, hd, hunknown⟩
    · -- the header is read; whether the frame is accepted depends on its size
      obtain rfl : size = h.size := Option.some.inj (hsize.symm.trans hs)
      by_cases hc : h.size ≤ d.ceiling
      · refine ⟨_, (push_accepted hi hl' hd hc hp).trans (by rw [restart_adopt d hvb]; rfl), ?_⟩
        refine ⟨⟨hknown, ?_⟩, hd, rfl⟩
        rw [hp]
        exact UInt32.le_iff_toNat_le.mp hc
      · have hlt : d.ceiling < h.size := UInt32.not_le.mp hc
        have hclose (rest : Bytes) : (d.adopt b).closeHeader (b :: tail) rest
            = { deframer := (d.adopt b).skip h.size.toNat
                arrival := some (.error (.oversized h.size d.ceiling)), rest } := by
          unfold closeHeader Header.check
          rw [hd]
          dsimp only
          rw [ceiling_adopt, if_pos hlt]
        refine ⟨_, (push_refused hi hl' hclose hp).trans (by rw [restart_adopt d hvb]; rfl), ?_⟩
        rintro ⟨-, hle⟩
        rw [hp] at hle
        exact hc (UInt32.le_iff_toNat_le.mpr hle)
    · -- the header is not read, but the size that it announces is, and is skipped
      have hclose (rest : Bytes) : (d.adopt b).closeHeader (b :: tail) rest
          = { deframer := (d.adopt b).skip size.toNat, arrival := some (.error fault), rest } := by
        unfold closeHeader
        rw [hd, hsize]
        rfl
      refine ⟨_, (push_refused hi hl' hclose hp).trans (by rw [restart_adopt d hvb]; rfl), ?_⟩
      rintro ⟨hknown, -⟩
      exact hunknown hknown

/-- **A blank item brings one fault.** Its length is that of a header of the version in use, since
    version 0 is not adopted, and nothing is skipped after it. -/
theorem push_blank {d : Deframer} (hi : d.phase = .header []) {block : Bytes}
    (hf : (Item.blank block).Fits d.version) :
    d.push block = (d, [.error .versionZero]) := by
  obtain ⟨hv, hl⟩ := hf
  obtain ⟨b, s, detail, session, s₀, s₁, s₂, s₃, rest, rfl, -⟩ := exists_of_length_eq hl
  have hvb : announcedVersion b = 0 := hv
  have hadopt := adopt_of_eq_zero (d := d) hvb
  have hclose (more : Bytes) :
      (d.adopt b).closeHeader (b :: s :: detail :: session :: s₀ :: s₁ :: s₂ :: s₃ :: rest) more
        = { deframer := (d.adopt b).skip 0, arrival := some (.error .versionZero), rest := more } := by
    unfold closeHeader Header.decode? announcedSize
    simp only [hvb, if_true]
    rfl
  -- a blank item is a refused header with an empty payload
  have hpush := push_refused hi (by rw [hadopt]; exact hl) hclose (rfl : ([] : Bytes).length = 0)
  rw [List.append_nil, hadopt, restart_of_header_nil hi] at hpush
  exact hpush

/-- **An item brings one arrival**, and the deframer is in front of a header again. -/
theorem push_item {d : Deframer} (hi : d.phase = .header []) {i : Item} (hf : i.Fits d.version) :
    ∃ arrival, d.push i.bytes
        = ({ d with version := i.versionAfter d.version, phase := .header [] }, [arrival])
      ∧ i.Answered d.ceiling arrival := by
  cases i with
  | framed head payload => exact push_framed hi hf
  | blank block =>
    refine ⟨.error .versionZero, ?_, id⟩
    have hbytes : (Item.blank block).bytes = block := List.append_nil block
    rw [hbytes, push_blank hi hf]
    show (d, _) = (({ d with phase := .header [] } : Deframer), _)
    rw [← hi]

/-! ## All items -/

/-- **Alignment.** Whatever items come, known and unknown, small and oversized, blank and empty, each
    brings its own arrival, in order; after them the deframer is in front of a header and has adopted
    the version that was announced last. -/
theorem push_items {version : UInt8} {items : List Item} (h : Aligned version items)
    (ceiling : UInt32) :
    ∃ arrivals, (Deframer.mk version ceiling (.header [])).push (items.flatMap Item.bytes)
        = ({ version := items.foldl Item.versionAfter version, ceiling }, arrivals)
      ∧ List.Forall₂ (Item.Answered ceiling) items arrivals := by
  induction items generalizing version with
  | nil =>
    refine ⟨[], ?_, .nil⟩
    rw [List.flatMap_nil, push_nil]
    rfl
  | cons i is ih =>
    obtain ⟨hfits, hrest⟩ := h
    obtain ⟨arrival, hpush, hanswer⟩ := push_item (d := ⟨version, ceiling, .header []⟩) rfl hfits
    obtain ⟨arrivals, hpushes, hanswers⟩ := ih hrest
    refine ⟨arrival :: arrivals, ?_, .cons hanswer hanswers⟩
    rw [List.flatMap_cons, push_append (sound_of_header_nil rfl), hpush]
    dsimp only
    rw [hpushes]
    rfl

/-- Frames and refused headers in turn: a frame of version 2; a blank item, which is as long as a header
    of version 2; an unknown service of version 1, whose payload looks like a header; an unknown frame
    type without payload; an oversized frame of version 15; an empty frame; a short blank item. -/
def mixedItems : List Item :=
  [.framed [0x21, 0x07, 0, 1, 0, 0, 0, 2, 0, 0, 0, 9] [7, 8],
    .blank [0x01, 0x07, 0, 1, 0, 0, 0, 9, 0, 0, 0, 0],
    .framed [0x11, 0x08, 0, 1, 0, 0, 0, 3] [0x21, 0x07, 0],
    .framed [0x17, 0x07, 0, 1, 0, 0, 0, 0] [],
    .framed [0xF3, 0x0F, 1, 1, 0, 0, 0, 5, 1, 2, 3, 4] [1, 2, 3, 4, 5],
    .framed [0x11, 0x07, 0, 1, 0, 0, 0, 0] [],
    .blank [0x08, 0, 0, 0, 0, 0, 0, 0]]

theorem push_mixedItems :
    Aligned 1 mixedItems
      ∧ ∃ arrivals, (Deframer.mk 1 4 (.header [])).push (mixedItems.flatMap Item.bytes)
          = ({ version := 1, ceiling := 4 }, arrivals)
        ∧ List.Forall₂ (Item.Answered 4) mixedItems arrivals :=
  have h : Aligned 1 mixedItems := by decide
  ⟨h, push_items h 4⟩

end Deframer

/-! ## Frames -/

namespace Deframer

/-- A frame that is written arrives. -/
theorem push_frame {d : Deframer} (hi : d.phase = .header []) {f : Frame} (hf : f.Fits d.ceiling) :
    d.push f.encode = ({ d with version := f.header.version, phase := .header [] }, [.ok f]) := by
  obtain ⟨hversion, -, -⟩ := firstByte_fields hf.header.le_fifteen
  have hne : announcedVersion f.header.firstByte ≠ 0 := by
    rw [hversion]
    exact hf.header.version_ne_zero
  obtain ⟨tail, htail⟩ : ∃ tail, f.header.encode = f.header.firstByte :: tail := ⟨_, rfl⟩
  have hdecode : Header.decode? (f.header.firstByte :: tail) = .ok (f.header, []) := by
    have h := decode?_encode hf.header []
    rw [List.append_nil, htail] at h
    exact h
  have hl : (f.header.firstByte :: tail).length
      = headerLength (d.adopt f.header.firstByte).version := by
    rw [version_adopt hne, hversion, ← htail]
    exact f.header.length_encode
  unfold Frame.encode
  rw [htail, push_accepted hi hl hdecode hf.within hf.size.symm, restart_adopt d hne, hversion]

/-- **Frames that are written one after the other arrive in that order.** -/
theorem push_frames {d : Deframer} (hi : d.phase = .header []) {frames : List Frame}
    (hf : ∀ f ∈ frames, f.Fits d.ceiling) :
    d.push (frames.flatMap Frame.encode)
      = ({ d with version := frames.foldl (fun _ f => f.header.version) d.version
                  phase := .header [] }, frames.map .ok) := by
  induction frames generalizing d with
  | nil =>
    rw [List.flatMap_nil, push_nil]
    show (d, _) = (({ d with phase := .header [] } : Deframer), _)
    rw [← hi]
    rfl
  | cons f fs ih =>
    have hfirst := push_frame hi (hf f List.mem_cons_self)
    have hrest := ih (d := { d with version := f.header.version, phase := .header [] }) rfl
      fun g hg => hf g (List.mem_cons_of_mem f hg)
    rw [List.flatMap_cons, push_append (sound_of_header_nil hi), hfirst]
    dsimp only
    rw [hrest]
    rfl

end Deframer

end HeadLink
