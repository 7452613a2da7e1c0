import Mathlib.Data.Nat.PSub
import HeadLink.Proofs.Alignment
import HeadLink.Proofs.HeaderGrammar

/-!
# What a receiver keeps to

A deframer has no way to go wrong: its phase has room for header bytes only where there may be some, its differences
stop at 0, and a header that is read from too few bytes is refused like others. If any of this happened, it would not
show. The receiver here keeps its header bytes apart from its state, forms a difference only if it is not negative, and
reads a header only if all of it is there. A turn of its loop in which that fails has no outcome.

Every turn has one. A receiver goes through the states of a deframer (`Deframer.turn?_receiver`), of which it is known
that each phase calls for a byte at least (`Deframer.Sound`). So each turn takes a byte off the chunk, and a loop is
over after as many turns as its chunk has bytes (`Deframer.run?_receiver`).

What a receiver keeps tells where the stream stands. It keeps nothing exactly if the bytes so far are items that stand
for themselves (`Deframer.isIdle_push_iff`). What comes after the last complete item is the beginning of a header, or a
whole header and the beginning of the payload that it announces, and either leaves the receiver in the middle of a
frame.

## Contents
- **Receivers.** `Receiver`, a turn of its loop (`Receiver.turn?`), and the loop (`Receiver.run?`).
- **Turns.** `Deframer.receiver`; every turn is a pass, and every loop is a push.
- **Bytes taken.** `Deframer.exists_push_pass`: a pass is a push of the bytes that it takes.
- **Boundaries.** `Deframer.isIdle_push_iff`.
- **What arrives.** `Arrival.Whole`: no header is read from too few bytes, and no payload is too short or too long.
- **All states.** `Receiver.Reached`, `Receiver.Invariant`, and `receiver_invariant_and_progress`.
-/

namespace HeadLink

/-! ## Receivers -/

/-- Where in a frame a receiver stands. -/
inductive ReceiverState where
  /-- In a header, or before its first byte. -/
  | header
  /-- In the payload of a header that was accepted. -/
  | payload (header : Header) (collected : Bytes)
  /-- In the payload of a header that was refused. -/
  | discard (remaining : Nat)
  deriving DecidableEq

/-- A receiver of frames that keeps the bytes of an unfinished header apart from its state. -/
structure Receiver where
  version : UInt8
  ceiling : UInt32
  buffer : Bytes := []
  state : ReceiverState := .header
  deriving DecidableEq

/-- What one turn of the loop over a chunk comes to. -/
structure Turn where
  receiver : Receiver
  arrival : Option Arrival := none
  /-- The part of the chunk that is still to be looked at. -/
  rest : Bytes
  deriving DecidableEq

namespace Receiver

/-- Whether no part of a frame is kept. -/
def isIdle (r : Receiver) : Bool := r.buffer.isEmpty && decide (r.state = .header)

/-- Throws the payload of the given size away, if there is one. -/
def discard (r : Receiver) (size : Nat) : Receiver :=
  if 0 < size then { r with state := .discard size } else r

/-- Reads the header in the buffer, which has to be all there, and clears the buffer. -/
def judge? (r : Receiver) (rest : Bytes) : Option Turn :=
  let cleared := { r with buffer := [] }
  if r.buffer.length < headerLength (versionOf r.buffer) then none
  else match Header.decode? r.buffer with
    | .error fault =>
      some { receiver := cleared.discard ((announcedSize r.buffer).getD 0).toNat, arrival := some (.error fault), rest }
    | .ok (header, _) => match header.check r.ceiling with
      | .error fault =>
        some { receiver := cleared.discard header.size.toNat, arrival := some (.error fault), rest }
      | .ok () =>
        if header.size = 0 then some { receiver := cleared, arrival := some (.ok { header }), rest }
        else some { receiver := { cleared with state := .payload header [] }, rest }

/-- Adopts the version that the first byte of a header announces, unless it is 0. -/
def adopt (r : Receiver) (first : UInt8) : Receiver :=
  if r.buffer = [] ∧ announcedVersion first ≠ 0 then { r with version := announcedVersion first } else r

/-- Takes what is missing from a header, as far as the chunk has it. -/
def collect? (r : Receiver) (chunk : Bytes) : Option Turn := do
  let missing ← (headerLength r.version).psub r.buffer.length
  let count := min missing chunk.length
  let r := { r with buffer := r.buffer ++ chunk.take count }
  if r.buffer.length < headerLength r.version then some { receiver := r, rest := chunk.drop count }
  else r.judge? (chunk.drop count)

/-- Takes header bytes off the chunk, of which the first is looked at before. -/
def takeHeader? (r : Receiver) (chunk : Bytes) : Option Turn := do
  let first ← chunk.head?
  (r.adopt first).collect? chunk

/-- **One turn of the loop.** The state is taken out, and put back only where the frame goes on. There is no outcome
    if a difference would be negative, if a byte is looked at that is not there, or if a header is read from too few
    bytes. -/
def turn? (r : Receiver) (chunk : Bytes) : Option Turn :=
  let out := { r with state := .header }
  match r.state with
  | .header => out.takeHeader? chunk
  | .payload header collected => do
    let missing ← header.size.toNat.psub collected.length
    let count := min missing chunk.length
    let collected := collected ++ chunk.take count
    if collected.length = header.size.toNat then
      some { receiver := out, arrival := some (.ok { header, payload := collected }), rest := chunk.drop count }
    else some { receiver := { out with state := .payload header collected }, rest := chunk.drop count }
  | .discard remaining =>
    let count := min remaining chunk.length
    if count < remaining then do
      let left ← remaining.psub count
      some { receiver := { out with state := .discard left }, rest := chunk.drop count }
    else some { receiver := out, rest := chunk.drop count }

/-- The loop over a chunk, if it is over after that many turns at most. -/
def run? : Nat → Receiver → Bytes → Option (Receiver × List Arrival)
  | _, r, [] => some (r, [])
  | 0, _, _ :: _ => none
  | turns + 1, r, b :: rest => do
    let t ← r.turn? (b :: rest)
    let (r, more) ← run? turns t.receiver t.rest
    some (r, t.arrival.toList ++ more)

end Receiver

/-! ## Turns -/

namespace Deframer

/-- The receiver in the same place. -/
def receiver (d : Deframer) : Receiver :=
  match d.phase with
  | .header got => { version := d.version, ceiling := d.ceiling, buffer := got }
  | .payload header collected =>
    { version := d.version, ceiling := d.ceiling, state := .payload header collected.toList }
  | .skipping remaining => { version := d.version, ceiling := d.ceiling, state := .discard remaining }

theorem isIdle_receiver (d : Deframer) : d.receiver.isIdle = d.isIdle := by
  unfold receiver isIdle Receiver.isIdle
  cases d.phase <;> simp

/-- What a pass comes to for a receiver. -/
def Pass.turn (p : Pass) : Turn where
  receiver := p.deframer.receiver
  arrival := p.arrival
  rest := p.rest

theorem receiver_skip (d : Deframer) (size : Nat) :
    (d.skip size).receiver = Receiver.discard { version := d.version, ceiling := d.ceiling } size := by
  unfold skip receiver Receiver.discard
  by_cases h : size = 0
  · simp [h]
  · simp [h, Nat.pos_of_ne_zero h]

/-- A header that is all there is judged alike. -/
theorem judge?_receiver (d : Deframer) {bytes : Bytes} (h : headerLength (versionOf bytes) ≤ bytes.length)
    (rest : Bytes) :
    Receiver.judge? { version := d.version, ceiling := d.ceiling, buffer := bytes } rest
      = some (d.closeHeader bytes rest).turn := by
  unfold Receiver.judge? closeHeader
  dsimp only
  rw [if_neg (Nat.not_lt.mpr h)]
  cases Header.decode? bytes with
  | error fault => simp [Pass.turn, receiver_skip]
  | ok read =>
    obtain ⟨header, -⟩ := read
    dsimp only
    cases header.check d.ceiling with
    | error fault => simp [Pass.turn, receiver_skip]
    | ok _ =>
      dsimp only
      split <;> rfl

/-- As many bytes as the version in use asks for are enough for the header that they announce. -/
theorem headerLength_versionOf_le {version : UInt8} {bytes : Bytes}
    (h : ∀ b ∈ bytes.head?, announcedVersion b ≠ 0 → announcedVersion b = version) :
    headerLength (versionOf bytes) ≤ headerLength version := by
  cases bytes with
  | nil => exact eight_le_headerLength version
  | cons b rest =>
    by_cases hzero : announcedVersion b = 0
    · have hversion : versionOf (b :: rest) = 0 := hzero
      rw [hversion]
      exact eight_le_headerLength version
    · exact (congrArg headerLength (h b rfl hzero)).le

/-- A chunk up to as many bytes as are missing, of which there is one at least. -/
theorem take_min_cons (missing : Nat) (b : UInt8) (rest : Bytes) :
    (b :: rest).take (min (missing + 1) (b :: rest).length) = b :: rest.take missing
      ∧ (b :: rest).drop (min (missing + 1) (b :: rest).length) = rest.drop missing := by
  rw [List.length_cons, Nat.add_min_add_right, List.take_succ_cons, List.drop_succ_cons]
  exact ⟨congrArg _ List.take_eq_take_min.symm, (List.drop_eq_drop_min ..).symm⟩

/-- What is missing, if anything is, is one more than what is missing after the next byte. -/
theorem psub_of_lt {m n : Nat} (h : n < m) : m.psub n = some (m - (n + 1) + 1) :=
  Nat.psub_eq_some.mpr (by omega)

/-- Header bytes are taken off the chunk alike, once the version in use is that of the header. -/
theorem collect?_receiver {d : Deframer} {got : Bytes} {b : UInt8} (rest : Bytes)
    (hlt : got.length < headerLength d.version)
    (hfirst : ∀ x ∈ (got ++ [b]).head?, announcedVersion x ≠ 0 → announcedVersion x = d.version) :
    Receiver.collect? { version := d.version, ceiling := d.ceiling, buffer := got } (b :: rest)
      = some (d.passHeader got b rest).turn := by
  unfold Receiver.collect? passHeader
  dsimp only
  rw [psub_of_lt hlt, Option.bind_eq_bind, Option.bind_some]
  obtain ⟨htake, hdrop⟩ := take_min_cons (headerLength d.version - (got.length + 1)) b rest
  rw [htake, hdrop]
  split
  · rfl
  · rename_i hwhole
    refine judge?_receiver d ((headerLength_versionOf_le ?_).trans (Nat.not_lt.mp hwhole)) _
    intro x hx
    refine hfirst x ?_
    cases got <;> simpa using hx

/-- A header starts alike: its first byte decides which version is in use. -/
theorem takeHeader?_receiver {d : Deframer} (h : d.Sound) {got : Bytes} (hphase : d.phase = .header got) (b : UInt8)
    (rest : Bytes) :
    Receiver.takeHeader? { version := d.version, ceiling := d.ceiling, buffer := got } (b :: rest)
      = some (d.pass b rest).turn := by
  unfold Sound at h
  rw [hphase] at h
  obtain ⟨hlt, hversion⟩ := h
  unfold Receiver.takeHeader? pass
  rw [hphase, List.head?_cons, Option.bind_eq_bind, Option.bind_some]
  cases got with
  | nil =>
    have hadopt : Receiver.adopt { version := d.version, ceiling := d.ceiling, buffer := [] } b
        = { version := (d.restart.adopt b).version, ceiling := (d.restart.adopt b).ceiling, buffer := [] } := by
      unfold Receiver.adopt Deframer.adopt
      by_cases hb : announcedVersion b = 0 <;> simp [hb, restart]
    rw [hadopt]
    refine collect?_receiver rest (Nat.lt_of_lt_of_le (by decide) (eight_le_headerLength _)) ?_
    intro x hx hx0
    obtain rfl : b = x := by simpa using hx
    exact (version_adopt hx0).symm
  | cons y ys =>
    have hadopt : Receiver.adopt { version := d.version, ceiling := d.ceiling, buffer := y :: ys } b
        = { version := d.version, ceiling := d.ceiling, buffer := y :: ys } := by
      simp [Receiver.adopt]
    rw [hadopt]
    refine collect?_receiver (d := d.restart) rest hlt ?_
    intro x hx
    exact hversion x (by simpa using hx)

/-- Payload bytes are taken off the chunk alike. -/
theorem turn?_payload {d : Deframer} {header : Header} {collected : Array UInt8}
    (hlt : collected.size < header.size.toNat) (b : UInt8) (rest : Bytes) :
    Receiver.turn? { version := d.version, ceiling := d.ceiling, state := .payload header collected.toList } (b :: rest)
      = some (d.restart.passPayload header collected b rest).turn := by
  unfold Receiver.turn? passPayload
  dsimp only
  rw [Array.length_toList, psub_of_lt hlt, Option.bind_eq_bind, Option.bind_some]
  obtain ⟨htake, hdrop⟩ := take_min_cons (header.size.toNat - (collected.size + 1)) b rest
  rw [htake, hdrop]
  set missing := header.size.toNat - (collected.size + 1) with hmissing
  have hbytes : collected.toList ++ b :: rest.take missing = (collected.push b ++ rest.take missing).toList := by simp
  rw [hbytes, Array.length_toList]
  -- no more is taken than is missing, so the payload does not come out too long
  have hle : (collected.push b ++ rest.take missing).size ≤ header.size.toNat := by
    rw [← Array.length_toList, ← hbytes, List.length_append, Array.length_toList, List.length_cons, List.length_take]
    omega
  by_cases hwhole : (collected.push b ++ rest.take missing).size = header.size.toNat
  · rw [if_pos hwhole, if_neg hwhole.not_lt]
    rfl
  · rw [if_neg hwhole, if_pos (hle.lt_of_ne hwhole)]
    rfl

/-- Bytes are thrown away alike. -/
theorem turn?_skipping {d : Deframer} {remaining : Nat} (hpos : 0 < remaining) (b : UInt8) (rest : Bytes) :
    Receiver.turn? { version := d.version, ceiling := d.ceiling, state := .discard remaining } (b :: rest)
      = some (d.restart.passSkipped remaining rest).turn := by
  obtain ⟨more, rfl⟩ := Nat.exists_eq_add_one.mpr hpos
  have hcount : min (more + 1) (b :: rest).length = 1 + (rest.take more).length := by
    rw [List.length_cons, Nat.add_min_add_right, List.length_take, Nat.add_comm]
  unfold Receiver.turn? passSkipped
  dsimp only
  rw [(take_min_cons more b rest).2, hcount, Nat.add_sub_cancel]
  by_cases hlt : 1 + (rest.take more).length < more + 1
  · rw [if_pos hlt, Nat.psub_eq_sub hlt.le, Option.bind_eq_bind, Option.bind_some, Pass.turn, receiver_skip,
      Receiver.discard, if_pos (Nat.sub_pos_of_lt hlt)]
    rfl
  · rw [if_neg hlt, Nat.sub_eq_zero_of_le (Nat.not_lt.mp hlt)]
    rfl

/-- **Every turn is a pass.** A receiver in the place of a sound deframer has an outcome for every chunk that is not
    empty, and it is that of the deframer. -/
theorem turn?_receiver {d : Deframer} (h : d.Sound) (b : UInt8) (rest : Bytes) :
    d.receiver.turn? (b :: rest) = some (d.pass b rest).turn := by
  cases hphase : d.phase with
  | header got =>
    have hturn := takeHeader?_receiver h hphase b rest
    unfold receiver
    rw [hphase]
    exact hturn
  | payload header collected =>
    unfold Sound at h
    rw [hphase] at h
    unfold receiver pass
    rw [hphase]
    exact turn?_payload h.1 b rest
  | skipping remaining =>
    unfold Sound at h
    rw [hphase] at h
    unfold receiver pass
    rw [hphase]
    exact turn?_skipping h b rest

/-- **Every loop is a push.** The induction is on the turns that are left: a turn takes a byte at least, so there are
    enough of them. -/
theorem run?_receiver {d : Deframer} (h : d.Sound) {turns : Nat} {chunk : Bytes} (hturns : chunk.length ≤ turns) :
    d.receiver.run? turns chunk = some ((d.push chunk).1.receiver, (d.push chunk).2) := by
  induction turns generalizing d chunk with
  | zero =>
    obtain rfl := List.length_eq_zero_iff.mp (Nat.le_zero.mp hturns)
    rw [push_nil]
    rfl
  | succ turns ih =>
    cases chunk with
    | nil =>
      rw [push_nil]
      rfl
    | cons b rest =>
      have hrest : (d.pass b rest).rest.length ≤ turns :=
        Nat.le_of_lt_succ ((length_rest_pass_lt d b rest).trans_le hturns)
      rw [Receiver.run?, turn?_receiver h, push_cons]
      simp only [Option.bind_eq_bind, Option.bind_some, Pass.turn, ih (sound_pass h b rest) hrest]

/-! ## Bytes taken -/

/-- **A pass is a push of the bytes that it takes**, of which there is one at least. -/
theorem exists_push_pass {d : Deframer} (h : d.Sound) (b : UInt8) (rest : Bytes) :
    ∃ taken ≠ [], b :: rest = taken ++ (d.pass b rest).rest
      ∧ d.push taken = ((d.pass b rest).deframer, (d.pass b rest).arrival.toList) := by
  have hone : d.push [b] = ((d.pass b []).deframer, (d.pass b []).arrival.toList) := by
    rw [push_cons_eq h, push_nil, List.append_nil]
  induction rest generalizing d b with
  | nil =>
    refine ⟨[b], List.cons_ne_nil b [], ?_, hone⟩
    rw [rest_pass_singleton]
    rfl
  | cons c rest ih =>
    rcases pass_cons h b c rest with ⟨hnone, heq⟩ | heq
    · -- the phase calls for more than `b`, and goes on with `c`
      have hsound := sound_pass h b []
      obtain ⟨taken, -, hbytes, hpush⟩ := ih hsound c (by rw [push_cons_eq hsound, push_nil, List.append_nil])
      refine ⟨b :: taken, List.cons_ne_nil b taken, ?_, ?_⟩
      · rw [heq, List.cons_append, ← hbytes]
      · rw [push_cons_eq h, hpush, hnone, heq]
        rfl
    · -- the phase ends with `b`
      refine ⟨[b], List.cons_ne_nil b [], ?_, ?_⟩
      · rw [heq]
        rfl
      · rw [hone, heq]

/-! ## Boundaries -/

/-- Too few bytes for a header are kept. -/
theorem push_short {d : Deframer} (hi : d.phase = .header []) {b : UInt8} {tail : Bytes}
    (hlt : (b :: tail).length < headerLength (d.adopt b).version) :
    d.push (b :: tail) = ({ d.adopt b with phase := .header (b :: tail) }, []) := by
  have hmissing : tail.length ≤ headerLength (d.adopt b).version - (([] : Bytes).length + 1) :=
    Nat.le_sub_of_add_le hlt.le
  have hp : d.pass b tail = { deframer := { d.adopt b with phase := .header (b :: tail) }, rest := [] } := by
    unfold pass
    rw [hi, restart_of_header_nil hi]
    show (d.adopt b).passHeader [] b tail = _
    unfold passHeader
    dsimp only
    rw [List.take_of_length_le hmissing, List.drop_eq_nil_of_le hmissing, List.nil_append, if_pos hlt]
  rw [push_cons, hp, push_nil]
  rfl

/-- Too few bytes for a payload are kept. -/
theorem push_payload_short (d : Deframer) {header : Header} {bytes : Bytes} (hlt : bytes.length < header.size.toNat) :
    (({ d with phase := .payload header #[] } : Deframer).push bytes).1.isIdle = false := by
  cases bytes with
  | nil =>
    rw [push_nil]
    rfl
  | cons b rest =>
    have hp : ({ d with phase := .payload header #[] } : Deframer).pass b rest
        = { deframer := { d with phase := .payload header (b :: rest).toArray }, rest := [] } := by
      have hmissing : rest.length ≤ header.size.toNat - ((#[] : Array UInt8).size + 1) := Nat.le_sub_of_add_le hlt.le
      have hbytes : (#[] : Array UInt8).push b ++ rest = (b :: rest).toArray := by simp
      show passPayload _ header #[] b rest = _
      unfold passPayload
      dsimp only
      rw [List.take_of_length_le hmissing, List.drop_eq_nil_of_le hmissing, hbytes, if_pos (by simpa using hlt)]
      rfl
    rw [push_cons, hp, push_nil]
    rfl

/-- A header that announces a payload leaves the deframer waiting for all of it, whether it is accepted or not. -/
theorem push_closeHeader_short (d : Deframer) {head rest : Bytes} (hv : versionOf head ≠ 0)
    (hl : head.length = headerLength (versionOf head)) (hlt : rest.length < bigEndian ((head.drop 4).take 4)) :
    ((d.closeHeader head rest).deframer.push rest).1.isIdle = false := by
  obtain ⟨size, hsize, hbig⟩ := announcedSize_whole hv hl
  rw [← hbig] at hlt
  have hskip : ((d.skip size.toNat).push rest).1.isIdle = false := by
    rw [push_skip d hlt.le]
    unfold skip isIdle
    rw [if_neg (Nat.sub_ne_zero_of_lt hlt)]
  unfold closeHeader
  rcases decode?_whole hv hl with ⟨h, hd, -, hs⟩ | ⟨fault, hd, -⟩
  · obtain rfl : size = h.size := Option.some.inj (hsize.symm.trans hs)
    rw [hd]
    dsimp only
    cases h.check d.ceiling with
    | error fault => exact hskip
    | ok _ =>
      have hz : h.size ≠ 0 := by
        rintro hz
        rw [hz] at hlt
        exact Nat.not_lt_zero _ hlt
      dsimp only
      rw [if_neg hz]
      exact push_payload_short d hlt
  · rw [hd, hsize]
    exact hskip

/-- In front of a header comes a whole header, unless the bytes end in the middle of one. -/
theorem exists_head {d : Deframer} (hi : d.phase = .header []) {bytes : Bytes} (hne : bytes ≠ [])
    (hidle : (d.push bytes).1.isIdle = true) :
    ∃ b tail rest, bytes = b :: tail ++ rest ∧ (b :: tail).length = headerLength (d.adopt b).version := by
  obtain ⟨b, after, rfl⟩ := List.exists_cons_of_ne_nil hne
  by_cases hshort : (b :: after).length < headerLength (d.adopt b).version
  · rw [push_short hi hshort] at hidle
    cases hidle
  obtain ⟨k, hk⟩ : ∃ k, headerLength (d.adopt b).version = k + 1 :=
    Nat.exists_eq_add_one.mpr (Nat.lt_of_lt_of_le (by decide) (eight_le_headerLength _))
  rw [List.length_cons, hk] at hshort
  refine ⟨b, after.take k, after.drop k, ?_, ?_⟩
  · rw [List.cons_append, List.take_append_drop]
  · rw [List.length_cons, List.length_take, hk]
    omega

/-- **In front of a header comes an item**, unless the bytes end in the middle of one. -/
theorem exists_item {d : Deframer} (hi : d.phase = .header []) {bytes : Bytes} (hne : bytes ≠ [])
    (hidle : (d.push bytes).1.isIdle = true) :
    ∃ (i : Item) (more : Bytes), i.Fits d.version ∧ bytes = i.bytes ++ more := by
  obtain ⟨b, tail, rest, rfl, hl⟩ := exists_head hi hne hidle
  by_cases hb : announcedVersion b = 0
  · rw [adopt_of_eq_zero hb] at hl
    exact ⟨.blank (b :: tail), rest, ⟨hb, hl⟩, congrArg (· ++ rest) (List.append_nil (b :: tail)).symm⟩
  · have hlv : (b :: tail).length = headerLength (versionOf (b :: tail)) := by
      rw [hl, version_adopt hb]
      rfl
    set size := bigEndian (((b :: tail).drop 4).take 4) with hsize
    by_cases hlt : rest.length < size
    · have hwaits := push_closeHeader_short (d.adopt b) (show versionOf (b :: tail) ≠ 0 from hb) hlv hlt
      rw [push_head hi hl, hwaits] at hidle
      cases hidle
    · refine ⟨.framed (b :: tail) (rest.take size), rest.drop size, ⟨hb, hlv, ?_⟩, ?_⟩
      · rw [List.length_take]
        exact Nat.min_eq_left (Nat.not_lt.mp hlt)
      · show _ = b :: tail ++ rest.take size ++ rest.drop size
        rw [List.append_assoc, List.take_append_drop]

/-- An item has bytes. -/
theorem length_bytes_pos {version : UInt8} {i : Item} (h : i.Fits version) : 0 < i.bytes.length := by
  have hhead : 8 ≤ i.head.length := by
    cases i with
    | framed head payload => exact (eight_le_headerLength _).trans h.2.1.ge
    | blank block => exact (eight_le_headerLength _).trans h.2.ge
  rw [Item.bytes, List.length_append]
  omega

/-- Items leave the deframer in front of a header. -/
theorem isIdle_push_items {d : Deframer} (hi : d.phase = .header []) {items : List Item}
    (h : Aligned d.version items) : (d.push (items.flatMap Item.bytes)).1.isIdle = true := by
  induction items generalizing d with
  | nil =>
    rw [List.flatMap_nil, push_nil]
    unfold isIdle
    rw [hi]
    rfl
  | cons i items ih =>
    obtain ⟨hfits, hrest⟩ := h
    obtain ⟨arrival, hpush, -⟩ := push_item hi hfits
    rw [List.flatMap_cons, push_append (sound_of_header_nil hi), hpush]
    exact ih rfl hrest

/-- **The deframer is between two frames exactly if the bytes so far are items that stand for themselves.** From the
    bytes to the items the induction is on their number: an item comes first, and what follows it is pushed from the
    front of a header as well. -/
theorem isIdle_push_iff {d : Deframer} (hi : d.phase = .header []) (bytes : Bytes) :
    (d.push bytes).1.isIdle = true ↔ ∃ items, Aligned d.version items ∧ bytes = items.flatMap Item.bytes := by
  refine ⟨fun hidle => ?_, fun ⟨items, h, hbytes⟩ => hbytes ▸ isIdle_push_items hi h⟩
  induction hn : bytes.length using Nat.strongRecOn generalizing d bytes with
  | ind n ih =>
    by_cases hne : bytes = []
    · exact ⟨[], trivial, hne⟩
    obtain ⟨i, more, hfits, rfl⟩ := exists_item hi hne hidle
    obtain ⟨arrival, hpush, -⟩ := push_item hi hfits
    rw [push_append (sound_of_header_nil hi), hpush] at hidle
    have hlt : more.length < n := by
      rw [← hn, List.length_append]
      exact Nat.lt_add_of_pos_left (length_bytes_pos hfits)
    obtain ⟨items, haligned, rfl⟩ := ih more.length hlt rfl more hidle rfl
    exact ⟨i :: items, ⟨hfits, haligned⟩, rfl⟩

end Deframer

/-! ## What arrives -/

/-- Whether a header is refused for want of bytes. -/
def HeaderFault.Short : HeaderFault → Prop
  | .truncated _ | .messageMissing _ => True
  | _ => False

/-- What arrives is whole: a frame has the payload that its header announces, and no header is read from too few
    bytes. -/
def Arrival.Whole : Arrival → Prop
  | .ok f => f.payload.length = f.header.size.toNat
  | .error fault => ¬ fault.Short

/-- As many bytes as the announced version asks for are not too few. -/
theorem not_short_of_decode? {bytes : Bytes} (hl : headerLength (versionOf bytes) ≤ bytes.length) {fault : HeaderFault}
    (hd : Header.decode? bytes = .error fault) : ¬ fault.Short := by
  match bytes, (eight_le_headerLength _).trans hl with
  | b :: s :: detail :: session :: s₀ :: s₁ :: s₂ :: s₃ :: rest, _ =>
    have hmessage : 2 ≤ announcedVersion b → 4 ≤ rest.length := by
      intro hv
      change headerLength (announcedVersion b) ≤ _ at hl
      rw [headerLength_of_le hv] at hl
      simp only [List.length_cons] at hl
      omega
    obtain ⟨message, more, hfield⟩ := exists_messageField_of_le hmessage
    unfold Header.decode? at hd
    dsimp only at hd
    rw [hfield] at hd
    split at hd
    · cases hd
      exact id
    · split at hd
      · cases hd
        exact id
      · split at hd
        · cases hd
          exact id
        · cases hd

namespace Receiver

variable {r : Receiver} {chunk rest : Bytes} {t : Turn} {a : Arrival}

theorem whole_of_judge? (h : r.judge? rest = some t) (ha : t.arrival = some a) : a.Whole := by
  unfold judge? at h
  dsimp only at h
  split at h
  · cases h
  · rename_i hl
    split at h
    · rename_i hd
      cases h
      cases ha
      exact not_short_of_decode? (Nat.not_lt.mp hl) hd
    · rename_i header _ _
      split at h
      · rename_i hc
        cases h
        cases ha
        unfold Header.check at hc
        split at hc
        · cases hc
          exact id
        · cases hc
      · split at h
        · rename_i hz
          cases h
          cases ha
          exact (congrArg UInt32.toNat hz).symm
        · cases h
          cases ha

theorem whole_of_collect? (h : r.collect? chunk = some t) (ha : t.arrival = some a) : a.Whole := by
  obtain ⟨missing, -, h⟩ := Option.bind_eq_some_iff.mp h
  dsimp only at h
  split at h
  · cases h
    cases ha
  · exact whole_of_judge? h ha

/-- **What arrives with a turn is whole.** -/
theorem whole_of_turn? (h : r.turn? chunk = some t) (ha : t.arrival = some a) : a.Whole := by
  unfold turn? at h
  dsimp only at h
  split at h
  · obtain ⟨first, -, h⟩ := Option.bind_eq_some_iff.mp h
    exact whole_of_collect? h ha
  · obtain ⟨missing, -, h⟩ := Option.bind_eq_some_iff.mp h
    split at h
    · rename_i hall
      cases h
      cases ha
      exact hall
    · cases h
      cases ha
  · split at h
    · obtain ⟨left, -, h⟩ := Option.bind_eq_some_iff.mp h
      cases h
      cases ha
    · cases h
      cases ha

/-! ## All states -/

/-- **The states of a receiver**, also in the middle of a chunk, with the bytes that it has taken, what has arrived with
    them, and the part of the chunk that is still to be looked at. -/
inductive Reached (version : UInt8) (ceiling : UInt32) : Receiver → Bytes → List Arrival → Bytes → Prop where
  | fresh : Reached version ceiling { version, ceiling } [] [] []
  /-- The next chunk comes when the loop over the last one is over. -/
  | chunk {r : Receiver} {past : Bytes} {arrivals : List Arrival} (chunk : Bytes)
      (h : Reached version ceiling r past arrivals []) : Reached version ceiling r past arrivals chunk
  | turn {r : Receiver} {past : Bytes} {arrivals : List Arrival} {b : UInt8} {rest taken : Bytes} {t : Turn}
      (h : Reached version ceiling r past arrivals (b :: rest)) (turn : r.turn? (b :: rest) = some t)
      (htaken : taken ++ t.rest = b :: rest) :
      Reached version ceiling t.receiver (past ++ taken) (arrivals ++ t.arrival.toList) t.rest

/-- **What holds between any two turns.** -/
structure Invariant (ceiling : UInt32) (r : Receiver) : Prop where
  /-- Header bytes are kept in headers only. -/
  cleared : r.state ≠ .header → r.buffer = []
  payload : ∀ header collected, r.state = .payload header collected →
    collected.length < header.size.toNat ∧ 0 < header.size.toNat ∧ header.size ≤ ceiling
  discard : ∀ remaining, r.state = .discard remaining → 0 < remaining
  header : r.state = .header → r.buffer.length < headerLength r.version
  /-- The version in use is that of the header that is under way. -/
  version : r.state = .header → ∀ first ∈ r.buffer.head?, announcedVersion first ≠ 0 →
    announcedVersion first = r.version

variable {version : UInt8} {ceiling : UInt32} {past : Bytes} {arrivals : List Arrival}

/-- **A receiver goes where the deframer goes** that the same bytes are pushed to. -/
theorem Reached.deframer (h : Reached version ceiling r past arrivals chunk) :
    ((Deframer.mk version ceiling (.header [])).push past).1.receiver = r
      ∧ ((Deframer.mk version ceiling (.header [])).push past).2 = arrivals := by
  have hfresh : (Deframer.mk version ceiling (.header [])).Sound := Deframer.sound_of_header_nil rfl
  induction h with
  | fresh =>
    rw [Deframer.push_nil]
    exact ⟨rfl, rfl⟩
  | chunk _ _ ih => exact ih
  | @turn r past arrivals b rest taken t _ turn htaken ih =>
    obtain ⟨hr, harrivals⟩ := ih
    have hsound := Deframer.sound_push hfresh past
    rw [Deframer.push_append hfresh]
    generalize (Deframer.mk version ceiling (.header [])).push past = p at hr harrivals hsound ⊢
    obtain ⟨d, before⟩ := p
    dsimp only at hr harrivals hsound ⊢
    subst hr harrivals
    rw [Deframer.turn?_receiver hsound] at turn
    obtain rfl := Option.some.inj turn
    obtain ⟨taken', -, hbytes, hpush⟩ := Deframer.exists_push_pass hsound b rest
    obtain rfl : taken = taken' := List.append_cancel_right (htaken.trans hbytes)
    rw [hpush]
    exact ⟨rfl, rfl⟩

end Receiver

/-- What a deframer keeps to is what its receiver keeps to. -/
theorem Deframer.Sound.receiver {d : Deframer} (h : d.Sound) : d.receiver.Invariant d.ceiling := by
  unfold Deframer.Sound at h
  unfold Deframer.receiver
  cases hphase : d.phase with
  | header got =>
    rw [hphase] at h
    exact {
      cleared := fun hstate => absurd rfl hstate
      payload := fun _ _ hstate => nomatch hstate
      discard := fun _ hstate => nomatch hstate
      header := fun _ => h.1
      version := fun _ => h.2 }
  | payload header collected =>
    rw [hphase] at h
    refine {
      cleared := fun _ => rfl
      payload := ?_
      discard := fun _ hstate => nomatch hstate
      header := fun hstate => nomatch hstate
      version := fun hstate => nomatch hstate }
    rintro header collected ⟨⟩
    rw [Array.length_toList]
    exact ⟨h.1, Nat.zero_lt_of_lt h.1, h.2.1⟩
  | skipping remaining =>
    rw [hphase] at h
    refine {
      cleared := fun _ => rfl
      payload := fun _ _ hstate => nomatch hstate
      discard := ?_
      header := fun hstate => nomatch hstate
      version := fun hstate => nomatch hstate }
    rintro remaining ⟨⟩
    exact h

namespace Receiver

variable {r : Receiver} {version : UInt8} {ceiling : UInt32} {past chunk : Bytes} {arrivals : List Arrival}

/-- The deframer in the place of a receiver. -/
theorem Reached.exists_deframer (h : Reached version ceiling r past arrivals chunk) :
    ∃ d : Deframer, d.Sound ∧ d.ceiling = ceiling ∧ d.receiver = r
      ∧ (Deframer.mk version ceiling (.header [])).push past = (d, arrivals) :=
  have hfresh : (Deframer.mk version ceiling (.header [])).Sound := Deframer.sound_of_header_nil rfl
  ⟨_, Deframer.sound_push hfresh past, Deframer.ceiling_push _ past, h.deframer.1, Prod.ext rfl h.deframer.2⟩

/-- **A receiver with bytes to look at has a turn**, which takes one of them at least. -/
theorem Reached.exists_turn {b : UInt8} {rest : Bytes} (h : Reached version ceiling r past arrivals (b :: rest)) :
    ∃ t taken, r.turn? (b :: rest) = some t ∧ taken ≠ [] ∧ b :: rest = taken ++ t.rest := by
  obtain ⟨d, hsound, -, rfl, -⟩ := h.exists_deframer
  obtain ⟨taken, hne, hbytes, -⟩ := Deframer.exists_push_pass hsound b rest
  exact ⟨_, taken, Deframer.turn?_receiver hsound b rest, hne, hbytes⟩

/-- Turns come one after the other until the chunk is used up. -/
theorem Reached.run? {r' : Receiver} {more : List Arrival} {turns : Nat}
    (h : Reached version ceiling r past arrivals chunk) (hrun : r.run? turns chunk = some (r', more)) :
    Reached version ceiling r' (past ++ chunk) (arrivals ++ more) [] := by
  induction turns generalizing r past arrivals chunk more with
  | zero =>
    cases chunk with
    | nil =>
      cases hrun
      simpa using h
    | cons b rest => cases hrun
  | succ turns ih =>
    cases chunk with
    | nil =>
      cases hrun
      simpa using h
    | cons b rest =>
      obtain ⟨t, taken, hturn, -, hbytes⟩ := h.exists_turn
      rw [Receiver.run?, hturn, Option.bind_eq_bind, Option.bind_some] at hrun
      obtain ⟨⟨r'', later⟩, hlater, hrun⟩ := Option.bind_eq_some_iff.mp hrun
      cases hrun
      have hend := ih (h.turn hturn hbytes.symm) hlater
      rwa [List.append_assoc, ← hbytes, List.append_assoc] at hend

/-- All that has arrived is whole. -/
theorem Reached.whole (h : Reached version ceiling r past arrivals chunk) : ∀ a ∈ arrivals, a.Whole := by
  induction h with
  | fresh => simp
  | chunk _ _ ih => exact ih
  | turn _ turn _ ih =>
    intro a ha
    rcases List.mem_append.mp ha with ha | ha
    · exact ih a ha
    · exact whole_of_turn? turn (Option.mem_toList.mp ha)

end Receiver

/-- **A receiver never goes wrong, and knows where it is.** Of every state that chunks can lead to, between two chunks
    and in the middle of one, the following holds.

    It keeps to the invariant. If there are bytes to look at, the next turn has an outcome: the differences that it
    forms are not negative, and a header that it reads is all there. It takes a byte at least, so the loop is over
    after as many turns as there are bytes. All that has arrived is whole. The receiver is idle if and only if the
    bytes that it has taken are items that stand for themselves, frames and refused headers. And it is in the same
    place as the deframer that the bytes were pushed to, with the same arrivals. -/
theorem receiver_invariant_and_progress {version : UInt8} {ceiling : UInt32} {r : Receiver} {past chunk : Bytes}
    {arrivals : List Arrival} (h : Receiver.Reached version ceiling r past arrivals chunk) :
    r.Invariant ceiling
      ∧ (chunk ≠ [] → ∃ t taken, r.turn? chunk = some t ∧ taken ≠ [] ∧ chunk = taken ++ t.rest)
      ∧ (∃ r' more, r.run? chunk.length chunk = some (r', more)
          ∧ Receiver.Reached version ceiling r' (past ++ chunk) (arrivals ++ more) [])
      ∧ (∀ a ∈ arrivals, a.Whole)
      ∧ (r.isIdle = true ↔ ∃ items, Aligned version items ∧ past = items.flatMap Item.bytes)
      ∧ ∃ d : Deframer, (Deframer.mk version ceiling (.header [])).push past = (d, arrivals) ∧ d.receiver = r := by
  obtain ⟨d, hsound, hceiling, hr, hpush⟩ := h.exists_deframer
  refine ⟨?_, ?_, ?_, h.whole, ?_, d, hpush, hr⟩
  · rw [← hr, ← hceiling]
    exact hsound.receiver
  · intro hne
    obtain ⟨b, rest, rfl⟩ := List.exists_cons_of_ne_nil hne
    exact h.exists_turn
  · have hrun := Deframer.run?_receiver hsound (Nat.le_refl chunk.length)
    rw [hr] at hrun
    exact ⟨_, _, hrun, h.run? hrun⟩
  · have hidle := Deframer.isIdle_push_iff (d := ⟨version, ceiling, .header []⟩) rfl past
    rwa [hpush, ← Deframer.isIdle_receiver, hr] at hidle

/-- Between the two turns that a chunk takes which brings the rest of a header, begun in the chunk before, and the
    payload. -/
theorem receiver_invariant_and_progress_payload :
    let header : Header :=
      { version := 2, type := .single, service := .bulk, session := 1, size := 2, message := 9 }
    let r : Receiver := { version := 2, ceiling := 4, state := .payload header [] }
    let past : Bytes := [0x21, 0x0F, 0, 1, 0, 0, 0, 2, 0, 0, 0, 9]
    Receiver.Reached 1 4 r past [] [7, 8, 0x08]
      ∧ r.Invariant 4 ∧ (∃ t taken, r.turn? [7, 8, 0x08] = some t ∧ taken ≠ [] ∧ [7, 8, 0x08] = taken ++ t.rest)
      ∧ ¬ ∃ items, Aligned 1 items ∧ past = items.flatMap Item.bytes := by
  intro header r past
  have begun : Receiver.Reached 1 4 { version := 2, ceiling := 4, buffer := past.take 5 } (past.take 5) [] [] :=
    .turn (t := { receiver := { version := 2, ceiling := 4, buffer := past.take 5 }, rest := [] })
      (.chunk [0x21, 0x0F, 0, 1, 0] .fresh) (by decide) rfl
  have h : Receiver.Reached 1 4 r past [] [7, 8, 0x08] :=
    .turn (t := { receiver := r, rest := [7, 8, 0x08] }) (.chunk [0, 0, 2, 0, 0, 0, 9, 7, 8, 0x08] begun)
      (by decide) rfl
  obtain ⟨hinvariant, hturn, -, -, hidle, -⟩ := receiver_invariant_and_progress h
  exact ⟨h, hinvariant, hturn (by decide), fun hitems => by cases hidle.mpr hitems⟩

end HeadLink
