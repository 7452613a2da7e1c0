import HeadLink.Frame.Basic

/-!
# Cutting a byte stream into frames

Bytes arrive in chunks of any size. A deframer keeps what it has of the current frame, so that a
frame may be spread over any number of chunks and a chunk may hold any number of frames.

The first byte of a header announces its version and with it its length; the deframer adopts that
version. A header that is refused is reported in place of its frame, and the payload that it
announces is skipped, so that the next frame is found again.

## Contents
- **State.** `Deframer` and its `Phase`; `Deframer.isIdle` between two frames.
- **Passes.** `Deframer.pass` takes as many bytes off the front of a chunk as its phase calls for, and
  always at least one (`Deframer.length_rest_pass_lt`).
- **Chunks.** `Deframer.push` passes over a whole chunk.
-/

namespace HeadLink

/-! ## State -/

/-- Where in a frame the stream stands. -/
inductive Phase where
  /-- In a header, or before its first byte. -/
  | header (got : Bytes)
  /-- In the payload of a header that was accepted. -/
  | payload (header : Header) (collected : Array UInt8)
  /-- In the payload of a header that was refused. -/
  | skipping (remaining : Nat)
  deriving DecidableEq

/-- The state of a receiver of frames. -/
structure Deframer where
  /-- The version that sizes the next header, unless its first byte announces another one. -/
  version : UInt8
  /-- The largest payload that a header may announce. -/
  ceiling : UInt32
  phase : Phase := .header []
  deriving DecidableEq

/-- What a stretch of the stream turns out to be: a frame, or a header that is refused. -/
abbrev Arrival := Except HeaderFault Frame

namespace Deframer

/-- Whether the next byte starts a header. -/
def isIdle (d : Deframer) : Bool :=
  match d.phase with
  | .header got => got.isEmpty
  | _ => false

/-- Adopts the version that the first byte of a header announces; version 0 is no version. -/
def adopt (d : Deframer) (first : UInt8) : Deframer :=
  if announcedVersion first = 0 then d else { d with version := announcedVersion first }

/-- The deframer in front of a header. -/
def restart (d : Deframer) : Deframer := { d with phase := .header [] }

/-! ## Passes -/

/-- What one pass over the front of a chunk comes to. -/
structure Pass where
  deframer : Deframer
  arrival : Option Arrival := none
  /-- The part of the chunk that is still to be looked at. -/
  rest : Bytes

/-- Skips a payload of the given size, which may be 0. -/
def skip (d : Deframer) (size : Nat) : Deframer :=
  { d with phase := if size = 0 then .header [] else .skipping size }

/-- Judges the bytes of a complete header. -/
def closeHeader (d : Deframer) (bytes rest : Bytes) : Pass :=
  match Header.decode? bytes with
  | .error fault =>
    let size := (announcedSize bytes).getD 0
    { deframer := d.skip size.toNat, arrival := some (.error fault), rest }
  | .ok (header, _) =>
    match header.check d.ceiling with
    | .error fault =>
      { deframer := d.skip header.size.toNat, arrival := some (.error fault), rest }
    | .ok () =>
      if header.size = 0 then
        { deframer := d.restart, arrival := some (.ok { header }), rest }
      else
        { deframer := { d with phase := .payload header #[] }, rest }

/-- Takes header bytes: what is missing from the header, as far as the chunk has it. -/
def passHeader (d : Deframer) (got : Bytes) (b : UInt8) (rest : Bytes) : Pass :=
  let missing := headerLength d.version - (got.length + 1)
  let bytes := got ++ b :: rest.take missing
  if bytes.length < headerLength d.version then
    { deframer := { d with phase := .header bytes }, rest := rest.drop missing }
  else d.closeHeader bytes (rest.drop missing)

/-- Takes payload bytes: what is missing from the payload, as far as the chunk has it. -/
def passPayload (d : Deframer) (header : Header) (collected : Array UInt8) (b : UInt8)
    (rest : Bytes) : Pass :=
  let missing := header.size.toNat - (collected.size + 1)
  let bytes := collected.push b ++ rest.take missing
  if bytes.size < header.size.toNat then
    { deframer := { d with phase := .payload header bytes }, rest := rest.drop missing }
  else
    { deframer := d.restart, arrival := some (.ok { header, payload := bytes.toList })
      rest := rest.drop missing }

/-- Takes bytes that are to be skipped. -/
def passSkipped (d : Deframer) (remaining : Nat) (rest : Bytes) : Pass :=
  let skipped := 1 + (rest.take (remaining - 1)).length
  { deframer := d.skip (remaining - skipped), rest := rest.drop (remaining - 1) }

/-- Takes the bytes `b :: rest` as far as the current phase calls for them. Every phase calls for at
    least one byte. -/
def pass (d : Deframer) (b : UInt8) (rest : Bytes) : Pass :=
  let fresh := d.restart
  match d.phase with
  | .header got => (if got.isEmpty then fresh.adopt b else fresh).passHeader got b rest
  | .payload header collected => fresh.passPayload header collected b rest
  | .skipping remaining => fresh.passSkipped remaining rest

theorem rest_closeHeader (d : Deframer) (bytes rest : Bytes) :
    (d.closeHeader bytes rest).rest = rest := by
  unfold closeHeader
  split
  · rfl
  · split
    · rfl
    · split <;> rfl

theorem rest_passHeader (d : Deframer) (got : Bytes) (b : UInt8) (rest : Bytes) :
    (d.passHeader got b rest).rest = rest.drop (headerLength d.version - (got.length + 1)) := by
  unfold passHeader
  dsimp only
  split
  · rfl
  · rw [rest_closeHeader]

theorem rest_passPayload (d : Deframer) (header : Header) (collected : Array UInt8) (b : UInt8)
    (rest : Bytes) :
    (d.passPayload header collected b rest).rest
      = rest.drop (header.size.toNat - (collected.size + 1)) := by
  unfold passPayload
  dsimp only
  split <;> rfl

/-- A pass takes at least one byte. -/
theorem length_rest_pass_lt (d : Deframer) (b : UInt8) (rest : Bytes) :
    (d.pass b rest).rest.length < (b :: rest).length := by
  unfold pass
  dsimp only
  split
  · rw [rest_passHeader, List.length_drop, List.length_cons]
    omega
  · rw [rest_passPayload, List.length_drop, List.length_cons]
    omega
  · rw [passSkipped, List.length_drop, List.length_cons]
    omega

/-! ## Chunks -/

/-- Passes over a chunk and adds what arrives to `arrivals`. -/
def pushOnto (d : Deframer) (arrivals : Array Arrival) : Bytes → Deframer × Array Arrival
  | [] => (d, arrivals)
  | b :: rest =>
    let p := d.pass b rest
    pushOnto p.deframer (arrivals ++ p.arrival.toList) p.rest
termination_by chunk => chunk.length
decreasing_by exact length_rest_pass_lt d b rest

/-- Takes a chunk and gives what arrives with it, in stream order. -/
def push (d : Deframer) (chunk : Bytes) : Deframer × List Arrival :=
  let (d, arrivals) := d.pushOnto #[] chunk
  (d, arrivals.toList)

end Deframer

end HeadLink
