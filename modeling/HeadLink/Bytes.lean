/-!
# Bytes and 32-bit words

What travels on the link is a sequence of bytes; numbers wider than a byte are written with the most
significant byte first.

## Contents
- **Words.** `Word.encode` and `Word.decode` are inverse to each other (`Word.decode_encode`,
  `Word.encode_decode`).
- **Pieces.** `pieces` cuts a list into runs of a given length and loses nothing (`flatten_pieces`).
-/

namespace HeadLink

/-- A sequence of bytes on the wire. -/
abbrev Bytes := List UInt8

/-! ## Words -/

/-- How many values a word has. -/
def Word.count : Nat := 0x100000000

/-- The four bytes of a word, most significant first. -/
def Word.encode (n : UInt32) : Bytes :=
  [.ofNat (n.toNat / 0x1000000), .ofNat (n.toNat / 0x10000), .ofNat (n.toNat / 0x100),
    .ofNat n.toNat]

/-- The word with the given bytes, most significant first. -/
def Word.decode (a b c d : UInt8) : UInt32 :=
  .ofNat (a.toNat * 0x1000000 + b.toNat * 0x10000 + c.toNat * 0x100 + d.toNat)

@[simp] theorem Word.length_encode (n : UInt32) : (Word.encode n).length = 4 := rfl

/-- Decoding four bytes and encoding the word gives the bytes back. -/
theorem Word.encode_decode (a b c d : UInt8) : Word.encode (Word.decode a b c d) = [a, b, c, d] := by
  have ha := a.toNat_lt
  have hb := b.toNat_lt
  have hc := c.toNat_lt
  have hd := d.toNat_lt
  simp only [Word.encode, Word.decode, UInt32.toNat_ofNat', List.cons.injEq, and_true,
    ← UInt8.toNat_inj, UInt8.toNat_ofNat']
  omega

/-- Encoding a word and decoding its bytes gives the word back. -/
theorem Word.decode_encode (n : UInt32) :
    Word.decode (.ofNat (n.toNat / 0x1000000)) (.ofNat (n.toNat / 0x10000))
      (.ofNat (n.toNat / 0x100)) (.ofNat n.toNat) = n := by
  have h := n.toNat_lt
  simp only [Word.decode, ← UInt32.toNat_inj, UInt8.toNat_ofNat', UInt32.toNat_ofNat']
  omega

/-! ## Pieces -/

variable {α : Type}

/-- Cuts a list into pieces of `size` elements, the last one possibly shorter. Each piece holds at
    least one element, so a size of 0 counts as 1. -/
def pieces (size : Nat) : List α → List (List α)
  | [] => []
  | x :: xs => (x :: xs.take (size - 1)) :: pieces size (xs.drop (size - 1))
termination_by xs => xs.length

@[simp] theorem pieces_nil (size : Nat) : pieces size ([] : List α) = [] := by
  simp [pieces]

theorem pieces_cons (size : Nat) (x : α) (xs : List α) :
    pieces size (x :: xs) = (x :: xs.take (size - 1)) :: pieces size (xs.drop (size - 1)) := by
  rw [pieces]

/-- The pieces of a list, put together again, are the list. -/
theorem flatten_pieces (size : Nat) (xs : List α) : (pieces size xs).flatten = xs := by
  fun_induction pieces size xs with
  | case1 => simp
  | case2 x xs ih =>
    rw [List.flatten_cons, ih, List.cons_append, List.take_append_drop]

/-- No piece is empty. -/
theorem ne_nil_of_mem_pieces {size : Nat} {xs p : List α} (h : p ∈ pieces size xs) : p ≠ [] := by
  fun_induction pieces size xs with
  | case1 => simp at h
  | case2 x xs ih =>
    rw [List.mem_cons] at h
    rcases h with rfl | h
    · exact List.cons_ne_nil _ _
    · exact ih h

/-- There are at most as many pieces as elements. -/
theorem length_pieces_le (size : Nat) (xs : List α) : (pieces size xs).length ≤ xs.length := by
  fun_induction pieces size xs with
  | case1 => simp
  | case2 x xs ih =>
    rw [List.length_drop] at ih
    rw [List.length_cons, List.length_cons]
    omega

end HeadLink
