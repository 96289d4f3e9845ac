import CompressedRom.Word

/-!
# Byte strings

Images, pages, names and buffers are byte strings. A range is taken out of one, or written into
one, only if it lies inside; otherwise the step is a `Fault`. Words are little endian, names are
padded with zero bytes at their end, and names are ordered byte by byte from the left.
-/

namespace CompressedRom

/-- A string of bytes. -/
abbrev Bytes := ByteArray

namespace Bytes

/-- Byte strings are compared by the core library, next to whatever other ways there are. -/
instance (priority := 2000) decEq : DecidableEq Bytes := ByteArray.instDecidableEq

/-- The bytes of a list. -/
def ofList (l : List UInt8) : Bytes := ⟨l.toArray⟩

/-- `n` zero bytes. -/
def zeros (n : Nat) : Bytes := ⟨Array.replicate n 0⟩

@[simp]
theorem size_zeros (n : Nat) : (zeros n).size = n := by
  simp [zeros, ByteArray.size]

/-- The byte at `i`, zero past the end. -/
def byteAt (b : Bytes) (i : Nat) : UInt8 :=
  if h : i < b.size then b[i] else 0

/-- The byte at `i`, which must be there. -/
def byte (b : Bytes) (i : Nat) : Except Fault UInt8 :=
  if h : i < b.size then .ok b[i] else .error .outOfRange

/-- The `len` bytes from `start`, which must lie inside. -/
def slice (b : Bytes) (start len : Nat) : Except Fault Bytes :=
  if start + len ≤ b.size then .ok (b.extract start (start + len)) else .error .outOfRange

/-- `b` with `chunk` in place of its bytes from `start` on, all of which must lie inside. -/
def overwrite (b : Bytes) (start : Nat) (chunk : Bytes) : Except Fault Bytes :=
  if start + chunk.size ≤ b.size then .ok (chunk.copySlice 0 b start chunk.size)
  else .error .outOfRange

theorem size_copySlice {b chunk : Bytes} {start : Nat} (h : start + chunk.size ≤ b.size) :
    (chunk.copySlice 0 b start chunk.size).size = b.size := by
  rw [ByteArray.copySlice_eq_append, ByteArray.size_append, ByteArray.size_append,
    ByteArray.size_extract, ByteArray.size_extract, ByteArray.size_extract, ByteArray.size_data,
    ByteArray.size_data]
  omega

/-- The length of `b` up to `n` without the zero bytes at its end. -/
def usedUpTo (b : Bytes) : Nat → Nat
  | 0 => 0
  | n + 1 => if b.byteAt n = 0 then usedUpTo b n else n + 1

/-- `b` without the zero bytes at its end. -/
def trimZeros (b : Bytes) : Bytes :=
  b.extract 0 (b.usedUpTo b.size)

/-- The little-endian 32-bit word at `i`; bytes past the end count as zero. -/
def wordAt (b : Bytes) (i : Nat) : Nat :=
  (b.byteAt i).toNat + (b.byteAt (i + 1)).toNat * 2 ^ 8 + (b.byteAt (i + 2)).toNat * 2 ^ 16 +
    (b.byteAt (i + 3)).toNat * 2 ^ 24

/-- The little-endian 32-bit word that `b` starts with, which must be there. -/
def word (b : Bytes) : Except Fault Nat :=
  if 4 ≤ b.size then .ok (b.wordAt 0) else .error .outOfRange

/-- The four bytes of a 32-bit word, the lowest first. -/
def ofWord (n : Nat) : Bytes :=
  ofList [UInt8.ofNat n, UInt8.ofNat (n / 2 ^ 8), UInt8.ofNat (n / 2 ^ 16),
    UInt8.ofNat (n / 2 ^ 24)]

theorem wordAt_lt (b : Bytes) (i : Nat) : b.wordAt i < 2 ^ 32 := by
  have h (j : Nat) := UInt8.toNat_lt (b.byteAt j)
  have h0 := h i
  have h1 := h (i + 1)
  have h2 := h (i + 2)
  have h3 := h (i + 3)
  unfold wordAt
  omega

/-- The order of two lists of bytes, decided by the first place where they differ. -/
def orderLists : List UInt8 → List UInt8 → Ordering
  | [], [] => .eq
  | [], _ :: _ => .lt
  | _ :: _, [] => .gt
  | x :: xs, y :: ys => (compare x y).then (orderLists xs ys)

/-- The bytewise lexicographic order. -/
def order (a b : Bytes) : Ordering :=
  orderLists a.data.toList b.data.toList

end Bytes

end CompressedRom
