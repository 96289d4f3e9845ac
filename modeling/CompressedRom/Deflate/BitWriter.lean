import CompressedRom.Bytes

/-!
# Writing of bits

Numbers are written one behind the other in as many bits as each is given, the lowest bit first,
and the bits fill bytes from the low end.
-/

namespace CompressedRom.Deflate

/-- Bits that have been written: whole bytes, and fewer than eight more bits in a number. -/
structure BitWriter where
  bytes : Bytes
  pending : Nat
  count : Nat

namespace BitWriter

/-- Nothing has been written. -/
def empty : BitWriter := ⟨Bytes.zeros 0, 0, 0⟩

/-- Moves whole bytes from the pending bits to the written ones. -/
def drain (bytes : Bytes) (pending count : Nat) : BitWriter :=
  if 8 ≤ count then drain (bytes.push (UInt8.ofNat pending)) (pending / 256) (count - 8)
  else ⟨bytes, pending, count⟩
termination_by count

/-- Writes the low `n` bits of `value`. -/
def push (w : BitWriter) (value n : Nat) : BitWriter :=
  drain w.bytes (w.pending + value % 2 ^ n * 2 ^ w.count) (w.count + n)

/-- The number of bits written. -/
def length (w : BitWriter) : Nat := 8 * w.bytes.size + w.count

/-- All that has been written, with zero bits up to the next byte boundary. -/
def toBytes (w : BitWriter) : Bytes :=
  if w.count = 0 then w.bytes else w.bytes.push (UInt8.ofNat w.pending)

end BitWriter

end CompressedRom.Deflate
