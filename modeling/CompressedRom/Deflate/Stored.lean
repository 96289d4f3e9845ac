import CompressedRom.Bytes

/-!
# Stored blocks

Any byte string can be written as blocks that hold its bytes as they are, each of at most 65535
bytes. Every such block starts and ends at a byte boundary.
-/

namespace CompressedRom.Deflate

/-- The most bytes that a stored block holds. -/
def maxStored : Nat := 2 ^ 16 - 1

/-- A stored block of `chunk`: the mark of the last block, the length and its complement. -/
def storedBlock (last : Bool) (chunk : Bytes) : Bytes :=
  let complement := maxStored - chunk.size
  Bytes.ofList [if last then 1 else 0, UInt8.ofNat chunk.size, UInt8.ofNat (chunk.size / 256),
    UInt8.ofNat complement, UInt8.ofNat (complement / 256)] ++ chunk

/-- The bytes of `data` from `start` on, in stored blocks. -/
def storedBlocks (data : Bytes) (start : Nat) : Bytes :=
  if data.size - start ≤ maxStored then storedBlock true (data.extract start data.size)
  else
    storedBlock false (data.extract start (start + maxStored)) ++
      storedBlocks data (start + maxStored)
termination_by data.size - start
decreasing_by
  unfold maxStored at *
  omega

end CompressedRom.Deflate
