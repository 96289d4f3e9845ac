import CompressedRom.Deflate.CodedBlock
import CompressedRom.Deflate.Stored

/-!
# Compressed pages

Pages are kept as compressed streams with a header of two bytes in front and a checksum of four
bytes behind. `Zlib.decompress` accepts a stream only as a whole: all of it, checksum included,
must be there, and all of its output must fit. `Zlib.compress` writes a stream that
`Zlib.decompress` reads back, in stored form wherever a shorter one does not.
-/

namespace CompressedRom.Zlib

open Deflate (Stop)

/-- The two running sums of the checksum after one more byte. -/
def checksumStep (sums : Nat × Nat) (b : UInt8) : Nat × Nat :=
  let low := (sums.1 + b.toNat) % 65521
  (low, (sums.2 + low) % 65521)

/-- The checksum of a byte string: the sum of its bytes plus one, and the sum of these sums. -/
def checksum (b : Bytes) : Nat :=
  let sums := b.foldl checksumStep (1, 0)
  sums.2 * 2 ^ 16 + sums.1

/-- The number in the four bytes at `i`, the highest first. -/
def bigEndianAt (b : Bytes) (i : Nat) : Nat :=
  (b.byteAt i).toNat * 2 ^ 24 + (b.byteAt (i + 1)).toNat * 2 ^ 16 +
    (b.byteAt (i + 2)).toNat * 2 ^ 8 + (b.byteAt (i + 3)).toNat

/-- The four bytes of a number, the highest first. -/
def ofBigEndian (n : Nat) : Bytes :=
  Bytes.ofList [UInt8.ofNat (n / 2 ^ 24), UInt8.ofNat (n / 2 ^ 16), UInt8.ofNat (n / 2 ^ 8),
    UInt8.ofNat n]

/-- The two bytes of a header name method 8 and a window of at most 32768 bytes, ask for no
preset dictionary, and together are divisible by 31. -/
def isHeader (first second : Nat) : Bool :=
  first % 16 == 8 && first / 16 ≤ 7 && !second.testBit 5 && (first * 256 + second) % 31 == 0

/-- The output of the stream that `src` starts with, if it has at most `limit` bytes. -/
def inflate (src : Bytes) (limit : Nat) : Except Stop Bytes :=
  if src.size < 2 then .error .inputEnded
  else if isHeader (src.byteAt 0).toNat (src.byteAt 1).toNat then
    match Deflate.blocks src limit 16 (Bytes.zeros 0) with
    | .error stop => .error stop
    | .ok (pos, out) =>
      let trailer := Deflate.alignToByte pos / 8
      if src.size < trailer + 4 then .error .inputEnded
      else if bigEndianAt src trailer = checksum out then .ok out
      else .error .malformed
  else .error .malformed

/-- The wording for a stream that stops short when there is room for `capacity` bytes. -/
def stopMessage (capacity : Nat) : Stop → String
  | .malformed => "deflate decompression error"
  | .inputEnded | .outputFull =>
    if capacity = 0 then "decompressed data exceeds 0 bytes" else "truncated compressed stream"

/-- The output of the stream that `src` starts with, for a destination of `capacity` bytes. -/
def decompress (src : Bytes) (capacity : Nat) : Except IoError Bytes :=
  match inflate src capacity with
  | .ok out => .ok out
  | .error stop => .error ⟨.invalidData, stopMessage capacity stop⟩

/-- A stream of the given blocks, whose output is `src`. -/
def stream (first second : UInt8) (blocks src : Bytes) : Bytes :=
  Bytes.ofList [first, second] ++ blocks ++ ofBigEndian (checksum src)

/-- The stream that holds `src` as it is. -/
def storedStream (src : Bytes) : Bytes :=
  stream 0x78 0x01 (Deflate.storedBlocks src 0) src

/-- `packed` decodes to `src`. -/
def restores (packed src : Bytes) : Bool :=
  match inflate packed src.size with
  | .ok out => decide (out = src)
  | .error _ => false

/-- The shorter of two streams for `src`: the one with repeated strings taken out, provided that
it decodes to `src`, and the stored one. -/
def shortStream (effort : Deflate.Effort) (src : Bytes) : Bytes :=
  let stored := storedStream src
  let packed := stream 0x78 0xda (Deflate.codedBlocks effort src) src
  if packed.size < stored.size && restores packed src then packed else stored

/-- The stream for `src` at compression level `level`, if it has at most `capacity` bytes. Level
0 stores the bytes as they are. -/
def compress (level : Nat) (src : Bytes) (capacity : Nat) : Except IoError Bytes :=
  let packed := if level = 0 then storedStream src else shortStream (.ofLevel level) src
  if packed.size ≤ capacity then .ok packed
  else .error ⟨.unexpectedEnd, "unexpected end of file"⟩

end CompressedRom.Zlib
