import CompressedRom.Record

/-!
# Superblock records

A superblock is a record of 76 bytes: the magic word, the size of the image, a word of flags, a
reserved word, a signature, a checksum, an edition number, two counts, the padded name of the
volume, and the inode record of its root.
-/

namespace CompressedRom.Superblock

/-- The fields of a superblock record as they stand in an image. -/
structure Header where
  magic : Nat
  size : Nat
  flags : Nat
  future : Nat
  signature : Bytes
  checksum : Nat
  edition : Nat
  blocks : Nat
  files : Nat
  name : Bytes
  root : Record

/-- The flag bits that a reader may meet; any other bit names a feature that it does not know. -/
def supportedFlags : Nat := 0x7ff

/-- The flag bits that have a meaning. -/
def namedFlags : Nat := 0x703

namespace Header

/-- The number of bytes of a superblock record. -/
def length : Nat := 76

/-- The record that 76 bytes hold; any other number of bytes holds none. -/
def unpack? (b : Bytes) : Option Header :=
  if b.size = length then
    (Record.unpack? (b.extract 64 76)).map fun root =>
      { magic := b.wordAt 0
        size := b.wordAt 4
        flags := b.wordAt 8
        future := b.wordAt 12
        signature := b.extract 16 32
        checksum := b.wordAt 32
        edition := b.wordAt 36
        blocks := b.wordAt 40
        files := b.wordAt 44
        name := b.extract 48 64
        root }
  else none

/-- The record starts with the magic word. -/
def hasMagic (h : Header) : Bool := h.magic == magicWord

/-- The flag bits that have a meaning. -/
def knownFlags (h : Header) : Nat := h.flags &&& namedFlags

/-- The flag bits that no reader understands: all from bit 11 on. -/
def unsupportedFlags (h : Header) : Nat := h.flags / (supportedFlags + 1) * (supportedFlags + 1)

end Header

end CompressedRom.Superblock
