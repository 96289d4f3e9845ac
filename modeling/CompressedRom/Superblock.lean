import CompressedRom.Query
import CompressedRom.Superblock.Header

/-!
# Superblocks

The superblock of an image is looked for at its start, then behind a boot sector. It is accepted
only if it asks for no unknown feature, its root is a directory, and the entries of the root
follow the superblock, unless there are none or the image says that they are moved.
-/

namespace CompressedRom

/-- What a superblock says once it has been accepted. -/
structure Superblock where
  base : Nat
  flags : Nat
  size : Nat
  blocks : Nat
  files : Nat
  edition : Nat
  name : Bytes
  root : Record
  deriving DecidableEq

namespace Superblock

/-- The size of a boot sector. -/
def bootSectorSize : Nat := 512

/-- The size that bounds an image which does not record its own. -/
def legacySize : Nat := 2 ^ 28

/-- The flag word says that size and counts are recorded. -/
def recordsSize (flags : Nat) : Bool := flags.testBit 0

/-- The flag word says that the entries of the root are moved. -/
def movesRoot (flags : Nat) : Bool := flags.testBit 10

/-- The entries of every directory are sorted by name. -/
def isSorted (s : Superblock) : Bool := s.flags.testBit 1

/-- The image holds nothing but a superblock. -/
def isEmpty (s : Superblock) : Bool := s.root.offset == 0

/-- The superblock that a record found at `base` describes, if it can be accepted. -/
def ofHeader (base : Nat) (h : Header) : Except Error Superblock :=
  if h.unsupportedFlags ≠ 0 then .error (.unsupportedFeatures h.unsupportedFlags)
  else if !h.root.mode.isDirectory then .error (.rootNotDirectory h.root.mode.bits.toNat)
  else if h.root.offset ≠ 0 ∧ !movesRoot h.knownFlags ∧ h.root.offset ≠ base + Header.length then
    .error (.badRootOffset h.root.offset (base + Header.length))
  else
    let recorded := recordsSize h.knownFlags
    .ok {
      base
      flags := h.knownFlags
      size := if recorded then h.size else legacySize
      blocks := if recorded then h.blocks else 0
      files := if recorded then h.files else 0
      edition := h.edition
      name := h.name.trimZeros
      root := h.root }

/-- The superblock record at `offset`. -/
def readHeader (offset : Nat) : Query Header := do
  let bytes ← Query.span offset Header.length
  match Header.unpack? bytes with
  | some h => return h
  | none => Query.refuse (.outsideImage offset Header.length bytes.size)

/-- The superblock record that carries the magic word, and where it stands. An image too short
for a second place has what it shows in the first. -/
def locate : Query (Nat × Header) := do
  let first ← readHeader 0
  if first.hasMagic then return (0, first)
  else
    match ← (readHeader bootSectorSize).attempt with
    | .ok second =>
      if second.hasMagic then return (bootSectorSize, second)
      else Query.refuse (.badMagic second.magic)
    | .error cause =>
      Query.refuse (if cause.kind = .corrupt then .badMagic first.magic else cause)

/-- The superblock of an image. -/
def parse : Query Superblock := do
  let (base, h) ← locate
  ofHeader base h

end Superblock

end CompressedRom
