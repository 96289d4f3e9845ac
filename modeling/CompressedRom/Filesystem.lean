import CompressedRom.Inode
import CompressedRom.Store
import CompressedRom.Superblock

/-!
# Mounted images

An image is mounted by reading its superblock. From then on nothing past the size that it
declares is read.
-/

namespace CompressedRom

/-- A mounted image: its superblock and root, the time stamp of all its files, and what is known
of the store behind it. -/
structure Filesystem where
  mode : AddressingMode
  physBase? : Option Nat
  isInPlace : Bool
  superblock : Superblock
  root : Inode
  timestamp : Timestamp
  deriving DecidableEq

/-- What is reported of a mounted image as a whole. -/
structure Statistics where
  magic : Nat
  blockSize : Nat
  blocks : Nat
  blocksFree : Nat
  blocksAvailable : Nat
  files : Nat
  filesFree : Nat
  nameLength : Nat
  deriving DecidableEq, Repr

namespace Filesystem

/-- Mounts the image in a store. -/
def mount (store : Store) (timestamp : Timestamp) : Query Filesystem := do
  Query.ensure (store.mode ≠ .char) (.characterDevice store.text)
  let superblock ← Superblock.parse
  return {
    mode := store.mode
    physBase? := store.physBase?
    isInPlace := store.isInPlace
    superblock
    root := .ofRecord superblock.root timestamp
    timestamp }

/-- The statistics of a mounted image; nothing in it is free. -/
def statistics (fs : Filesystem) : Statistics where
  magic := magicWord
  blockSize := pageSize
  blocks := fs.superblock.blocks
  blocksFree := 0
  blocksAvailable := 0
  files := fs.superblock.files
  filesFree := 0
  nameLength := 255

/-- The `len` bytes at `offset`, none of which may lie past the declared size. -/
def read (fs : Filesystem) (offset len : Nat) : Query Bytes := do
  let stop ← Word.add 64 offset len
  Query.ensure (stop ≤ fs.superblock.size) (.outsideImage offset len fs.superblock.size)
  Query.span offset len

/-- The little-endian word at `offset`. -/
def readWord (fs : Filesystem) (offset : Nat) : Query Nat := do
  let bytes ← fs.read offset 4
  Bytes.word bytes

end Filesystem

end CompressedRom
