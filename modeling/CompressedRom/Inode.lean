import CompressedRom.Page
import CompressedRom.Record
import CompressedRom.Text.Radix

/-!
# Inodes

An inode is what the reader knows of a file once its record has been read: the recorded
attributes, and the one time stamp that the whole mount carries, since the format records none.
-/

namespace CompressedRom

/-- A point in time: seconds since the epoch and nanoseconds. -/
structure Timestamp where
  seconds : Int
  nanoseconds : Nat
  deriving DecidableEq, Repr

/-- The start of the epoch. -/
def Timestamp.epoch : Timestamp := ⟨0, 0⟩

/-- A file of a mounted image. Inodes are plain values: two readings of one record give equal
inodes. -/
structure Inode extends Attributes where
  mtime : Timestamp
  deriving DecidableEq

/-- The number of a file: its content offset, or 1 when it has none. -/
def Attributes.number (a : Attributes) : Nat :=
  if a.offset = 0 then 1 else a.offset

namespace Inode

/-- The file that a record describes. -/
def ofRecord (r : Record) (mtime : Timestamp) : Inode :=
  { r.toAttributes with mtime }

def number (i : Inode) : Nat := i.toAttributes.number

def fileType (i : Inode) : FileType := i.mode.fileType

/-- Regular files, directories and links have content; the size field of the others holds a
device number. -/
def hasContent (i : Inode) : Bool :=
  match i.fileType with
  | .regularFile | .directory | .symlink => true
  | _ => false

/-- The number of content bytes. -/
def size (i : Inode) : Nat := if i.hasContent then i.sizeField else 0

/-- The device number of a file without content. -/
def device? (i : Inode) : Option Nat := if i.hasContent then none else some i.sizeField

/-- The number of links; the format does not count them. -/
def linkCount (_ : Inode) : Nat := 1

/-- The size in units of 512 bytes. -/
def blocks (i : Inode) : Nat := (i.size + 511) / 512

def pageCount (i : Inode) : Nat := Page.count i.size

def isDirectory (i : Inode) : Bool := i.mode.isDirectory

def isRegularFile (i : Inode) : Bool := i.mode.isRegularFile

def isSymlink (i : Inode) : Bool := i.mode.isSymlink

/-- Regular files and links have data pages. -/
def hasPages (i : Inode) : Bool := i.isRegularFile || i.isSymlink

/-- A regular file with the sticky bit is stored uncompressed, to be executed in place. -/
def isInPlace (i : Inode) : Bool := i.isRegularFile && i.mode.isSticky

/-- An inode in words. -/
def text (i : Inode) : String :=
  let device := Text.optional i.device?
  s!"Inode \x7b ino: {i.number}, mode: {i.mode.text}, uid: {i.uid.toNat}, gid: {i.gid.toNat}, " ++
    s!"size: {i.size}, rdev: {device}, offset: {i.offset} \x7d"

end Inode

end CompressedRom
