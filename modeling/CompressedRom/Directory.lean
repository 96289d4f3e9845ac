import CompressedRom.Filesystem

/-!
# Directories

The content of a directory is a run of entries, each an inode record and behind it the name,
padded with zero bytes. There is no count of entries: a directory ends where its size is used up.
A directory at offset 0, where the superblock is, has none.
-/

namespace CompressedRom.Directory

/-- An entry: name, file, and where it starts and where the next one does, counted from the start
of the directory. -/
structure Entry where
  name : Bytes
  inode : Inode
  offset : Nat
  next : Nat
  deriving DecidableEq

/-- Entries in their order, and the cause that ended the listing, if one did. -/
structure Listing where
  entries : List Entry
  failure? : Option Error
  deriving DecidableEq

/-- The number of bytes that the entries of a directory take. -/
def extent (dir : Inode) : Nat := if dir.offset = 0 then 0 else dir.size

/-- The entry that starts `pos` bytes into a directory. -/
def entryAt (fs : Filesystem) (dir : Inode) (pos : Nat) : Query Entry := do
  let offset := dir.offset + pos
  Query.ensure (offset ≤ Word.max 32) (.outsideImage offset Record.size (Word.max 32))
  let bytes ← fs.read offset Record.size
  match Record.unpack? bytes with
  | none => Query.refuse (.outsideImage offset Record.size bytes.size)
  | some record =>
    let nameOffset ← Word.add 32 offset Record.size
    let padded ← fs.read nameOffset record.nameLen
    let name := padded.trimZeros
    Query.ensure (name.size ≠ 0) (.emptyName offset)
    let next ← Word.add 32 pos (Record.size + record.nameLen)
    return { name, inode := .ofRecord record fs.timestamp, offset := pos, next }

/-- At most `limit` items of a directory from `pos` on, behind the entries `found`, the last one
first. A cause that ends the listing counts as an item. -/
def listFrom (fs : Filesystem) (dir : Inode) :
    (limit pos : Nat) → (found : List Entry) → Query Listing
  | 0, _, found => return ⟨found.reverse, none⟩
  | limit + 1, pos, found =>
    if pos < extent dir then do
      match ← (entryAt fs dir pos).attempt with
      | .ok entry => listFrom fs dir limit entry.next (entry :: found)
      | .error cause => return ⟨found.reverse, some cause⟩
    else return ⟨found.reverse, none⟩

/-- At most `limit` items of a directory, from `cursor` bytes into it. A cursor at or past the
end finds none. -/
def list (fs : Filesystem) (dir : Inode) (cursor limit : Nat) : Query Listing := do
  Query.ensure dir.isDirectory (.notDirectory dir.number)
  if dir.size ≤ cursor then return ⟨[], none⟩
  else
    Query.ensure (cursor % 4 = 0) (.unalignedCursor cursor)
    listFrom fs dir limit cursor []

/-- All items of a directory from `cursor` on: each entry takes more than one byte, so there are
no more of them than the directory has bytes. -/
def listAll (fs : Filesystem) (dir : Inode) (cursor : Nat) : Query Listing :=
  list fs dir cursor dir.size

/-- The file called `name` among at most `limit` entries from `pos` on. In a sorted directory the
search ends at the first entry whose name comes after `name`. -/
def search (fs : Filesystem) (dir : Inode) (name : Bytes) (first : UInt8) :
    (limit pos : Nat) → Query (Option Inode)
  | 0, _ => return none
  | limit + 1, pos =>
    if pos < extent dir then do
      let entry ← entryAt fs dir pos
      let initial ← entry.name.byte 0
      let sorted := fs.superblock.isSorted
      if sorted ∧ first < initial then return none
      else if entry.name.size ≠ name.size then search fs dir name first limit entry.next
      else
        match name.order entry.name with
        | .gt => search fs dir name first limit entry.next
        | .eq => return some entry.inode
        | .lt => if sorted then return none else search fs dir name first limit entry.next
    else return none

/-- The file called `name` in a directory. Nothing is called by the empty name. -/
def lookup (fs : Filesystem) (dir : Inode) (name : Bytes) : Query (Option Inode) := do
  Query.ensure dir.isDirectory (.notDirectory dir.number)
  if name.size = 0 then return none
  else
    let first ← name.byte 0
    search fs dir name first (extent dir) 0

end CompressedRom.Directory
