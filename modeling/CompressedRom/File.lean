import CompressedRom.Filesystem
import CompressedRom.Zlib

/-!
# File content

The content of a file is a table of words, one for each page, that tell where the compressed
pages end; the pages follow the table one behind the other, and an empty one is a hole. A file
marked for execution in place is stored in whole pages as it is. All else that reads content is
made of pages.
-/

namespace CompressedRom.File

/-- The most bytes that a compressed page takes. -/
def maxCompressedPage : Nat := 2 * pageSize

/-- The offset `base + add`, where `len` bytes are to be read; it must be a 32-bit word. -/
def addOffset (base add len : Nat) : Query Nat := do
  let offset ← Word.add 64 base add
  Query.ensure (offset ≤ Word.max 32) (.outsideImage offset len (Word.max 32))
  return offset

/-- The bytes of page `index` of a file that is stored as it is: its pages start at the first
page boundary at or after its offset. -/
def storedPage (fs : Filesystem) (inode : Inode) (index : Nat) : Query Bytes := do
  let first ← Page.align inode.offset
  let before ← Page.start index
  let position ← Word.add 64 first before
  let offset ← addOffset 0 position pageSize
  let bytes ← fs.read offset pageSize
  if bytes.size = pageSize then return bytes else Query.stop (.fault .outOfRange)

/-- Where compressed page `index` starts and where it ends. The first page starts behind the
table, every other one where the one before it ends. -/
def pageBounds (fs : Filesystem) (inode : Inode) (index : Nat) : Query (Nat × Nat) := do
  let entry ← Word.mul 64 index 4
  let pointer ← addOffset inode.offset entry 4
  let start ←
    if index = 0 then do
      let table ← Word.mul 64 inode.pageCount 4
      addOffset inode.offset table 0
    else do
      let previous ← Word.sub pointer 4
      fs.readWord previous
  let stop ← fs.readWord pointer
  return (start, stop)

/-- The bytes that compressed page `index` holds, none if it is a hole, as `unpack` gives them for a
stream and the room that there is for its output. -/
def unpackedPage (unpack : Bytes → Nat → Except IoError Bytes) (fs : Filesystem) (inode : Inode)
    (index : Nat) : Query Bytes := do
  let (start, stop) ← pageBounds fs inode index
  Query.ensure (start ≤ stop) (.badBlockPointers index start stop)
  let len ← Word.sub stop start
  Query.ensure (len ≤ maxCompressedPage) (.badBlockPointers index start stop)
  if start = stop then return Bytes.zeros 0
  else
    let packed ← fs.read start len
    match unpack packed pageSize with
    | .ok bytes => return bytes
    | .error cause => Query.refuse (.corruptPage index cause)

/-- The bytes that compressed page `index` holds, none if it is a hole. -/
def compressedPage (fs : Filesystem) (inode : Inode) (index : Nat) : Query Bytes :=
  unpackedPage Zlib.decompress fs inode index

/-- `bytes` with zero bytes up to `len` behind them. -/
def padded (bytes : Bytes) (len : Nat) : Except Fault Bytes :=
  if bytes.size ≤ len then .ok (bytes ++ Bytes.zeros (len - bytes.size)) else .error .outOfRange

/-- The stored bytes of page `index`; there are none past the last page. -/
def pageBytes (fs : Filesystem) (inode : Inode) (index : Nat) : Query Bytes :=
  if inode.pageCount ≤ index then return Bytes.zeros 0
  else if inode.isInPlace && fs.isInPlace then storedPage fs inode index
  else compressedPage fs inode index

/-- Page `index` of a file or link in place of what `buffer` holds, which must have the length of
a page. Bytes past the end of the stored ones are zero. -/
def readPageInto (fs : Filesystem) (inode : Inode) (index : Nat) (buffer : Bytes) :
    Query Bytes := do
  Query.ensure (buffer.size = pageSize) (.badPageBuffer buffer.size pageSize)
  Query.ensure inode.hasPages (.noDataPages inode.number)
  let bytes ← pageBytes fs inode index
  padded bytes buffer.size

/-- Page `index` of a file or link. -/
def readPage (fs : Filesystem) (inode : Inode) (index : Nat) : Query Bytes :=
  readPageInto fs inode index (Bytes.zeros pageSize)

/-- `buffer`, which stands for the content from `pos` on, with the part of page `index` that lies
from `pos` up to `stop`. -/
def copyPage (fs : Filesystem) (inode : Inode) (pos stop : Nat) (buffer : Bytes) (index : Nat) :
    Query Bytes := do
  let page ← readPage fs inode index
  let start ← Page.start index
  let behind ← Word.add 64 start pageSize
  let current := max pos start
  let inPage ← Word.sub current start
  let len ← Word.sub (min behind stop) current
  let done ← Word.sub current pos
  let chunk ← page.slice inPage len
  buffer.overwrite done chunk

/-- The numbers of the pages that hold the bytes from `pos` up to `stop`. -/
def touched (pos stop : Nat) : List Nat :=
  List.range' (pos / pageSize) (Page.count stop - pos / pageSize)

/-- Reads content from `pos` on into `buffer`: how many bytes were read, and the buffer, whose
further bytes are left as they were. -/
def readAt (fs : Filesystem) (inode : Inode) (pos : Nat) (buffer : Bytes) :
    Query (Nat × Bytes) := do
  Query.ensure inode.hasPages (.noDataPages inode.number)
  if inode.size ≤ pos ∨ buffer.size = 0 then return (0, buffer)
  else
    let wanted ← Word.add 64 pos buffer.size
    let stop := min inode.size wanted
    let read ← (touched pos stop).foldlM (copyPage fs inode pos stop) buffer
    let count ← Word.sub stop pos
    return (count, read)

/-- The target of a link. -/
def readLink (fs : Filesystem) (inode : Inode) : Query Bytes := do
  Query.ensure inode.isSymlink (.noDataPages inode.number)
  let (count, target) ← readAt fs inode 0 (Bytes.zeros inode.size)
  return target.extract 0 count

/-- The pages of a file from `first` on, `n` of them, each cut to what the size leaves for it,
behind `before`; and the cause that ended them, if one did. -/
def contentFrom (fs : Filesystem) (inode : Inode) :
    (n first : Nat) → (before : Bytes) → Query (Bytes × Option Error)
  | 0, _, before => return (before, none)
  | n + 1, first, before => do
    match ← (readPage fs inode first).attempt with
    | .error cause => return (before, some cause)
    | .ok page =>
      let start ← Page.start first
      let left ← Word.sub inode.size start
      let part ← page.slice 0 (min left page.size)
      contentFrom fs inode n (first + 1) (before ++ part)

/-- All content of a file, page by page, up to the first page that cannot be read; and the cause
that ended it, if one did. -/
def content (fs : Filesystem) (inode : Inode) : Query (Bytes × Option Error) :=
  contentFrom fs inode inode.pageCount 0 (Bytes.zeros 0)

/-- A range of physical memory. -/
structure PhysicalRange where
  address : Nat
  len : Nat
  deriving DecidableEq, Repr

/-- Where in physical memory `len` bytes of a file that may be executed in place lie, from page
`page` on. The length is cut to the size of the file and rounded up to whole pages. -/
def physicalRange (fs : Filesystem) (inode : Inode) (page len : Nat) : Query PhysicalRange := do
  Query.ensure (inode.isInPlace && fs.isInPlace) (.notMappable inode.number)
  match fs.physBase? with
  | none => Query.refuse (.notMappable inode.number)
  | some base =>
    let content ← Word.add 64 base inode.offset
    let first ← Page.align content
    let len ← Page.align (min len inode.size)
    let before ← Page.start page
    let address ← Word.add 64 first before
    return { address, len }

end CompressedRom.File
