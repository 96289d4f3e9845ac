import CompressedRom.Bytes
import CompressedRom.Page

/-!
# Read buffers

A buffer has room for four pages of a device that follow one another. Bytes are written over what it
holds, so that while it is being filled, and after a fill that has failed, it holds some of the new
bytes and some of the old ones; it counts as filled only while it knows its first page.
-/

namespace CompressedRom

/-- The number of bits of a page number within a buffer. -/
def bufferShift : Nat := 2

/-- The number of pages that a buffer holds. -/
def pagesPerBuffer : Nat := 2 ^ bufferShift

/-- The number of bytes that a buffer holds. -/
def bufferSize : Nat := pagesPerBuffer * pageSize

/-- A buffer: the number of its first page, if it is filled, and its bytes. -/
structure Buffer where
  first? : Option Nat
  data : Bytes
  size_data : data.size = bufferSize

namespace Buffer

/-- A buffer that has never been filled. -/
def blank : Buffer where
  first? := none
  data := Bytes.zeros bufferSize
  size_data := Bytes.size_zeros bufferSize

/-- The buffer once it has given up what it is filled with. Its bytes stay. -/
def emptied (b : Buffer) : Buffer := { b with first? := none }

/-- The buffer, filled from page `first` on with the bytes that it holds. -/
def filledFrom (b : Buffer) (first : Nat) : Buffer := { b with first? := some first }

/-- The buffer with `chunk` in place of its bytes from `place` on. -/
def put (b : Buffer) (place : Nat) (chunk : Bytes) (h : place + chunk.size ≤ bufferSize) :
    Buffer where
  first? := b.first?
  data := chunk.copySlice 0 b.data place chunk.size
  size_data := (Bytes.size_copySlice (b.size_data.symm ▸ h)).trans b.size_data

/-- Writes `chunk` over the bytes from `place` on, all of which must lie inside. -/
def write (b : Buffer) (place : Nat) (chunk : Bytes) : Except Fault Buffer :=
  if h : place + chunk.size ≤ bufferSize then .ok (b.put place chunk h) else .error .outOfRange

/-- Writes `n` zero bytes over the bytes from `place` on, all of which must lie inside. -/
def clear (b : Buffer) (place n : Nat) : Except Fault Buffer :=
  if h : place + n ≤ bufferSize then
    .ok (b.put place (Bytes.zeros n) ((Bytes.size_zeros n).symm ▸ h))
  else .error .outOfRange

/-- The `len` bytes from `start` on, which must lie inside. -/
def part (b : Buffer) (start len : Nat) : Except Fault Bytes :=
  if start + len ≤ bufferSize then .ok (b.data.extract start (start + len)) else .error .outOfRange

/-- Where in a filled buffer the `len` bytes at `inPage` of page `page` start, if it holds them
all. A place that is no word is not in it. -/
def locate (b : Buffer) (page inPage len : Nat) : Except Fault (Option Nat) :=
  match b.first? with
  | none => .ok none
  | some first =>
    if page < first then .ok none
    else do
      let pages ← Word.sub page first
      match (Word.mul 64 pages pageSize >>= fun before => Word.add 64 before inPage).toOption with
      | none => return none
      | some start =>
        let stop ← Word.add 64 start len
        return if bufferSize < stop then none else some start

end Buffer

end CompressedRom
