import CompressedRom.Word

/-!
# Pages

File data is cut into pages of 4096 bytes, the last of which may be partial.
-/

namespace CompressedRom

/-- The number of bits of a position within a page. -/
def pageShift : Nat := 12

/-- The number of bytes of a page. -/
def pageSize : Nat := 2 ^ pageShift

namespace Page

/-- The number of pages that hold `size` bytes. -/
def count (size : Nat) : Nat := (size + (pageSize - 1)) / pageSize

/-- The first page boundary at or after `offset`. -/
def align (offset : Nat) : Except Fault Nat := do
  let past ← Word.add 64 offset pageSize
  let last ← Word.sub past 1
  return last / pageSize * pageSize

/-- The position of the first byte of page `index`. -/
def start (index : Nat) : Except Fault Nat := Word.mul 64 index pageSize

end Page

end CompressedRom
