import CompressedRom.Bytes
import CompressedRom.Mode

/-!
# Inode records

On disk a file is described by three little-endian words with packed fields: mode and owner,
size and group, name length and content offset. The last two are stored in units of four bytes.
`Record.unpack?` reads the twelve bytes and `Record.pack` writes them.
-/

namespace CompressedRom

/-- What an image records about a file, apart from its name. For types of file that have no
content the size field holds a device number. -/
structure Attributes where
  mode : Mode
  uid : UInt16
  gid : UInt8
  sizeField : Nat
  offset : Nat
  sizeField_lt : sizeField < 2 ^ 24
  offset_lt : offset < 2 ^ 28
  offset_mod : offset % 4 = 0
  deriving DecidableEq

/-- An inode record: attributes, and the length of the padded name that follows the record. -/
structure Record extends Attributes where
  nameLen : Nat
  nameLen_lt : nameLen < 2 ^ 8
  nameLen_mod : nameLen % 4 = 0
  deriving DecidableEq

namespace Record

/-- The number of bytes of a record. -/
def size : Nat := 12

/-- The longest name that a record can announce. -/
def maxNameLen : Nat := (2 ^ 6 - 1) * 4

/-- The largest file size that a record can hold. -/
def maxFileSize : Nat := 2 ^ 24 - 1

/-- The largest offset that a record can hold. -/
def maxOffset : Nat := (2 ^ 26 - 1) * 4

/-- The field that a record has no room for. -/
inductive Overfull where
  | size
  | nameLen
  | offset
  deriving DecidableEq, Repr

/-- A record of the given fields, if each fits into its bits. The size is looked at first, then
the length of the name, then the offset. -/
def make (mode : Mode) (uid : UInt16) (sizeField : Nat) (gid : UInt8) (nameLen offset : Nat) :
    Except Overfull Record :=
  if hs : sizeField ≤ maxFileSize then
    if hn : nameLen ≤ maxNameLen ∧ nameLen % 4 = 0 then
      if ho : offset ≤ maxOffset ∧ offset % 4 = 0 then
        .ok {
          mode, uid, gid, sizeField, offset, nameLen
          sizeField_lt := by unfold maxFileSize at hs; omega
          offset_lt := by unfold maxOffset at ho; omega
          offset_mod := ho.2
          nameLen_lt := by unfold maxNameLen at hn; omega
          nameLen_mod := hn.2 }
      else .error .offset
    else .error .nameLen
  else .error .size

/-- The record that twelve bytes hold; any other number of bytes holds none. -/
def unpack? (b : Bytes) : Option Record :=
  if b.size = size then
    some {
      mode := .ofBits (UInt16.ofNat (b.wordAt 0))
      uid := UInt16.ofNat (b.wordAt 0 / 2 ^ 16)
      gid := UInt8.ofNat (b.wordAt 4 / 2 ^ 24)
      sizeField := b.wordAt 4 % 2 ^ 24
      offset := b.wordAt 8 / 2 ^ 6 * 4
      nameLen := b.wordAt 8 % 2 ^ 6 * 4
      sizeField_lt := Nat.mod_lt _ (by decide)
      offset_lt := by have := b.wordAt_lt 8; omega
      offset_mod := by omega
      nameLen_lt := by omega
      nameLen_mod := by omega }
  else none

/-- The twelve bytes of a record. -/
def pack (r : Record) : Bytes :=
  Bytes.ofWord (r.mode.bits.toNat + r.uid.toNat * 2 ^ 16) ++
    Bytes.ofWord (r.sizeField + r.gid.toNat * 2 ^ 24) ++
    Bytes.ofWord (r.nameLen / 4 + r.offset / 4 * 2 ^ 6)

/-- A record in words. -/
def text (r : Record) : String :=
  s!"Inode \x7b mode: {r.mode.text}, uid: {r.uid.toNat}, size: {r.sizeField}, " ++
    s!"gid: {r.gid.toNat}, name_len: {r.nameLen}, offset: {r.offset} \x7d"

end Record

end CompressedRom
