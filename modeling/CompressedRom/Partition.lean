import CompressedRom.Filesystem

/-!
# Partitions

A flash image is split into named partitions, which are known by their place in a table. Each
says where it lies, how its bytes are reached, and at which physical address the flash starts. A
partition shows its own bytes only, through a window on the flash.
-/

namespace CompressedRom

/-- A region of a flash and how it is reached. -/
structure Partition where
  name : String
  offset : Nat
  size : Nat
  mode : AddressingMode
  physAddress : Nat
  deriving DecidableEq

/-- A region of a flash whose bytes are all there. -/
structure Window where
  flash : Bytes
  start : Nat
  stop : Nat
  start_le_stop : start ≤ stop
  stop_le_size : stop ≤ flash.size

namespace Window

/-- The number of bytes of a window. -/
def length (w : Window) : Nat := w.stop - w.start

/-- A window on nothing. -/
def isEmpty (w : Window) : Bool := w.start == w.stop

/-- The bytes of a window. -/
def bytes (w : Window) : Bytes := w.flash.extract w.start w.stop

/-- At most `len` bytes from `pos` on; fewer where the window ends before. -/
def read (w : Window) (pos len : Nat) : Bytes := w.bytes.extract pos (pos + len)

/-- A window as a device, which knows its length and never fails. -/
def device (w : Window) : Device where
  length := .ok (some w.length)
  read _ pos len := .ok (w.read pos len)
  size_read_le h := by
    rw [← Except.ok.inj h, read, ByteArray.size_extract]
    omega

/-- A window in words. -/
def text (w : Window) : String := s!"Window \x7b start: {w.start}, end: {w.stop} \x7d"

end Window

namespace Partition

/-- The window of a partition on a flash that holds all of it. -/
def window (p : Partition) (flash : Bytes) : Except Error Window :=
  if h : p.offset + p.size ≤ Word.max 64 ∧ p.offset + p.size ≤ flash.size then
    .ok ⟨flash, p.offset, p.offset + p.size, Nat.le_add_right _ _, h.2⟩
  else .error (.partitionPastFlash p.name p.size p.offset flash.size)

/-- The physical address of the first byte, if it is a 64-bit word. -/
def physBase? (p : Partition) : Option Nat :=
  if p.physAddress + p.offset ≤ Word.max 64 then some (p.physAddress + p.offset) else none

/-- A mapping of a partition, for which the physical address has to be at a page boundary other
than the first. -/
def openMapping (p : Partition) (flash : Bytes) (inPlace : Bool) : Except Error Store := do
  let base := p.physBase?.getD 0
  if base = 0 ∨ base % pageSize ≠ 0 then .error (.badPhysicalAddress base)
  else do
    let w ← p.window flash
    return .mapped ⟨w.bytes, some base, inPlace⟩

/-- The store that a partition's mode calls for, over its window on a flash. -/
def store (p : Partition) (flash : Bytes) : Except Error Store :=
  match p.mode with
  | .char => .error (.characterDevice p.name)
  | .linear => p.openMapping flash false
  | .linearXip => p.openMapping flash true
  | .block => do
    let w ← p.window flash
    (Store.ofDevice w.device).mapError .io

end Partition

/-- The partitions of a flash, each known by its place, its minor number. -/
structure PartitionTable where
  partitions : List Partition
  deriving DecidableEq

namespace PartitionTable

/-- The table with one more partition at its end, and the minor number of that. -/
def push (t : PartitionTable) (p : Partition) : PartitionTable × Nat :=
  (⟨t.partitions ++ [p]⟩, t.partitions.length)

/-- The partition with a minor number. -/
def get? (t : PartitionTable) (minor : Nat) : Option Partition := t.partitions[minor]?

/-- The first partition of a name, and its minor number. -/
def find? (t : PartitionTable) (name : String) : Option (Nat × Partition) :=
  (t.partitions.zipIdx.find? fun p => p.1.name == name).map fun p => (p.2, p.1)

/-- The number of partitions. -/
def size (t : PartitionTable) : Nat := t.partitions.length

end PartitionTable

end CompressedRom
