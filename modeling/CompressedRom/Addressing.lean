/-!
# Addressing modes

How the bytes of an image are reached is fixed for the lifetime of a mount, and chosen by
whoever describes the device, never by the image.
-/

namespace CompressedRom

/-- How the bytes of an image are reached: as one mapping, as one mapping out of which marked
files may be executed in place, through a block device, or not at all. -/
inductive AddressingMode where
  | linear
  | linearXip
  | block
  | char
  deriving DecidableEq, Repr

namespace AddressingMode

/-- Block devices are what is meant when nothing is said. -/
def preset : AddressingMode := block

/-- The name of a mode. -/
def name : AddressingMode → String
  | linear => "linear"
  | linearXip => "linear-xip"
  | block => "block"
  | char => "char"

/-- The mode of a given name. -/
def ofName? : String → Option AddressingMode
  | "linear" => some linear
  | "linear-xip" => some linearXip
  | "block" => some block
  | "char" => some char
  | _ => none

/-- The image is one mapping in memory. -/
def isLinear : AddressingMode → Bool
  | linear | linearXip => true
  | block | char => false

theorem ofName_name (m : AddressingMode) : ofName? m.name = some m := by
  cases m <;> rfl

end AddressingMode

end CompressedRom
