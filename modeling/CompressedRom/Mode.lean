/-!
# Modes

A mode is a 16-bit word: the top four bits name the type of file, the other twelve hold the
permissions and the three special bits. `Mode.text` is the ten-letter column of a long listing.
-/

namespace CompressedRom

/-- The type of a file, as the top four bits of its mode name it. -/
inductive FileType where
  | fifo
  | charDevice
  | directory
  | blockDevice
  | regularFile
  | symlink
  | socket
  | unknown
  deriving DecidableEq, Repr

namespace FileType

/-- The type that the four-bit code `n` names. -/
def ofCode (n : Nat) : FileType :=
  match n with
  | 1 => fifo
  | 2 => charDevice
  | 4 => directory
  | 6 => blockDevice
  | 8 => regularFile
  | 10 => symlink
  | 12 => socket
  | _ => unknown

/-- The four-bit code of a type, 0 for an unknown one. -/
def code : FileType → Nat
  | fifo => 1
  | charDevice => 2
  | directory => 4
  | blockDevice => 6
  | regularFile => 8
  | symlink => 10
  | socket => 12
  | unknown => 0

/-- The letter that a listing shows for a type. -/
def letter : FileType → Char
  | fifo => 'p'
  | charDevice => 'c'
  | directory => 'd'
  | blockDevice => 'b'
  | regularFile => '-'
  | symlink => 'l'
  | socket => 's'
  | unknown => '?'

/-- The name of a type. -/
def name : FileType → String
  | fifo => "Fifo"
  | charDevice => "CharDevice"
  | directory => "Directory"
  | blockDevice => "BlockDevice"
  | regularFile => "RegularFile"
  | symlink => "Symlink"
  | socket => "Socket"
  | unknown => "Unknown"

theorem ofCode_code (t : FileType) : ofCode t.code = t := by
  cases t <;> rfl

end FileType

/-- A mode word. -/
structure Mode where
  bits : UInt16
  deriving DecidableEq, Repr

namespace Mode

/-- The bits that have a name: the permissions, the special bits, and those of the types of file. -/
def namedBits : UInt16 :=
  [FileType.fifo, .charDevice, .directory, .blockDevice, .regularFile, .symlink, .socket].foldl
    (fun bits t => bits ||| UInt16.ofNat (t.code * 4096)) 0xfff

/-- The mode of a word; bits without a name are dropped. -/
def ofBits (word : UInt16) : Mode := ⟨word &&& namedBits⟩

/-- Every bit has a name. -/
theorem ofBits_eq (word : UInt16) : ofBits word = ⟨word⟩ := by
  have hall : namedBits = -1 := by decide
  rw [ofBits, hall, UInt16.and_neg_one]

/-- The four type bits, in place. -/
def typeBits (m : Mode) : UInt16 := m.bits &&& 0xf000

/-- The type of file that a mode names. -/
def fileType (m : Mode) : FileType := FileType.ofCode (m.bits.toNat / 4096)

/-- Whether bit `i` is set; the lowest bit is bit 0. -/
def has (m : Mode) (i : Nat) : Bool := m.bits.toNat.testBit i

/-- The sticky bit, which marks a regular file as stored for execution in place. -/
def isSticky (m : Mode) : Bool := m.has 9

def isDirectory (m : Mode) : Bool := m.fileType == .directory

def isRegularFile (m : Mode) : Bool := m.fileType == .regularFile

def isSymlink (m : Mode) : Bool := m.fileType == .symlink

/-- The letter for a right to execute and a special bit: `letter` shows both, its capital the
special bit alone. -/
def executeLetter (execute special : Bool) (letter : Char) : Char :=
  match execute, special with
  | false, false => '-'
  | true, false => 'x'
  | false, true => letter.toUpper
  | true, true => letter

/-- The three letters for the rights whose lowest bit is `i`. -/
def rights (m : Mode) (i special : Nat) (letter : Char) : List Char :=
  [if m.has (i + 2) then 'r' else '-', if m.has (i + 1) then 'w' else '-',
    executeLetter (m.has i) (m.has special) letter]

/-- The mode as a long listing shows it, such as `drwsr-xr-x`. -/
def text (m : Mode) : String :=
  String.ofList (m.fileType.letter :: (m.rights 6 11 's' ++ m.rights 3 10 's' ++ m.rights 0 9 't'))

end Mode

end CompressedRom
