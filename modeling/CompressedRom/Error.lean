import CompressedRom.Text.Radix

/-!
# Failures

An operation on an image is refused for one of a fixed list of causes, `Error`. Every cause
belongs to one class, `ErrorKind`, and has one wording, `Error.message`. A step of the reader
that would leave a machine word or the bounds of a buffer is a `Fault`; it is kept apart from
the causes because no request may run into one.
-/

namespace CompressedRom

/-- What went wrong below the image: in the codec, or in the device that holds the bytes. -/
inductive IoErrorKind where
  | invalidData
  | unexpectedEnd
  | other
  deriving DecidableEq, Repr

/-- A failure of the codec or of a device, with its wording. -/
structure IoError where
  kind : IoErrorKind
  text : String
  deriving DecidableEq, Repr

/-- The four classes of refusal: the image is malformed, its bytes cannot be had, the request
is wrong in itself, or the image uses what this reader does not handle. -/
inductive ErrorKind where
  | corrupt
  | io
  | invalidArgument
  | unsupported
  deriving DecidableEq, Repr

/-- The word that marks an image. -/
def magicWord : Nat := 0x28cd3d45

/-- The cause of a refusal. -/
inductive Error where
  | badMagic (found : Nat)
  | unsupportedFeatures (flags : Nat)
  | rootNotDirectory (mode : Nat)
  | badRootOffset (found expected : Nat)
  | characterDevice (name : String)
  | badPhysicalAddress (address : Nat)
  | partitionPastFlash (name : String) (size offset flashSize : Nat)
  | outsideImage (offset len limit : Nat)
  | spanTooLarge (offset len : Nat)
  | badPageBuffer (len expected : Nat)
  | emptyName (offset : Nat)
  | badBlockPointers (page start stop : Nat)
  | corruptPage (page : Nat) (cause : IoError)
  | unalignedCursor (offset : Nat)
  | notDirectory (number : Nat)
  | noDataPages (number : Nat)
  | notMappable (number : Nat)
  | cannotOpen (path : String) (cause : IoError)
  | io (cause : IoError)
  deriving DecidableEq, Repr

namespace Error

/-- The class that a cause belongs to. -/
def kind : Error → ErrorKind
  | badMagic .. | rootNotDirectory .. | badRootOffset .. | outsideImage .. | emptyName ..
  | badBlockPointers .. | corruptPage .. => .corrupt
  | io .. | cannotOpen .. => .io
  | unalignedCursor .. | notDirectory .. | noDataPages .. | notMappable .. | spanTooLarge ..
  | badPageBuffer .. | partitionPastFlash .. => .invalidArgument
  | unsupportedFeatures .. | characterDevice .. | badPhysicalAddress .. => .unsupported

open Text in
/-- The wording of a cause. -/
def message : Error → String
  | badMagic found =>
    s!"Magic mismatch: expected {hexadecimal magicWord}, got {hexadecimal found}"
  | unsupportedFeatures flags => s!"Unsupported filesystem features: {hexadecimal flags}"
  | rootNotDirectory mode => s!"Root is not a directory (mode {octal mode})"
  | badRootOffset found expected => s!"Bad root offset {found}, expected {expected}"
  | characterDevice name => s!"Partition {name} is a character device and can't be mounted"
  | badPhysicalAddress address =>
    s!"Physical address {hexadecimal address} for a linear image must be non-zero and page aligned"
  | partitionPastFlash name size offset flashSize =>
    s!"Invalid partition {name}: {hexadecimal size} bytes at {hexadecimal offset} extend past " ++
      s!"the flash ({hexadecimal flashSize} bytes)"
  | outsideImage offset len limit =>
    s!"Read of {len} bytes at offset {hexadecimal offset} is outside the image ({limit} bytes)"
  | spanTooLarge offset len =>
    s!"Read of {len} bytes at offset {hexadecimal offset} does not fit in a read buffer"
  | badPageBuffer len expected => s!"Page buffer is {len} bytes, expected {expected}"
  | emptyName offset => s!"Directory entry at offset {hexadecimal offset} has an empty name"
  | badBlockPointers page start stop =>
    s!"Bad block pointers for page {page}: start {hexadecimal start}, end {hexadecimal stop}"
  | corruptPage page cause => s!"Unable to decompress page {page}: {cause.text}"
  | unalignedCursor offset => s!"Directory offset {offset} is not 4 byte aligned"
  | notDirectory number => s!"Inode {number} is not a directory"
  | noDataPages number => s!"Inode {number} has no data pages"
  | notMappable number => s!"Inode {number} can't be mapped in place"
  | cannotOpen path cause => s!"Unable to open {path}: {cause.text}"
  | io cause => s!"IO error: {cause.text}"

end Error

/-- A step that would leave its bounds: a result too large for its word or below zero, or a
range of bytes that does not lie in its buffer. -/
inductive Fault where
  | overflow
  | outOfRange
  deriving DecidableEq, Repr

/-- The wording of a fault. The steps that can leave their word are sums. -/
def Fault.message : Fault → String
  | .overflow => "attempt to add with overflow"
  | .outOfRange => "byte range outside its buffer"

/-- How an operation ends without a result. -/
inductive Failure where
  | refused (cause : Error)
  | fault (step : Fault)
  deriving DecidableEq, Repr

end CompressedRom
