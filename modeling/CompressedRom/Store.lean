import CompressedRom.Addressing
import CompressedRom.Query
import CompressedRom.Store.Cache
import CompressedRom.Store.Mapping
import CompressedRom.Text.Radix

/-!
# Stores

A store holds the bytes of an image: a mapping in memory, a block device behind its cache, or a
character device, which cannot be read at an offset. `Query.run` answers a query out of a store.
-/

namespace CompressedRom

/-- Where the bytes of an image are. -/
inductive Store where
  | mapped (mapping : Mapping)
  | buffered (device : Device) (length? : Option Nat)
  | characters

namespace Store

/-- A device as a store, once it has reported its length. -/
def ofDevice (device : Device) : Except IoError Store :=
  device.length.map (buffered device)

/-- The bytes of an image, read as a block device holds them. -/
def ofFile (content : Bytes) : Store := buffered (.ofBytes content) (some content.size)

/-- How the bytes of a store are reached. -/
def mode : Store → AddressingMode
  | mapped m => if m.inPlace then .linearXip else .linear
  | buffered .. => .block
  | characters => .char

/-- The physical address of the first byte, where there is one. -/
def physBase? : Store → Option Nat
  | mapped m => m.physBase?
  | buffered .. | characters => none

/-- Marked files may be executed out of the store. -/
def isInPlace : Store → Bool
  | mapped m => m.inPlace
  | buffered .. | characters => false

/-- The `len` bytes at `offset`, and the cache afterwards. -/
def read (s : Store) (offset len : Nat) (c : Cache) : Except Failure Bytes × Cache :=
  match s with
  | mapped m => (m.read offset len, c)
  | buffered d length? => Cache.read d length? offset len c
  | characters => (.ok (Bytes.zeros 0), c)

/-- A store in words. -/
def text : Store → String
  | mapped m =>
    let base := Text.optional m.physBase?
    s!"Linear \x7b len: {m.bytes.size}, phys_base: {base}, xip: {m.inPlace} \x7d"
  | buffered _ length? =>
    let reported := Text.optional length?
    s!"Block \x7b device_len: {reported} \x7d"
  | characters => "CharAccessor"

/-- Bytes that came out of a store in words: whether they lie in a buffer, and how many there
are. -/
def spanText (s : Store) (span : Bytes) : String :=
  let kind := match s with
    | buffered .. => if span.size = 0 then "Mapped" else "Buffered"
    | mapped _ | characters => "Mapped"
  s!"View \x7b kind: \"{kind}\", len: {span.size} \x7d"

end Store

/-- The value of a query whose spans come out of the store `s`, and the cache afterwards. -/
def Query.run {α : Type} (s : Store) : Query α → Cache → Except Failure α × Cache
  | .done value, c => (.ok value, c)
  | .stop failure, c => (.error failure, c)
  | .ask offset len next, c =>
    match s.read offset len c with
    | (.ok span, c) => (next (.ok span)).run s c
    | (.error (.refused cause), c) => (next (.error cause)).run s c
    | (.error (.fault step), c) => (.error (.fault step), c)

end CompressedRom
