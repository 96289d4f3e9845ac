import CompressedRom.Store.Device

/-!
# The block cache

A block device is read through two buffers of four pages each. A request that lies in one of
them is a hit. Any other is a miss: the buffers take turns, and the one whose turn it is gives up
what it holds and is filled with the four pages from the request's first page on. Its bytes are
written over while it counts as empty, and if a page fails it stays empty.
-/

namespace CompressedRom

/-- The number of buffers. -/
def bufferCount : Nat := 2

/-- The buffers, the one whose turn is next, and what has been counted: hits, misses, and calls
to the device. -/
structure Cache where
  slots : Vector Buffer 2
  next : Fin 2
  hits : Nat
  misses : Nat
  calls : Nat

namespace Cache

/-- No buffer is filled and nothing has been counted. -/
def empty : Cache := ⟨Vector.replicate 2 .blank, 0, 0, 0, 0⟩

/-- The first of the given buffers that holds the `len` bytes at `inPage` of page `page`, and
where they start in it. -/
def findIn (page inPage len : Nat) : List Buffer → Except Fault (Option (Buffer × Nat))
  | [] => .ok none
  | b :: slots =>
    match b.locate page inPage len with
    | .error step => .error step
    | .ok none => findIn page inPage len slots
    | .ok (some start) => .ok (some (b, start))

/-- The buffer that holds the `len` bytes at `inPage` of page `page`, and where they start. -/
def find (c : Cache) (page inPage len : Nat) : Except Fault (Option (Buffer × Nat)) :=
  findIn page inPage len c.slots.toList

/-- The cache with another buffer in a slot. -/
def put (c : Cache) (slot : Fin 2) (b : Buffer) : Cache := { c with slots := c.slots.set slot b }

/-- The slot whose turn it is, and the cache after its buffer has given up what it holds. -/
def evict (c : Cache) : Fin 2 × Cache :=
  let victim := c.next
  (victim, { c with next := victim + 1 }.put victim (c.slots.get victim).emptied)

/-- A part of a buffer's bytes. -/
def part (b : Buffer) (start len : Nat) : Except Failure Bytes :=
  match b.part start len with
  | .ok span => .ok span
  | .error step => .error (.fault step)

/-- The answer to a miss: fills the buffer whose turn it is from page `page` on, and takes the
`len` bytes at `inPage` out of it. -/
def readMiss (d : Device) (length? : Option Nat) (page inPage len : Nat) (c : Cache) :
    Except Failure Bytes × Cache :=
  let (victim, c) := { c with misses := c.misses + 1 }.evict
  match d.fillPages length? pagesPerBuffer page c.calls 0 (c.slots.get victim) with
  | (.error failure, b, calls) => (.error failure, { c with calls }.put victim b)
  | (.ok (), b, calls) =>
    let filled := b.filledFrom page
    (part filled inPage len, { c with calls }.put victim filled)

/-- The `len` bytes at `offset` of a device of reported length `length?`, and the cache
afterwards. -/
def read (d : Device) (length? : Option Nat) (offset len : Nat) (c : Cache) :
    Except Failure Bytes × Cache :=
  if len = 0 then (.ok (Bytes.zeros 0), c)
  else
    let page := offset / pageSize
    let inPage := offset % pageSize
    match Word.add 64 inPage len with
    | .error step => (.error (.fault step), c)
    | .ok stop =>
      if bufferSize < stop then (.error (.refused (.spanTooLarge offset len)), c)
      else
        match c.find page inPage len with
        | .error step => (.error (.fault step), c)
        | .ok (some (b, start)) => (part b start len, { c with hits := c.hits + 1 })
        | .ok none => readMiss d length? page inPage len c

end Cache

end CompressedRom
