import CompressedRom.Store.Buffer

/-!
# Devices

A device answers each call with some of the bytes asked for, or with a failure, and may answer
differently from call to call. To read exactly what is wanted, calls are repeated until all of it
has come. A call that was interrupted is made again, so that only its last answer counts as one.
-/

namespace CompressedRom

/-- A device: the length it reports, if it knows one, and its answer to call number `call` for
`len` bytes at `pos`, which never holds more than was asked for. -/
structure Device where
  length : Except IoError (Option Nat)
  read (call pos len : Nat) : Except IoError Bytes
  size_read_le {call pos len : Nat} {chunk : Bytes} :
    read call pos len = .ok chunk → chunk.size ≤ len

namespace Device

/-- The device that holds `content` and answers every call as fully as it can. -/
def ofBytes (content : Bytes) : Device where
  length := .ok (some content.size)
  read _ pos len := .ok (content.extract pos (pos + len))
  size_read_le h := by
    simp only [Except.ok.injEq] at h
    subst h
    rw [ByteArray.size_extract]
    omega

/-- The failure of a device that has no more bytes where some were expected. -/
def shortRead : IoError := ⟨.unexpectedEnd, "failed to fill whole buffer"⟩

/-- Writes the `len` bytes at `pos` into a buffer, from `place` on, in as many calls as it takes, the
first of which has number `call`: whether they have come, the buffer, and the number of the next
call. What came before a failure is in the buffer. -/
def readInto (d : Device) (pos len call place : Nat) (b : Buffer) :
    Except Failure Unit × Buffer × Nat :=
  if len = 0 then (.ok (), b, call)
  else
    match d.read call pos len with
    | .error e => (.error (.refused (.io e)), b, call + 1)
    | .ok chunk =>
      if chunk.size = 0 then (.error (.refused (.io shortRead)), b, call + 1)
      else
        match b.write place chunk with
        | .error step => (.error (.fault step), b, call + 1)
        | .ok b =>
          readInto d (pos + chunk.size) (len - chunk.size) (call + 1) (place + chunk.size) b
termination_by len

/-- How many of the bytes of the page at `pos` a device of reported length `length?` has. -/
def available (length? : Option Nat) (pos : Nat) : Nat :=
  match length? with
  | some length => min (length - pos) pageSize
  | none => pageSize

/-- Writes page `page` into a buffer, from `place` on, zero past the reported length. -/
def fillPage (d : Device) (length? : Option Nat) (page call place : Nat) (b : Buffer) :
    Except Failure Unit × Buffer × Nat :=
  match Page.start page with
  | .error step => (.error (.fault step), b, call)
  | .ok pos =>
    let wanted := available length? pos
    match d.readInto pos wanted call place b with
    | (.error failure, b, call) => (.error failure, b, call)
    | (.ok (), b, call) =>
      match Word.sub pageSize wanted >>= b.clear (place + wanted) with
      | .error step => (.error (.fault step), b, call)
      | .ok b => (.ok (), b, call)

/-- Writes `n` pages from page `page` on into a buffer, from `place` on, one after the other until
one fails. -/
def fillPages (d : Device) (length? : Option Nat) :
    (n page call place : Nat) → (b : Buffer) → Except Failure Unit × Buffer × Nat
  | 0, _, call, _, b => (.ok (), b, call)
  | n + 1, page, call, place, b =>
    match d.fillPage length? page call place b with
    | (.error failure, b, call) => (.error failure, b, call)
    | (.ok (), b, call) => fillPages d length? n (page + 1) call (place + pageSize) b

end Device

end CompressedRom
