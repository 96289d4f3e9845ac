import CompressedRom.Bytes

/-!
# Mapped images

An image that lies in memory as a whole is read by taking ranges out of it.
-/

namespace CompressedRom

/-- An image in memory; perhaps at a known physical address, and perhaps such that marked files
may be executed out of it. -/
structure Mapping where
  bytes : Bytes
  physBase? : Option Nat
  inPlace : Bool

/-- The `len` bytes at `offset`, none of which may lie past the end. Nothing can always be had. -/
def Mapping.read (m : Mapping) (offset len : Nat) : Except Failure Bytes :=
  if len = 0 then .ok (Bytes.zeros 0)
  else if m.bytes.size < offset then .error (.refused (.outsideImage offset len m.bytes.size))
  else
    match Word.sub m.bytes.size offset with
    | .error step => .error (.fault step)
    | .ok left =>
      if left < len then .error (.refused (.outsideImage offset len m.bytes.size))
      else
        match m.bytes.slice offset len with
        | .ok span => .ok span
        | .error step => .error (.fault step)

/-- No step of a read is a fault: past the end it is refused. -/
theorem Mapping.read_eq (m : Mapping) (offset len : Nat) :
    m.read offset len =
      if len = 0 then .ok (Bytes.zeros 0)
      else if offset + len ≤ m.bytes.size then .ok (m.bytes.extract offset (offset + len))
      else .error (.refused (.outsideImage offset len m.bytes.size)) := by
  unfold read
  by_cases hstart : m.bytes.size < offset
  · rw [if_pos hstart, if_neg (show ¬offset + len ≤ m.bytes.size by omega)]
  · rw [if_neg hstart, Word.sub_eq_ok (Nat.le_of_not_lt hstart)]
    by_cases hin : offset + len ≤ m.bytes.size
    · dsimp only
      rw [if_neg (show ¬m.bytes.size - offset < len by omega), Bytes.slice, if_pos hin, if_pos hin]
    · dsimp only
      rw [if_pos (show m.bytes.size - offset < len by omega), if_neg hin]

end CompressedRom
