import CompressedRom.Bytes

/-!
# Bits of a compressed stream

A stream is read bit by bit, each byte's low bit first, and a place in it is the number of bits
before it. Numbers take the bits in the order in which they come, the lowest first. Main
statement: `takeBits_eq_ok_iff`, a number is read exactly when all its bits are there.
-/

namespace CompressedRom.Deflate

/-- Why the decoding of a stream stops short. -/
inductive Stop where
  | malformed
  | inputEnded
  | outputFull
  deriving DecidableEq, Repr

theorem bind_eq_ok_iff {ε α β : Type} {x : Except ε α} {f : α → Except ε β} {b : β} :
    x >>= f = .ok b ↔ ∃ a, x = .ok a ∧ f a = .ok b := by
  cases x <;> simp [bind, Except.bind]

/-- The bit at place `pos`. -/
def bitAt (b : Bytes) (pos : Nat) : Bool :=
  (b.byteAt (pos / 8)).toNat.testBit (pos % 8)

/-- The number in the `n` bits from `pos` on. -/
def bitsAt (b : Bytes) (pos : Nat) : Nat → Nat
  | 0 => 0
  | n + 1 => (bitAt b pos).toNat + 2 * bitsAt b (pos + 1) n

/-- The number in the `n` bits from `pos` on, and the place behind them. -/
def takeBits (b : Bytes) (pos n : Nat) : Except Stop (Nat × Nat) :=
  if pos + n ≤ 8 * b.size then .ok (bitsAt b pos n, pos + n) else .error .inputEnded

theorem takeBits_eq_ok_iff {b : Bytes} {pos n value next : Nat} :
    takeBits b pos n = .ok (value, next) ↔
      pos + n ≤ 8 * b.size ∧ bitsAt b pos n = value ∧ pos + n = next := by
  unfold takeBits
  split
  · simp_all
  · simp only [reduceCtorEq, false_iff]
    omega

/-- The first byte boundary at or after `pos`. -/
def alignToByte (pos : Nat) : Nat := (pos + 7) / 8 * 8

end CompressedRom.Deflate
