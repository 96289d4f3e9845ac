import CompressedRom.Error

/-!
# Arithmetic within a word

Offsets in an image are 32-bit words, positions and lengths 64-bit words. Numbers are natural
numbers here, and a sum, difference or product that its word cannot hold is a `Fault` in place
of a wrapped value.
-/

namespace CompressedRom.Word

/-- Powers of numbers are those of the core library, next to whatever other powers there are. -/
@[default_instance 20000]
instance (priority := 2000) natPow : Pow Nat Nat := instPowNat

/-- The largest value of a word of `bits` bits. -/
def max (bits : Nat) : Nat := 2 ^ bits - 1

/-- `a + b` in a word of `bits` bits. -/
def add (bits a b : Nat) : Except Fault Nat :=
  if a + b < 2 ^ bits then .ok (a + b) else .error .overflow

/-- `a - b`, which must not be negative. -/
def sub (a b : Nat) : Except Fault Nat :=
  if b ≤ a then .ok (a - b) else .error .overflow

/-- `a * b` in a word of `bits` bits. -/
def mul (bits a b : Nat) : Except Fault Nat :=
  if a * b < 2 ^ bits then .ok (a * b) else .error .overflow

theorem add_eq_ok {bits a b : Nat} (h : a + b < 2 ^ bits) : add bits a b = .ok (a + b) := by
  simp [add, h]

theorem sub_eq_ok {a b : Nat} (h : b ≤ a) : sub a b = .ok (a - b) := by
  simp [sub, h]

theorem mul_eq_ok {bits a b : Nat} (h : a * b < 2 ^ bits) : mul bits a b = .ok (a * b) := by
  simp [mul, h]

end CompressedRom.Word
