import CompressedRom.Bytes
import Mathlib.Tactic.Lemma

/-!
# Ranges of bytes

The bytes of a device or of an image are a function of their position, and what is read of them
is a range of this function. `Bytes.IsRange` says so of a byte string; it is kept by cutting a
part out and by joining neighbouring ranges, and it determines the string.
-/

namespace CompressedRom.Bytes

lemma byteAt_of_lt {b : Bytes} {i : Nat} (h : i < b.size) : b.byteAt i = b[i] := by
  simp [byteAt, h]

lemma byteAt_of_le {b : Bytes} {i : Nat} (h : b.size ≤ i) : b.byteAt i = 0 := by
  simp [byteAt, Nat.not_lt.mpr h]

lemma ext_byteAt {a b : Bytes} (hs : a.size = b.size) (h : ∀ i < a.size, a.byteAt i = b.byteAt i) :
    a = b := by
  apply ByteArray.ext_getElem hs
  intro i hi hi'
  rw [← byteAt_of_lt hi, ← byteAt_of_lt hi']
  exact h i hi

@[simp] lemma byteAt_zeros (n i : Nat) : (zeros n).byteAt i = 0 := by
  by_cases h : i < n
  · rw [byteAt_of_lt (by simpa using h), ByteArray.getElem_eq_getElem_data]
    simp [zeros]
  · exact byteAt_of_le (by simpa using h)

lemma byteAt_append_left {a b : Bytes} {i : Nat} (h : i < a.size) :
    (a ++ b).byteAt i = a.byteAt i := by
  have hi : i < (a ++ b).size := by rw [ByteArray.size_append]; omega
  rw [byteAt_of_lt hi, byteAt_of_lt h, ByteArray.getElem_append_left h]

lemma byteAt_append_right {a b : Bytes} {i : Nat} (h : a.size ≤ i) :
    (a ++ b).byteAt i = b.byteAt (i - a.size) := by
  by_cases hi : i < (a ++ b).size
  · have hb : i - a.size < b.size := by rw [ByteArray.size_append] at hi; omega
    rw [byteAt_of_lt hi, byteAt_of_lt hb, ByteArray.getElem_append_right h]
  · have hb : b.size ≤ i - a.size := by rw [ByteArray.size_append] at hi; omega
    rw [byteAt_of_le (by omega), byteAt_of_le hb]

lemma byteAt_append_zeros (b : Bytes) (n i : Nat) : (b ++ zeros n).byteAt i = b.byteAt i := by
  by_cases h : i < b.size
  · exact byteAt_append_left h
  · rw [byteAt_append_right (by omega), byteAt_zeros, byteAt_of_le (by omega)]

lemma byteAt_extract {b : Bytes} {start stop i : Nat} (hi : start + i < stop)
    (hb : start + i < b.size) : byteAt (b.extract start stop) i = b.byteAt (start + i) := by
  have h : i < (b.extract start stop).size := by rw [ByteArray.size_extract]; omega
  rw [byteAt_of_lt h, byteAt_of_lt hb, ByteArray.getElem_extract]

lemma slice_eq_ok {b : Bytes} {start len : Nat} (h : start + len ≤ b.size) :
    b.slice start len = .ok (b.extract start (start + len)) := by
  simp [slice, h]

/-- `b` holds the `len` bytes of `f` from `start` on. -/
structure IsRange (f : Nat → UInt8) (start len : Nat) (b : Bytes) : Prop where
  size_eq : b.size = len
  byteAt_eq : ∀ i < len, b.byteAt i = f (start + i)

namespace IsRange

variable {f g : Nat → UInt8} {start len : Nat} {a b : Bytes}

lemma unique (ha : IsRange f start len a) (hb : IsRange f start len b) : a = b := by
  apply ext_byteAt (by rw [ha.size_eq, hb.size_eq])
  intro i hi
  rw [ha.size_eq] at hi
  rw [ha.byteAt_eq i hi, hb.byteAt_eq i hi]

lemma empty (f : Nat → UInt8) (start : Nat) : IsRange f start 0 (zeros 0) :=
  ⟨size_zeros 0, fun i hi => absurd hi (Nat.not_lt_zero i)⟩

lemma congr (hb : IsRange f start len b) (h : ∀ i < len, f (start + i) = g (start + i)) :
    IsRange g start len b :=
  ⟨hb.size_eq, fun i hi => (hb.byteAt_eq i hi).trans (h i hi)⟩

lemma append {m n : Nat} (ha : IsRange f start m a) (hb : IsRange f (start + m) n b) :
    IsRange f start (m + n) (a ++ b) := by
  have hs : (a ++ b).size = m + n := by rw [ByteArray.size_append, ha.size_eq, hb.size_eq]
  refine ⟨hs, fun i hi => ?_⟩
  by_cases h : i < m
  · rw [byteAt_append_left (by rw [ha.size_eq]; exact h), ha.byteAt_eq i h]
  · rw [byteAt_append_right (by rw [ha.size_eq]; omega), ha.size_eq, hb.byteAt_eq _ (by omega)]
    congr 1
    omega

lemma extract {at' n : Nat} (hb : IsRange f start len b) (h : at' + n ≤ len) :
    IsRange f (start + at') n (b.extract at' (at' + n)) := by
  have hs := hb.size_eq
  refine ⟨by rw [ByteArray.size_extract]; omega, fun i hi => ?_⟩
  rw [byteAt_extract (by omega) (by omega), hb.byteAt_eq _ (by omega), Nat.add_assoc]

lemma zeros_of_eq_zero (h : ∀ i < len, f (start + i) = 0) : IsRange f start len (zeros len) :=
  ⟨size_zeros len, fun i hi => by rw [byteAt_zeros, h i hi]⟩

lemma of_extract (h : start + len ≤ b.size) :
    IsRange b.byteAt start len (b.extract start (start + len)) := by
  refine ⟨by rw [ByteArray.size_extract]; omega, fun i hi => ?_⟩
  exact byteAt_extract (by omega) (by omega)

end IsRange

end CompressedRom.Bytes
