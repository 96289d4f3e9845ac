import CompressedRom.Proofs.ByteRange

/-!
# Layouts of bytes

How byte strings are put together from parts and what is found in them afterwards: little-endian
words, padding behind a name, a chunk written over a range, and parts one behind the other.
-/

namespace CompressedRom.Bytes

lemma size_ofList (l : List UInt8) : (ofList l).size = l.length := List.size_toArray

lemma ofList_append (l l' : List UInt8) : ofList (l ++ l') = ofList l ++ ofList l' := by
  apply ByteArray.ext
  simp [ofList]

lemma byteAt_ofList (l : List UInt8) (i : Nat) : (ofList l).byteAt i = l.getD i 0 := by
  by_cases h : i < (ofList l).size
  · have hl : i < l.length := size_ofList l ▸ h
    rw [byteAt_of_lt h, ByteArray.getElem_eq_getElem_data]
    simp [ofList, hl]
  · have hl : l.length ≤ i := size_ofList l ▸ Nat.le_of_not_lt h
    rw [byteAt_of_le (Nat.le_of_not_lt h)]
    simp [hl]

@[simp] lemma size_ofWord (n : Nat) : (ofWord n).size = 4 := rfl

lemma wordAt_ofWord {n : Nat} (h : n < 2 ^ 32) : (ofWord n).wordAt 0 = n := by
  simp only [wordAt, ofWord, byteAt_ofList, List.getD_cons_zero, List.getD_cons_succ,
    UInt8.toNat_ofNat']
  omega

lemma wordAt_append_left {a b : Bytes} {i : Nat} (h : i + 4 ≤ a.size) :
    (a ++ b).wordAt i = a.wordAt i := by
  unfold wordAt
  rw [byteAt_append_left (by omega), byteAt_append_left (by omega), byteAt_append_left (by omega),
    byteAt_append_left (by omega)]

lemma wordAt_append_right {a b : Bytes} {i : Nat} (h : a.size ≤ i) :
    (a ++ b).wordAt i = b.wordAt (i - a.size) := by
  have hsub (k : Nat) : i + k - a.size = i - a.size + k := by omega
  unfold wordAt
  rw [byteAt_append_right h, byteAt_append_right (by omega), byteAt_append_right (by omega),
    byteAt_append_right (by omega), hsub 1, hsub 2, hsub 3]

lemma wordAt_extract_add {b : Bytes} {start stop i : Nat} (hi : start + i + 4 ≤ stop)
    (hstop : stop ≤ b.size) : wordAt (b.extract start stop) i = b.wordAt (start + i) := by
  unfold wordAt
  rw [byteAt_extract (by omega) (by omega), byteAt_extract (by omega) (by omega),
    byteAt_extract (by omega) (by omega), byteAt_extract (by omega) (by omega)]
  rfl

lemma zeros_append_zeros (m n : Nat) : zeros m ++ zeros n = zeros (m + n) := by
  apply ext_byteAt
  · rw [ByteArray.size_append, size_zeros, size_zeros, size_zeros]
  · intro i _
    rw [byteAt_append_zeros, byteAt_zeros, byteAt_zeros]

lemma append_zeros_zero (b : Bytes) : b ++ zeros 0 = b := ByteArray.append_empty

lemma zeros_zero_append (b : Bytes) : zeros 0 ++ b = b := ByteArray.empty_append

lemma usedUpTo_append_zeros (b : Bytes) (hlast : b.byteAt (b.size - 1) ≠ 0) (n k : Nat)
    (hk : k ≤ n) : (b ++ zeros n).usedUpTo (b.size + k) = b.size := by
  induction k with
  | zero =>
    rcases hb : b.size with _ | m
    · rfl
    · rw [hb, Nat.add_sub_cancel] at hlast
      rw [Nat.add_zero, usedUpTo, byteAt_append_zeros, if_neg hlast]
  | succ k ih =>
    have hzero : b.byteAt (b.size + k) = 0 := byteAt_of_le (Nat.le_add_right _ _)
    rw [← Nat.add_assoc, usedUpTo, byteAt_append_zeros, if_pos hzero]
    exact ih (by omega)

lemma trimZeros_append_zeros {b : Bytes} (hlast : b.byteAt (b.size - 1) ≠ 0) (n : Nat) :
    (b ++ zeros n).trimZeros = b := by
  unfold trimZeros
  rw [ByteArray.size_append, size_zeros, usedUpTo_append_zeros b hlast n n (Nat.le_refl n)]
  exact ByteArray.extract_append_eq_left rfl

lemma usedUpTo_le (b : Bytes) (n : Nat) : b.usedUpTo n ≤ n := by
  induction n with
  | zero => exact Nat.le_refl 0
  | succ n ih =>
    rw [usedUpTo]
    split
    · exact Nat.le_succ_of_le ih
    · exact Nat.le_refl _

lemma byteAt_usedUpTo {b : Bytes} {n : Nat} (h : b.usedUpTo n ≠ 0) :
    b.byteAt (b.usedUpTo n - 1) ≠ 0 := by
  induction n with
  | zero => exact absurd rfl h
  | succ n ih =>
    rw [usedUpTo] at h ⊢
    by_cases hzero : b.byteAt n = 0
    · rw [if_pos hzero] at h ⊢
      exact ih h
    · rwa [if_neg hzero]

lemma size_trimZeros (b : Bytes) : b.trimZeros.size = b.usedUpTo b.size := by
  have hle := b.usedUpTo_le b.size
  unfold trimZeros
  rw [ByteArray.size_extract]
  omega

/-- What is left without the zero bytes at the end does not end with a zero byte. -/
lemma byteAt_trimZeros {b : Bytes} (h : b.trimZeros.size ≠ 0) :
    b.trimZeros.byteAt (b.trimZeros.size - 1) ≠ 0 := by
  rw [size_trimZeros] at h ⊢
  have hlast : b.usedUpTo b.size - 1 < b.usedUpTo b.size := Nat.sub_one_lt h
  have hbyte : b.trimZeros.byteAt (b.usedUpTo b.size - 1) = b.byteAt (b.usedUpTo b.size - 1) := by
    have hin := Nat.lt_of_lt_of_le hlast (b.usedUpTo_le b.size)
    unfold trimZeros
    rw [byteAt_extract (by omega) (by omega), Nat.zero_add]
  rw [hbyte]
  exact byteAt_usedUpTo h

lemma byteAt_of_usedUpTo_le {b : Bytes} {n i : Nat} (h : b.usedUpTo n ≤ i) (hi : i < n) :
    b.byteAt i = 0 := by
  induction n with
  | zero => omega
  | succ n ih =>
    rw [usedUpTo] at h
    by_cases hzero : b.byteAt n = 0
    · rw [if_pos hzero] at h
      by_cases hin : i < n
      · exact ih h hin
      · obtain rfl : i = n := by omega
        exact hzero
    · rw [if_neg hzero] at h
      omega

lemma trimZeros_padded (b : Bytes) : b.trimZeros ++ zeros (b.size - b.trimZeros.size) = b := by
  have hle := b.usedUpTo_le b.size
  apply ext_byteAt
  · rw [ByteArray.size_append, size_zeros, size_trimZeros]
    omega
  · intro i hi
    rw [ByteArray.size_append, size_zeros, size_trimZeros] at hi
    rw [byteAt_append_zeros]
    by_cases hused : i < b.usedUpTo b.size
    · unfold trimZeros
      rw [byteAt_extract (by omega) (by omega), Nat.zero_add]
    · rw [byteAt_of_le (by rw [size_trimZeros]; omega),
        byteAt_of_usedUpTo_le (Nat.le_of_not_lt hused) (by omega)]

/-- A chunk that is written over a range of `b` stands there, and nowhere else is `b` changed. -/
lemma overwrite_eq_ok {b chunk : Bytes} {start : Nat} (h : start + chunk.size ≤ b.size) :
    ∃ b', b.overwrite start chunk = .ok b' ∧ b'.size = b.size ∧
      ∀ j, b'.byteAt j = if start ≤ j ∧ j < start + chunk.size then chunk.byteAt (j - start)
        else b.byteAt j := by
  -- The copy consists of what stands before the range, the chunk, and what stands behind it.
  have hcopy : chunk.copySlice 0 b start chunk.size =
      b.extract 0 start ++ chunk ++ b.extract (start + chunk.size) b.size := by
    have hchunk : chunk.extract 0 chunk.size = chunk := ByteArray.extract_zero_size
    rw [ByteArray.copySlice_eq_append, ByteArray.size_data, ByteArray.size_data, Nat.zero_add,
      Nat.sub_zero, Nat.min_self, hchunk]
  have hbefore : (b.extract 0 start).size = start := by rw [ByteArray.size_extract]; omega
  have hbehind : (b.extract (start + chunk.size) b.size).size = b.size - (start + chunk.size) := by
    rw [ByteArray.size_extract]; omega
  refine ⟨_, if_pos h, ?_, fun j => ?_⟩
  · rw [hcopy, ByteArray.size_append, ByteArray.size_append, hbefore, hbehind]
    omega
  · rw [hcopy]
    by_cases hj : j < start
    · rw [if_neg (by omega), ByteArray.append_assoc, byteAt_append_left (by omega),
        byteAt_extract (by omega) (by omega), Nat.zero_add]
    · by_cases hj' : j < start + chunk.size
      · rw [if_pos (by omega), byteAt_append_left (by rw [ByteArray.size_append]; omega),
          byteAt_append_right (by omega), hbefore]
      · rw [if_neg (by omega), byteAt_append_right (by rw [ByteArray.size_append]; omega),
          ByteArray.size_append, hbefore]
        by_cases hb : j < b.size
        · rw [byteAt_extract (by omega) (by omega)]
          congr 1
          omega
        · rw [byteAt_of_le (by omega), byteAt_of_le (by omega)]

/-- `buffer` with `got` in place of its first bytes. -/
def atop (got buffer : Bytes) : Bytes := got ++ buffer.extract got.size buffer.size

lemma size_atop {got buffer : Bytes} (h : got.size ≤ buffer.size) :
    (got.atop buffer).size = buffer.size := by
  unfold atop
  rw [ByteArray.size_append, ByteArray.size_extract]
  omega

lemma zeros_zero_atop (buffer : Bytes) : (zeros 0).atop buffer = buffer := by
  unfold atop
  rw [zeros_zero_append]
  exact ByteArray.extract_zero_size

lemma byteAt_atop (got buffer : Bytes) (j : Nat) :
    (got.atop buffer).byteAt j = if j < got.size then got.byteAt j else buffer.byteAt j := by
  unfold atop
  by_cases hj : j < got.size
  · rw [if_pos hj, byteAt_append_left hj]
  · rw [if_neg hj, byteAt_append_right (Nat.le_of_not_lt hj)]
    have hplace : got.size + (j - got.size) = j := by omega
    by_cases hb : j < buffer.size
    · rw [byteAt_extract (by omega) (by omega), hplace]
    · have hend : (buffer.extract got.size buffer.size).size ≤ j - got.size := by
        rw [ByteArray.size_extract]
        omega
      rw [byteAt_of_le hend, byteAt_of_le (Nat.le_of_not_lt hb)]

lemma atop_of_size {got buffer : Bytes} (h : buffer.size = got.size) : got.atop buffer = got := by
  apply ext_byteAt
  · rw [size_atop (Nat.le_of_eq h.symm), h]
  · intro j hj
    rw [size_atop (Nat.le_of_eq h.symm), h] at hj
    rw [byteAt_atop, if_pos hj]

/-- A buffer that holds the bytes from `mid` up to `last` of a part that lies at `start`, and is like
`got` in place of its first bytes elsewhere, holds these bytes behind `got`. -/
lemma eq_atop_append {got part buffer b : Bytes} {pos start mid last : Nat} (hpos : pos ≤ mid)
    (hstart : start ≤ mid) (hlast : mid ≤ last) (hpart : last ≤ start + part.size)
    (hbuffer : last ≤ pos + buffer.size) (hgot : got.size = mid - pos) (hsize : b.size = buffer.size)
    (hbytes : ∀ j, b.byteAt j = if mid ≤ pos + j ∧ pos + j < last then part.byteAt (pos + j - start)
      else (got.atop buffer).byteAt j) :
    b = (got ++ part.extract (mid - start) (last - start)).atop buffer := by
  have hall : (got ++ part.extract (mid - start) (last - start)).size = last - pos := by
    rw [ByteArray.size_append, ByteArray.size_extract]
    omega
  apply ext_byteAt
  · rw [hsize, size_atop]
    omega
  · intro j _
    rw [hbytes, byteAt_atop, byteAt_atop, hall]
    by_cases hin : mid ≤ pos + j ∧ pos + j < last
    · have hplace : mid - start + (j - got.size) = pos + j - start := by omega
      rw [if_pos hin, if_pos (by omega), byteAt_append_right (by omega),
        byteAt_extract (by omega) (by omega), hplace]
    · rw [if_neg hin]
      by_cases hj : j < got.size
      · rw [if_pos hj, if_pos (by omega), byteAt_append_left hj]
      · rw [if_neg hj, if_neg (by omega)]

/-- Byte strings one behind the other. -/
def joined : List Bytes → Bytes
  | [] => zeros 0
  | part :: parts => part ++ joined parts

namespace IsRange

variable {f : Nat → UInt8} {start : Nat} {a b : Bytes}

lemma self (b : Bytes) : IsRange b.byteAt 0 b.size b :=
  ⟨rfl, fun i _ => by rw [Nat.zero_add]⟩

lemma append_iff : IsRange f start (a ++ b).size (a ++ b) ↔
    IsRange f start a.size a ∧ IsRange f (start + a.size) b.size b := by
  rw [ByteArray.size_append]
  refine ⟨fun h => ⟨⟨rfl, fun i hi => ?_⟩, ⟨rfl, fun i hi => ?_⟩⟩, fun h => h.1.append h.2⟩
  · rw [← h.byteAt_eq i (by omega), byteAt_append_left hi]
  · rw [Nat.add_assoc, ← h.byteAt_eq _ (by omega), byteAt_append_right (by omega),
      Nat.add_sub_cancel_left]

lemma ofWord_wordAt (b : Bytes) (i : Nat) : IsRange b.byteAt i 4 (ofWord (b.wordAt i)) := by
  have hbyte (k : Nat) := UInt8.toNat_lt (b.byteAt (i + k))
  have h0 := hbyte 0
  have h1 := hbyte 1
  have h2 := hbyte 2
  have h3 := hbyte 3
  refine ⟨size_ofWord _, fun j hj => ?_⟩
  rw [ofWord, byteAt_ofList]
  apply UInt8.toNat_inj.1
  unfold wordAt
  match j, hj with
  | 0, _ | 1, _ | 2, _ | 3, _ =>
    simp only [List.getD_cons_zero, List.getD_cons_succ, UInt8.toNat_ofNat', Nat.add_zero] at h0 ⊢
    omega

end IsRange

end CompressedRom.Bytes
