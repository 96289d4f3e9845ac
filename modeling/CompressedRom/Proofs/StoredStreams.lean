import CompressedRom.Proofs.ByteLayout
import CompressedRom.Proofs.StreamExtent

/-!
# Streams that the compressor writes

A stored block starts and ends at a byte boundary, so its header, its two lengths and its bytes are
read off byte by byte, and blocks one behind the other give back their data in one piece. With the
checksum behind them, `Zlib.inflates_packed` follows for every level: a stream that is not of this
form is only written if it decodes to its source.
-/

namespace CompressedRom

namespace Deflate

open Bytes (IsRange)

lemma bitAt_eq_testBit (b : Bytes) {i j : Nat} (hj : j < 8) :
    bitAt b (8 * i + j) = (b.byteAt i).toNat.testBit j := by
  have hbyte : (8 * i + j) / 8 = i := by omega
  have hbit : (8 * i + j) % 8 = j := by omega
  rw [bitAt, hbyte, hbit]

lemma bitsAt_of_byte (b : Bytes) (i : Nat) {j k : Nat} (hjk : j + k ≤ 8) :
    bitsAt b (8 * i + j) k = (b.byteAt i).toNat / 2 ^ j % 2 ^ k := by
  induction k generalizing j with
  | zero => rw [bitsAt, Nat.pow_zero, Nat.mod_one]
  | succ k ih =>
    have hrest := ih (j := j + 1) (by omega)
    rw [bitsAt, bitAt_eq_testBit b (by omega), Nat.toNat_testBit, Nat.add_assoc, hrest,
      Nat.pow_succ 2 k, Nat.mul_comm (2 ^ k) 2, Nat.mod_mul, Nat.pow_succ, Nat.div_div_eq_div_mul]

lemma bitsAt_add (b : Bytes) (pos m n : Nat) :
    bitsAt b pos (m + n) = bitsAt b pos m + 2 ^ m * bitsAt b (pos + m) n := by
  induction m generalizing pos with
  | zero => rw [bitsAt, Nat.zero_add, Nat.zero_add, Nat.pow_zero, Nat.one_mul, Nat.add_zero]
  | succ m ih =>
    have hplace : pos + 1 + m = pos + (m + 1) := by omega
    rw [Nat.succ_add, bitsAt, bitsAt, ih, hplace, Nat.pow_succ', Nat.mul_add, Nat.mul_assoc,
      Nat.add_assoc]

/-- Sixteen bits from a byte boundary on are two bytes, the lower first. -/
lemma bitsAt_sixteen (b : Bytes) (i : Nat) :
    bitsAt b (8 * i) 16 = (b.byteAt i).toNat + 2 ^ 8 * (b.byteAt (i + 1)).toNat := by
  have hlow := bitsAt_of_byte b i (j := 0) (k := 8) (by omega)
  have hhigh := bitsAt_of_byte b (i + 1) (j := 0) (k := 8) (by omega)
  have hplace : 8 * i + 8 = 8 * (i + 1) := by omega
  rw [Nat.add_zero, Nat.pow_zero, Nat.div_one, Nat.mod_eq_of_lt (UInt8.toNat_lt _)] at hlow hhigh
  rw [bitsAt_add b (8 * i) 8 8, hplace, hlow, hhigh]

lemma size_storedBlock (last : Bool) (chunk : Bytes) :
    (storedBlock last chunk).size = 5 + chunk.size := by
  rw [storedBlock, ByteArray.size_append, Bytes.size_ofList]
  rfl

section

variable {z chunk : Bytes} {last : Bool} {start limit : Nat} {out : Bytes}

lemma takeBits_storedBlock
    (hz : IsRange z.byteAt start (storedBlock last chunk).size (storedBlock last chunk))
    (hend : start + (storedBlock last chunk).size ≤ z.size) :
    takeBits z (8 * start) 3 = .ok (last.toNat, 8 * start + 3) := by
  rw [size_storedBlock] at hend
  rw [storedBlock, Bytes.IsRange.append_iff] at hz
  have hfirst := hz.1.byteAt_eq 0 (by rw [Bytes.size_ofList]; simp)
  have hbits := bitsAt_of_byte z start (j := 0) (k := 3) (by omega)
  rw [Bytes.byteAt_ofList, List.getD_cons_zero, Nat.add_zero] at hfirst
  rw [Nat.add_zero, ← hfirst] at hbits
  apply takeBits_eq_ok_iff.2
  refine ⟨by omega, ?_, rfl⟩
  rw [hbits]
  cases last with
  | true => rfl
  | false => rfl

/-- The header and the two lengths of a stored block are whole bytes, so that it is read from them. -/
lemma block_storedBlock
    (hz : IsRange z.byteAt start (storedBlock last chunk).size (storedBlock last chunk))
    (hend : start + (storedBlock last chunk).size ≤ z.size) (hchunk : chunk.size ≤ maxStored)
    (hroom : out.size + chunk.size ≤ limit) :
    block z limit 0 (8 * start + 3) out =
      .ok (8 * (start + (storedBlock last chunk).size), out ++ chunk) := by
  rw [size_storedBlock] at hend ⊢
  rw [storedBlock, Bytes.IsRange.append_iff] at hz
  obtain ⟨hheader, hdata⟩ := hz
  have hbyte (i : Nat) (hi : i < 5) := hheader.byteAt_eq i hi
  simp only [Bytes.byteAt_ofList] at hbyte
  have hlow := congrArg UInt8.toNat (hbyte 1 (by omega))
  have hhigh := congrArg UInt8.toNat (hbyte 2 (by omega))
  have hlow' := congrArg UInt8.toNat (hbyte 3 (by omega))
  have hhigh' := congrArg UInt8.toNat (hbyte 4 (by omega))
  simp only [List.getD_cons_succ, List.getD_cons_zero, UInt8.toNat_ofNat']
    at hlow hhigh hlow' hhigh'
  unfold maxStored at hchunk hlow' hhigh'
  have halign : alignToByte (8 * start + 3) = 8 * (start + 1) := by
    unfold alignToByte
    omega
  have hlength : takeBits z (8 * (start + 1)) 16 = .ok (chunk.size, 8 * (start + 3)) := by
    apply takeBits_eq_ok_iff.2
    simp only [bitsAt_sixteen, Nat.add_assoc, Nat.reduceAdd]
    omega
  have hcheck : takeBits z (8 * (start + 3)) 16 =
      .ok (2 ^ 16 - 1 - chunk.size, 8 * (start + 5)) := by
    apply takeBits_eq_ok_iff.2
    simp only [bitsAt_sixteen, Nat.add_assoc, Nat.reduceAdd]
    omega
  have hbytes : z.extract (start + 5) (start + 5 + chunk.size) = chunk :=
    (IsRange.of_extract (by omega)).unique hdata
  have hplace : 8 * (start + 5) / 8 = start + 5 := by omega
  have hafter : 8 * (start + 5) + 8 * chunk.size = 8 * (start + (5 + chunk.size)) := by omega
  rw [block, storedBytes, halign, hlength]
  dsimp only [bind, Except.bind]
  rw [hcheck]
  dsimp only
  rw [if_neg (by omega), if_neg (by omega), if_neg (by omega), hplace, hbytes, hafter]

end

lemma blocks_of_block {src out all : Bytes} {limit pos header p after : Nat}
    (hheader : takeBits src pos 3 = .ok (header, p))
    (hblock : block src limit (header / 2) p out = .ok (after, all)) :
    blocks src limit pos out =
      if header % 2 = 1 then .ok (after, all) else blocks src limit after all := by
  rw [blocks, hheader]
  dsimp only
  rw [hblock]

/-- The stored blocks of `data` from `start` on, at a byte boundary of `z`, are read as a whole. -/
lemma blocks_storedBlocks {z data : Bytes} {start at' limit : Nat} {out : Bytes}
    (hz : IsRange z.byteAt at' (storedBlocks data start).size (storedBlocks data start))
    (hend : at' + (storedBlocks data start).size ≤ z.size)
    (hroom : out.size + (data.size - start) ≤ limit) :
    blocks z limit (8 * at') out =
      .ok (8 * (at' + (storedBlocks data start).size), out ++ data.extract start data.size) := by
  fun_induction storedBlocks data start generalizing at' out with
  | case1 start hlast =>
    have hchunk : (data.extract start data.size).size ≤ maxStored := by
      rw [ByteArray.size_extract]
      omega
    have hfit : out.size + (data.extract start data.size).size ≤ limit := by
      rw [ByteArray.size_extract]
      omega
    exact blocks_of_block (takeBits_storedBlock hz hend) (block_storedBlock hz hend hchunk hfit)
  | case2 start hlast ih =>
    have hsize : (data.extract start (start + maxStored)).size = maxStored := by
      rw [ByteArray.size_extract]
      omega
    have hfit : out.size + (data.extract start (start + maxStored)).size ≤ limit := by
      rw [hsize]
      omega
    have hparts := Bytes.IsRange.append_iff.1 hz
    rw [ByteArray.size_append] at hend ⊢
    have hfirst := blocks_of_block (takeBits_storedBlock hparts.1 (by omega))
      (block_storedBlock hparts.1 (by omega) (Nat.le_of_eq hsize) hfit)
    have hmore : (out ++ data.extract start (start + maxStored)).size +
        (data.size - (start + maxStored)) ≤ limit := by
      rw [ByteArray.size_append, hsize]
      omega
    have hrest := ih hparts.2 (by omega) hmore
    have hmiddle : min start (start + maxStored) = start :=
      Nat.min_eq_left (Nat.le_add_right _ _)
    have hlatter : max (start + maxStored) data.size = data.size :=
      Nat.max_eq_right (by omega)
    rw [hfirst, if_neg (by decide), hrest, ByteArray.append_assoc,
      ByteArray.extract_append_extract, hmiddle, hlatter, Nat.add_assoc]

end Deflate

namespace Zlib

open Bytes (IsRange)

lemma checksumStep_lt (sums : Nat × Nat) (b : UInt8) :
    (checksumStep sums b).1 < 65521 ∧ (checksumStep sums b).2 < 65521 := by
  constructor
  · exact Nat.mod_lt _ (by decide)
  · exact Nat.mod_lt _ (by decide)

lemma foldl_checksumStep_lt (b : Bytes) :
    (b.foldl checksumStep (1, 0)).1 < 65521 ∧ (b.foldl checksumStep (1, 0)).2 < 65521 := by
  have hloop (fuel j : Nat) (sums : Nat × Nat) (hsums : sums.1 < 65521 ∧ sums.2 < 65521) :
      (ByteArray.foldlM.loop (m := Id) (fun sums b => pure (checksumStep sums b)) b b.size
          (Nat.le_refl _) fuel j sums).1 < 65521 ∧
        (ByteArray.foldlM.loop (m := Id) (fun sums b => pure (checksumStep sums b)) b b.size
          (Nat.le_refl _) fuel j sums).2 < 65521 := by
    induction fuel generalizing j sums with
    | zero =>
      rw [ByteArray.foldlM.loop]
      split
      · exact hsums
      · exact hsums
    | succ fuel ih =>
      rw [ByteArray.foldlM.loop]
      split
      · exact ih _ _ (checksumStep_lt _ _)
      · exact hsums
  rw [ByteArray.foldl, ByteArray.foldlM, dif_pos (Nat.le_refl _)]
  exact hloop _ _ _ (by decide)

lemma checksum_lt (b : Bytes) : checksum b < 2 ^ 32 := by
  have hsums := foldl_checksumStep_lt b
  unfold checksum
  dsimp only
  omega

lemma bigEndianAt_of_isRange {z : Bytes} {i n : Nat} (hz : IsRange z.byteAt i 4 (ofBigEndian n))
    (hn : n < 2 ^ 32) : bigEndianAt z i = n := by
  have h0 := congrArg UInt8.toNat (hz.byteAt_eq 0 (by omega))
  have h1 := congrArg UInt8.toNat (hz.byteAt_eq 1 (by omega))
  have h2 := congrArg UInt8.toNat (hz.byteAt_eq 2 (by omega))
  have h3 := congrArg UInt8.toNat (hz.byteAt_eq 3 (by omega))
  simp only [ofBigEndian, Bytes.byteAt_ofList, List.getD_cons_zero, List.getD_cons_succ,
    UInt8.toNat_ofNat', Nat.add_zero] at h0 h1 h2 h3
  unfold bigEndianAt
  omega

/-- A stored stream, of however many blocks, inflates to its source. -/
lemma inflates_storedStream (src : Bytes) : Inflates (storedStream src) src := by
  have htwo : (Bytes.ofList [0x78, 0x01]).size = 2 := rfl
  have halign (n : Nat) : Deflate.alignToByte (8 * n) / 8 = n := by
    unfold Deflate.alignToByte
    omega
  generalize hz : storedStream src = z
  have hparts : IsRange z.byteAt 0 z.size z := IsRange.self z
  have hsize : z.size = 2 + (Deflate.storedBlocks src 0).size + 4 := by
    rw [← hz, storedStream, stream, ByteArray.size_append, ByteArray.size_append, htwo]
    rfl
  -- The stream is taken apart, but not inside the function that reads its bytes.
  generalize hf : z.byteAt = f at hparts
  rw [← hz, storedStream, stream, IsRange.append_iff, IsRange.append_iff, ByteArray.size_append,
    Nat.zero_add, Nat.zero_add, htwo] at hparts
  subst hf
  obtain ⟨⟨hheader, hblocks⟩, htrailer⟩ := hparts
  have hfirst : 0x78 = z.byteAt 0 := hheader.byteAt_eq 0 (by decide)
  have hsecond : 0x01 = z.byteAt 1 := hheader.byteAt_eq 1 (by decide)
  have hall : Deflate.blocks z src.size 16 (Bytes.zeros 0) =
      .ok (8 * (2 + (Deflate.storedBlocks src 0).size), src) := by
    have hroom : (Bytes.zeros 0).size + (src.size - 0) ≤ src.size := by
      rw [Bytes.size_zeros]
      omega
    have hout := Deflate.blocks_storedBlocks hblocks (by omega) hroom
    rwa [Bytes.zeros_zero_append, ByteArray.extract_zero_size] at hout
  have hchecksum := bigEndianAt_of_isRange htrailer (checksum_lt src)
  rw [Inflates, inflate, if_neg (by omega), ← hfirst, ← hsecond, if_pos (by decide), hall]
  dsimp only
  rw [halign, if_neg (by omega), if_pos hchecksum]

/-- The stream that is written for `src` at a level. -/
def packed (level : Nat) (src : Bytes) : Bytes :=
  if level = 0 then storedStream src else shortStream (.ofLevel level) src

lemma inflates_shortStream (effort : Deflate.Effort) (src : Bytes) :
    Inflates (shortStream effort src) src := by
  unfold shortStream
  dsimp only
  split
  · rename_i hshort
    rw [Bool.and_eq_true] at hshort
    exact restores_iff.1 hshort.2
  · exact inflates_storedStream src

/-- Every stream that is written inflates to its source. -/
theorem inflates_packed (level : Nat) (src : Bytes) : Inflates (packed level src) src := by
  unfold packed
  split
  · exact inflates_storedStream src
  · exact inflates_shortStream _ src

lemma compress_eq (level : Nat) (src : Bytes) (capacity : Nat) :
    compress level src capacity =
      if (packed level src).size ≤ capacity then .ok (packed level src)
      else .error ⟨.unexpectedEnd, "unexpected end of file"⟩ := rfl

end Zlib

end CompressedRom
