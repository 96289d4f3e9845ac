import CompressedRom.Proofs.ByteRange
import CompressedRom.Zlib

/-!
# The room that decoding takes

Decoding adds to its output, and stops before the output outgrows its limit: what
`Zlib.decompress` gives out fits into the destination.
-/

namespace CompressedRom

namespace Deflate

lemma size_copyBack (distance n : Nat) (out : Bytes) :
    (copyBack distance n out).size = out.size + n := by
  induction n generalizing out with
  | zero => rfl
  | succ n ih =>
    rw [copyBack, ih, ByteArray.size_push]
    omega

lemma size_symbols_le {codes : BlockCodes} {src out all : Bytes} {limit pos after : Nat}
    (hout : out.size ≤ limit) (h : symbols codes src limit pos out = .ok (after, all)) :
    all.size ≤ limit := by
  fun_induction symbols codes src limit pos out with
  | case1 => simp at h
  | case2 _ _ _ _ _ value _ hroom ih =>
    exact ih (by rw [ByteArray.size_push]; exact hroom) h
  | case3 => simp at h
  | case4 =>
    simp only [Except.ok.injEq, Prod.mk.injEq] at h
    exact h.2 ▸ hout
  | case5 => simp at h
  | case6 => simp at h
  | case7 => simp at h
  | case8 _ _ _ _ _ _ _ _ _ _ _ _ hroom ih =>
    exact ih (by rw [size_copyBack]; exact Nat.le_of_not_lt hroom) h

lemma size_storedBytes_le {src out all : Bytes} {limit pos after : Nat}
    (h : storedBytes src limit pos out = .ok (after, all)) : all.size ≤ limit := by
  simp only [storedBytes, bind_eq_ok_iff] at h
  obtain ⟨⟨length, p⟩, -, ⟨check, q⟩, -, h⟩ := h
  split at h
  · simp at h
  · split at h
    · simp at h
    · split at h
      · simp at h
      · rename_i hroom
        simp only [Except.ok.injEq, Prod.mk.injEq] at h
        rw [← h.2, ByteArray.size_append, ByteArray.size_extract]
        omega

lemma size_block_le {src out all : Bytes} {limit kind pos after : Nat} (hout : out.size ≤ limit)
    (h : block src limit kind pos out = .ok (after, all)) : all.size ≤ limit := by
  unfold block at h
  split at h
  · exact size_storedBytes_le h
  · exact size_symbols_le hout h
  · split at h
    · simp at h
    · exact size_symbols_le hout h
  · simp at h

lemma size_blocks_le {src out all : Bytes} {limit pos after : Nat} (hout : out.size ≤ limit)
    (h : blocks src limit pos out = .ok (after, all)) : all.size ≤ limit := by
  fun_induction blocks src limit pos out with
  | case1 => simp at h
  | case2 => simp at h
  | case3 _ _ _ _ _ _ _ hblock =>
    simp only [Except.ok.injEq, Prod.mk.injEq] at h
    exact h.2 ▸ size_block_le hout hblock
  | case4 _ _ _ _ _ _ _ hblock _ ih => exact ih (size_block_le hout hblock) h

end Deflate

namespace Zlib

lemma size_inflate_le {src out : Bytes} {limit : Nat} (h : inflate src limit = .ok out) :
    out.size ≤ limit := by
  unfold inflate at h
  split at h
  · simp at h
  · split at h
    · split at h
      · simp at h
      · rename_i pos all hblocks
        have hall : all.size ≤ limit :=
          Deflate.size_blocks_le (by rw [Bytes.size_zeros]; exact Nat.zero_le _) hblocks
        dsimp only at h
        split at h
        · simp at h
        · split at h
          · exact Except.ok.inj h ▸ hall
          · simp at h
    · simp at h

lemma size_decompress_le {src out : Bytes} {capacity : Nat}
    (h : decompress src capacity = .ok out) : out.size ≤ capacity := by
  unfold decompress at h
  split at h
  · rename_i hinflate
    exact Except.ok.inj h ▸ size_inflate_le hinflate
  · simp at h

lemma decompress_empty (capacity : Nat) (out : Bytes) :
    decompress (Bytes.zeros 0) capacity ≠ .ok out := by
  have hinflate : inflate (Bytes.zeros 0) capacity = .error .inputEnded := rfl
  rw [decompress, hinflate]
  simp

end Zlib

end CompressedRom
