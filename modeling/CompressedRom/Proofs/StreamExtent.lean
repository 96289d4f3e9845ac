import CompressedRom.Proofs.InflateSize

/-!
# Streams are told by their own bytes

Decoding goes through a stream once, from its first bit to its last. What it makes of a source
rests on the bytes that it takes and on nothing behind them, and room beyond its output changes
nothing. `Zlib.inflate_eq_ok_iff` says so of whole streams: a source inflates in some room just
when the room holds its output.
-/

namespace CompressedRom

namespace Deflate

/-- The first `n` bytes of `a` are those of `b`. -/
structure StartsAlike (a b : Bytes) (n : Nat) : Prop where
  le_size : n ≤ b.size
  byteAt_eq : ∀ i < n, a.byteAt i = b.byteAt i

lemma size_le_symbols {codes : BlockCodes} {src out all : Bytes} {limit pos after : Nat}
    (h : symbols codes src limit pos out = .ok (after, all)) : out.size ≤ all.size := by
  fun_induction symbols codes src limit pos out with
  | case1 => simp at h
  | case2 _ _ _ _ _ _ _ _ ih =>
    have hsize := ih h
    rw [ByteArray.size_push] at hsize
    omega
  | case3 => simp at h
  | case4 =>
    simp only [Except.ok.injEq, Prod.mk.injEq] at h
    exact Nat.le_of_eq (congrArg ByteArray.size h.2)
  | case5 => simp at h
  | case6 => simp at h
  | case7 => simp at h
  | case8 _ _ _ _ _ _ _ _ _ _ _ _ _ ih =>
    have hsize := ih h
    rw [size_copyBack] at hsize
    omega

lemma size_le_storedBytes {src out all : Bytes} {limit pos after : Nat}
    (h : storedBytes src limit pos out = .ok (after, all)) : out.size ≤ all.size := by
  simp only [storedBytes, bind_eq_ok_iff] at h
  obtain ⟨⟨length, p⟩, -, ⟨check, q⟩, -, h⟩ := h
  split at h
  · simp at h
  · split at h
    · simp at h
    · split at h
      · simp at h
      · simp only [Except.ok.injEq, Prod.mk.injEq] at h
        rw [← h.2, ByteArray.size_append]
        omega

lemma size_le_block {src out all : Bytes} {limit kind pos after : Nat}
    (h : block src limit kind pos out = .ok (after, all)) : out.size ≤ all.size := by
  unfold block at h
  split at h
  · exact size_le_storedBytes h
  · exact size_le_symbols h
  · split at h
    · simp at h
    · exact size_le_symbols h
  · simp at h

lemma size_le_blocks {src out all : Bytes} {limit pos after : Nat}
    (h : blocks src limit pos out = .ok (after, all)) : out.size ≤ all.size := by
  fun_induction blocks src limit pos out with
  | case1 => simp at h
  | case2 => simp at h
  | case3 _ _ _ _ _ _ _ hblock =>
    simp only [Except.ok.injEq, Prod.mk.injEq] at h
    rw [← h.2]
    exact size_le_block hblock
  | case4 _ _ _ _ _ _ _ hblock _ ih => exact Nat.le_trans (size_le_block hblock) (ih h)

lemma blocks_eq_ok {src out all : Bytes} {limit pos after : Nat}
    (h : blocks src limit pos out = .ok (after, all)) : pos ≤ after := by
  fun_induction blocks src limit pos out with
  | case1 => simp at h
  | case2 => simp at h
  | case3 _ _ _ _ htake _ _ hblock =>
    have hpos := takeBits_eq_ok_iff.1 htake
    have hplace := block_eq_ok hblock
    simp only [Except.ok.injEq, Prod.mk.injEq] at h
    omega
  | case4 _ _ _ _ htake _ _ hblock _ ih =>
    have hpos := takeBits_eq_ok_iff.1 htake
    have hplace := block_eq_ok hblock
    have hrest := ih h
    omega

namespace StartsAlike

variable {a b : Bytes} {n : Nat}

lemma append {m : Nat} (a more : Bytes) (hm : m ≤ a.size) : StartsAlike a (a ++ more) m := by
  constructor
  · rw [ByteArray.size_append]
    omega
  · intro i hi
    rw [Bytes.byteAt_append_left (by omega)]

lemma extract {m : Nat} (a : Bytes) (hm : m ≤ a.size) : StartsAlike a (a.extract 0 m) m := by
  constructor
  · rw [ByteArray.size_extract]
    omega
  · intro i hi
    rw [Bytes.byteAt_extract (by omega) (by omega), Nat.zero_add]

lemma bitAt_eq (hab : StartsAlike a b n) {pos : Nat} (hpos : pos < 8 * n) :
    bitAt a pos = bitAt b pos := by
  unfold bitAt
  rw [hab.byteAt_eq _ (by omega)]

lemma bitsAt_eq (hab : StartsAlike a b n) {pos k : Nat} (hpos : pos + k ≤ 8 * n) :
    bitsAt a pos k = bitsAt b pos k := by
  induction k generalizing pos with
  | zero => rfl
  | succ k ih => rw [bitsAt, bitsAt, hab.bitAt_eq (by omega), ih (by omega)]

lemma extract_eq (hab : StartsAlike a b n) {start len : Nat} (ha : start + len ≤ a.size)
    (hn : start + len ≤ n) : a.extract start (start + len) = b.extract start (start + len) := by
  have hb : start + len ≤ b.size := Nat.le_trans hn hab.le_size
  apply Bytes.IsRange.unique (Bytes.IsRange.of_extract ha)
  apply (Bytes.IsRange.of_extract hb).congr
  intro i hi
  exact (hab.byteAt_eq _ (by omega)).symm

/-! Each step of decoding takes bits up to some place. From a source that is the same up to there it
takes the same. -/

lemma takeBits_eq_ok (hab : StartsAlike a b n) {pos k value after : Nat}
    (h : takeBits a pos k = .ok (value, after)) (hafter : after ≤ 8 * n) :
    takeBits b pos k = .ok (value, after) := by
  rw [takeBits_eq_ok_iff] at h ⊢
  have hb := hab.le_size
  refine ⟨by omega, ?_, h.2.2⟩
  rw [← hab.bitsAt_eq (by omega)]
  exact h.2.1

lemma search_eq_ok (hab : StartsAlike a b n) {symbols : Array Nat} {counts : List Nat}
    {pos word first index symbol after : Nat}
    (h : CanonicalCode.search symbols a pos word first index counts = .ok (symbol, after))
    (hafter : after ≤ 8 * n) :
    CanonicalCode.search symbols b pos word first index counts = .ok (symbol, after) := by
  induction counts generalizing pos word first index with
  | nil => simp [CanonicalCode.search] at h
  | cons count counts ih =>
    have hb := hab.le_size
    have hmoves := CanonicalCode.search_eq_ok h
    unfold CanonicalCode.search at h ⊢
    rw [if_pos (by omega)] at h ⊢
    rw [← hab.bitAt_eq (by omega)]
    dsimp only at h ⊢
    split at h
    · rename_i hfound
      rw [if_pos hfound]
      exact h
    · rename_i hfound
      rw [if_neg hfound]
      exact ih h

lemma next_eq_ok (hab : StartsAlike a b n) {code : CanonicalCode} {pos symbol after : Nat}
    (h : code.next a pos = .ok (symbol, after)) (hafter : after ≤ 8 * n) :
    code.next b pos = .ok (symbol, after) :=
  hab.search_eq_ok h hafter

lemma extended_eq_ok (hab : StartsAlike a b n) {table : Array (Nat × Nat)}
    {index pos value after : Nat} (h : extended table a index pos = .ok (value, after))
    (hafter : after ≤ 8 * n) : extended table b index pos = .ok (value, after) := by
  unfold extended at h ⊢
  split at h
  · simp at h
  · rename_i entry hentry
    split at h
    · simp at h
    · rename_i more behind hbits
      simp only [Except.ok.injEq, Prod.mk.injEq] at h
      rw [hab.takeBits_eq_ok hbits (by omega)]
      simp [h]

lemma reference_eq_ok (hab : StartsAlike a b n) {codes : BlockCodes}
    {index pos length distance after : Nat}
    (h : reference codes a index pos = .ok (length, distance, after)) (hafter : after ≤ 8 * n) :
    reference codes b index pos = .ok (length, distance, after) := by
  unfold reference at h ⊢
  split at h
  · simp at h
  · rename_i hlength
    split at h
    · simp at h
    · rename_i hnext
      split at h
      · simp at h
      · rename_i hdistance
        simp only [Except.ok.injEq, Prod.mk.injEq] at h
        have hentry := CanonicalCode.next_eq_ok hnext
        have hbehind := Deflate.extended_eq_ok hdistance
        rw [hab.extended_eq_ok hlength (by omega)]
        dsimp only
        rw [hab.next_eq_ok hnext (by omega)]
        dsimp only
        rw [hab.extended_eq_ok hdistance (by omega)]
        simp [h]

lemma symbols_eq_ok (hab : StartsAlike a b n) {codes : BlockCodes} {out all : Bytes}
    {limit limit' pos after : Nat} (h : symbols codes a limit pos out = .ok (after, all))
    (hafter : after ≤ 8 * n) (hroom : all.size ≤ limit') :
    symbols codes b limit' pos out = .ok (after, all) := by
  fun_induction symbols codes a limit pos out with
  | case1 => simp at h
  | case2 pos out symbol next hnext value hvalue hlimit ih =>
    have hrest := Deflate.symbols_eq_ok h
    have hsize := size_le_symbols h
    rw [ByteArray.size_push] at hsize
    rw [symbols, hab.next_eq_ok hnext (by omega)]
    dsimp only
    rw [hvalue]
    dsimp only
    rw [if_pos (by omega)]
    exact ih h
  | case3 => simp at h
  | case4 pos out symbol next hnext hvalue =>
    simp only [Except.ok.injEq, Prod.mk.injEq] at h
    rw [symbols, hab.next_eq_ok hnext (by omega)]
    dsimp only
    rw [hvalue]
    simp [h]
  | case5 => simp at h
  | case6 => simp at h
  | case7 => simp at h
  | case8 pos out symbol next hnext index hvalue length distance behind hreference hback hin ih =>
    have hrest := Deflate.symbols_eq_ok h
    have hsize := size_le_symbols h
    have hplace := Deflate.reference_eq_ok hreference
    rw [size_copyBack] at hsize
    rw [symbols, hab.next_eq_ok hnext (by omega)]
    dsimp only
    rw [hvalue]
    dsimp only
    rw [hab.reference_eq_ok hreference (by omega)]
    dsimp only
    rw [if_neg hback, if_neg (by omega)]
    exact ih h

lemma takeTriples_eq_ok (hab : StartsAlike a b n) {k pos after : Nat} {values : List Nat}
    (h : takeTriples a k pos = .ok (values, after)) (hafter : after ≤ 8 * n) :
    takeTriples b k pos = .ok (values, after) := by
  induction k generalizing pos values after with
  | zero => exact h
  | succ k ih =>
    unfold takeTriples at h ⊢
    split at h
    · simp at h
    · rename_i value next hbits
      split at h
      · simp at h
      · rename_i rest behind hrest
        have hplace := Deflate.takeTriples_eq_ok hrest
        simp only [Except.ok.injEq, Prod.mk.injEq] at h
        rw [hab.takeBits_eq_ok hbits (by omega)]
        dsimp only
        rw [ih hrest (by omega)]
        simp [h]

lemma repeated_eq_ok (hab : StartsAlike a b n) {value base extra pos after : Nat}
    {values : List Nat} (h : repeated a value base extra pos = .ok (values, after))
    (hafter : after ≤ 8 * n) : repeated b value base extra pos = .ok (values, after) := by
  unfold repeated at h ⊢
  split at h
  · simp at h
  · rename_i more behind hbits
    simp only [Except.ok.injEq, Prod.mk.injEq] at h
    rw [hab.takeBits_eq_ok hbits (by omega)]
    simp [h]

lemma lengthRun_eq_ok (hab : StartsAlike a b n) {previous values : List Nat}
    {symbol pos after : Nat} (h : lengthRun a previous symbol pos = .ok (values, after))
    (hafter : after ≤ 8 * n) : lengthRun b previous symbol pos = .ok (values, after) := by
  unfold lengthRun at h ⊢
  split at h
  · rename_i hshort
    rw [if_pos hshort]
    exact h
  · rename_i hshort
    rw [if_neg hshort]
    split at h
    · rename_i hcopy
      rw [if_pos hcopy]
      cases previous with
      | nil => simp at h
      | cons last previous => exact hab.repeated_eq_ok h hafter
    · rename_i hcopy
      rw [if_neg hcopy]
      split at h
      · rename_i hzeros
        rw [if_pos hzeros]
        exact hab.repeated_eq_ok h hafter
      · rename_i hzeros
        rw [if_neg hzeros]
        exact hab.repeated_eq_ok h hafter

lemma codeLengths_eq_ok (hab : StartsAlike a b n) {code : CanonicalCode} {total pos after : Nat}
    {previous lengths : List Nat} (h : codeLengths code a total pos previous = .ok (lengths, after))
    (hafter : after ≤ 8 * n) : codeLengths code b total pos previous = .ok (lengths, after) := by
  fun_induction codeLengths code a total pos previous with
  | case1 pos previous hlength =>
    rw [codeLengths, if_pos hlength]
    exact h
  | case2 => simp at h
  | case3 => simp at h
  | case4 => simp at h
  | case5 pos previous hlength htotal symbol next hnext run behind hrun ih =>
    have hplace := Deflate.lengthRun_eq_ok hrun
    have hrest := Deflate.codeLengths_eq_ok h
    rw [codeLengths, if_neg hlength, if_neg htotal, hab.next_eq_ok hnext (by omega)]
    dsimp only
    rw [hab.lengthRun_eq_ok hrun (by omega)]
    exact ih h

lemma transmittedCodes_eq_ok (hab : StartsAlike a b n) {pos after : Nat} {codes : BlockCodes}
    (h : transmittedCodes a pos = .ok (codes, after)) (hafter : after ≤ 8 * n) :
    transmittedCodes b pos = .ok (codes, after) := by
  simp only [transmittedCodes, bind_eq_ok_iff] at h ⊢
  obtain ⟨⟨literals, p⟩, hliterals, ⟨distances, q⟩, hdistances, ⟨given, r⟩, hgiven, h⟩ := h
  have hp := takeBits_eq_ok_iff.1 hliterals
  have hq := takeBits_eq_ok_iff.1 hdistances
  have hr := takeBits_eq_ok_iff.1 hgiven
  split at h
  · simp at h
  · rename_i hcount
    simp only [bind_eq_ok_iff] at h
    obtain ⟨⟨triples, s⟩, htriples, h⟩ := h
    have hs := Deflate.takeTriples_eq_ok htriples
    split at h
    · rename_i hcomplete
      simp only [bind_eq_ok_iff] at h
      obtain ⟨⟨lengths, t⟩, hlengths, found, hfound, h⟩ := h
      have ht := Deflate.codeLengths_eq_ok hlengths
      have hend := h
      simp only [Except.ok.injEq, Prod.mk.injEq] at hend
      refine ⟨⟨literals, p⟩, hab.takeBits_eq_ok hliterals (by omega), ⟨distances, q⟩,
        hab.takeBits_eq_ok hdistances (by omega), ⟨given, r⟩, hab.takeBits_eq_ok hgiven (by omega),
        ?_⟩
      rw [if_neg hcount]
      simp only [bind_eq_ok_iff]
      refine ⟨⟨triples, s⟩, hab.takeTriples_eq_ok htriples (by omega), ?_⟩
      rw [if_pos hcomplete]
      simp only [bind_eq_ok_iff]
      exact ⟨⟨lengths, t⟩, hab.codeLengths_eq_ok hlengths (by omega), found, hfound, h⟩
    · simp at h

lemma storedBytes_eq_ok (hab : StartsAlike a b n) {out all : Bytes} {limit limit' pos after : Nat}
    (h : storedBytes a limit pos out = .ok (after, all)) (hafter : after ≤ 8 * n)
    (hroom : all.size ≤ limit') : storedBytes b limit' pos out = .ok (after, all) := by
  simp only [storedBytes, bind_eq_ok_iff] at h ⊢
  obtain ⟨⟨length, p⟩, hlength, ⟨check, q⟩, hcheck, h⟩ := h
  have hp := takeBits_eq_ok_iff.1 hlength
  have hq := takeBits_eq_ok_iff.1 hcheck
  have hb := hab.le_size
  split at h
  · simp at h
  · rename_i hsum
    split at h
    · simp at h
    · rename_i hinput
      split at h
      · simp at h
      · have hend := h
        simp only [Except.ok.injEq, Prod.mk.injEq] at hend
        have hbytes : a.extract (q / 8) (q / 8 + length) = b.extract (q / 8) (q / 8 + length) :=
          hab.extract_eq (by omega) (by omega)
        rw [hbytes] at h hend
        have hsize := congrArg ByteArray.size hend.2
        rw [ByteArray.size_append, ByteArray.size_extract] at hsize
        refine ⟨⟨length, p⟩, hab.takeBits_eq_ok hlength (by omega), ⟨check, q⟩,
          hab.takeBits_eq_ok hcheck (by omega), ?_⟩
        rw [if_neg hsum, if_neg (by omega), if_neg (by omega)]
        exact h

lemma block_eq_ok (hab : StartsAlike a b n) {out all : Bytes} {limit limit' kind pos after : Nat}
    (h : block a limit kind pos out = .ok (after, all)) (hafter : after ≤ 8 * n)
    (hroom : all.size ≤ limit') : block b limit' kind pos out = .ok (after, all) := by
  unfold block at h ⊢
  split at h
  · exact hab.storedBytes_eq_ok h hafter hroom
  · exact hab.symbols_eq_ok h hafter hroom
  · split at h
    · simp at h
    · rename_i codes next hcodes
      have hplace := Deflate.symbols_eq_ok h
      rw [hab.transmittedCodes_eq_ok hcodes (by omega)]
      exact hab.symbols_eq_ok h hafter hroom
  · simp at h

lemma blocks_eq_ok (hab : StartsAlike a b n) {out all : Bytes} {limit limit' pos after : Nat}
    (h : blocks a limit pos out = .ok (after, all)) (hafter : after ≤ 8 * n)
    (hroom : all.size ≤ limit') : blocks b limit' pos out = .ok (after, all) := by
  fun_induction blocks a limit pos out with
  | case1 => simp at h
  | case2 => simp at h
  | case3 pos out header next hheader behind more hblock hlast =>
    have hplace := Deflate.block_eq_ok hblock
    have hend := h
    simp only [Except.ok.injEq, Prod.mk.injEq] at hend
    rw [blocks, hab.takeBits_eq_ok hheader (by omega)]
    dsimp only
    rw [hab.block_eq_ok hblock (by omega) (hend.2 ▸ hroom)]
    dsimp only
    rw [if_pos hlast]
    exact h
  | case4 pos out header next hheader behind more hblock hlast ih =>
    have hplace := Deflate.block_eq_ok hblock
    have hrest := Deflate.blocks_eq_ok h
    rw [blocks, hab.takeBits_eq_ok hheader (by omega)]
    dsimp only
    rw [hab.block_eq_ok hblock (by omega) (Nat.le_trans (size_le_blocks h) hroom)]
    dsimp only
    rw [if_neg hlast]
    exact ih h

end StartsAlike

end Deflate

namespace Zlib

open Deflate (StartsAlike)

/-- `src` starts with a stream whose output is `out`. -/
def Inflates (src out : Bytes) : Prop := inflate src out.size = .ok out

/-- The number of bytes of the stream that `src` starts with, from its header to its checksum; all
of `src` if it does not start with a stream. -/
def streamSize (src : Bytes) (limit : Nat) : Nat :=
  match Deflate.blocks src limit 16 (Bytes.zeros 0) with
  | .ok (pos, _) => Deflate.alignToByte pos / 8 + 4
  | .error _ => src.size

variable {src out : Bytes} {limit limit' : Nat}

lemma exists_blocks_of_inflate (h : inflate src limit = .ok out) :
    isHeader (src.byteAt 0).toNat (src.byteAt 1).toNat = true ∧
      ∃ pos, Deflate.blocks src limit 16 (Bytes.zeros 0) = .ok (pos, out) ∧
        Deflate.alignToByte pos / 8 + 4 ≤ src.size ∧
        bigEndianAt src (Deflate.alignToByte pos / 8) = checksum out := by
  unfold inflate at h
  split at h
  · simp at h
  · split at h
    · rename_i hheader
      split at h
      · simp at h
      · rename_i pos all hblocks
        dsimp only at h
        split at h
        · simp at h
        · split at h
          · rename_i hroom hchecksum
            obtain rfl : all = out := Except.ok.inj h
            exact ⟨hheader, pos, hblocks, Nat.le_of_not_lt hroom, hchecksum⟩
          · simp at h
    · simp at h

lemma streamSize_le (src : Bytes) (limit : Nat) (h : inflate src limit = .ok out) :
    streamSize src limit ≤ src.size := by
  obtain ⟨-, pos, hblocks, hroom, -⟩ := exists_blocks_of_inflate h
  rw [streamSize, hblocks]
  exact hroom

/-- A source that is the same up to the end of the stream has the same output. -/
lemma inflate_of_startsAlike {other : Bytes} (h : inflate src limit = .ok out)
    (hother : StartsAlike src other (streamSize src limit)) (hroom : out.size ≤ limit') :
    inflate other limit' = .ok out := by
  obtain ⟨hheader, pos, hblocks, -, hchecksum⟩ := exists_blocks_of_inflate h
  have hpos := Deflate.blocks_eq_ok hblocks
  have halign : pos ≤ 8 * (Deflate.alignToByte pos / 8) := by
    unfold Deflate.alignToByte
    omega
  rw [streamSize, hblocks] at hother
  dsimp only at hother
  have hsize := hother.le_size
  have htrailer : bigEndianAt other (Deflate.alignToByte pos / 8) = checksum out := by
    rw [← hchecksum]
    unfold bigEndianAt
    rw [hother.byteAt_eq _ (by omega), hother.byteAt_eq _ (by omega),
      hother.byteAt_eq _ (by omega), hother.byteAt_eq _ (by omega)]
  rw [hother.byteAt_eq 0 (by omega), hother.byteAt_eq 1 (by omega)] at hheader
  rw [inflate, if_neg (by omega), if_pos hheader, hother.blocks_eq_ok hblocks (by omega) hroom]
  dsimp only
  rw [if_neg (by omega), if_pos htrailer]

lemma inflate_of_room (h : inflate src limit = .ok out) (hroom : out.size ≤ limit') :
    inflate src limit' = .ok out :=
  inflate_of_startsAlike h ⟨streamSize_le src limit h, fun _ _ => rfl⟩ hroom

lemma inflate_append (h : inflate src limit = .ok out) (hroom : out.size ≤ limit')
    (more : Bytes) : inflate (src ++ more) limit' = .ok out :=
  inflate_of_startsAlike h (.append src more (streamSize_le src limit h)) hroom

/-- Just the bytes of the stream are enough. -/
lemma inflate_extract (h : inflate src limit = .ok out) :
    Inflates (src.extract 0 (streamSize src limit)) out :=
  inflate_of_startsAlike h (.extract src (streamSize_le src limit h)) (Nat.le_refl _)

/-- A source inflates to `out` in some room just when it starts with a stream for `out` and the
room holds all of it. -/
theorem inflate_eq_ok_iff : inflate src limit = .ok out ↔ Inflates src out ∧ out.size ≤ limit := by
  constructor
  · intro h
    exact ⟨inflate_of_room h (Nat.le_refl _), size_inflate_le h⟩
  · intro h
    exact inflate_of_room h.1 h.2

lemma Inflates.append (h : Inflates src out) (more : Bytes) : Inflates (src ++ more) out :=
  inflate_append h (Nat.le_refl _) more

lemma Inflates.of_extract {n : Nat} (h : Inflates (src.extract 0 n) out) : Inflates src out := by
  have hwhole : src.extract 0 n ++ src.extract n src.size = src := by
    rw [ByteArray.extract_append_extract, Nat.zero_min, ByteArray.extract_zero_max_size]
  have hsrc := h.append (src.extract n src.size)
  rwa [hwhole] at hsrc

lemma Inflates.unique {out' : Bytes} (h : Inflates src out) (h' : Inflates src out') :
    out = out' := by
  have hall := inflate_eq_ok_iff.2 ⟨h, Nat.le_max_left out.size out'.size⟩
  have hall' := inflate_eq_ok_iff.2 ⟨h', Nat.le_max_right out.size out'.size⟩
  rw [hall] at hall'
  exact Except.ok.inj hall'

lemma restores_iff : restores src out = true ↔ Inflates src out := by
  unfold restores Inflates
  split
  · rename_i all hall
    simp [hall]
  · rename_i stop hstop
    simp [hstop]

lemma decompress_eq_ok_iff {capacity : Nat} :
    decompress src capacity = .ok out ↔ Inflates src out ∧ out.size ≤ capacity := by
  rw [← inflate_eq_ok_iff, decompress]
  split
  · rename_i all hall
    rw [hall]
    simp
  · rename_i stop hstop
    rw [hstop]
    simp

end Zlib

end CompressedRom
