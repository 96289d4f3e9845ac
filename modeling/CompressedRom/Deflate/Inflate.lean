import CompressedRom.Deflate.CanonicalCode

/-!
# Decoding of compressed blocks

A compressed stream is a run of blocks, the last of which is marked. A block holds bytes as they
are, or symbols in a fixed or in a transmitted code; a symbol is a byte, the end of the block, or
the length of a string that occurred some distance back in the output. Decoding stops at the
first thing in stream order that is malformed, missing from the input, or too much for the
output.
-/

namespace CompressedRom.Deflate

/-- The shortest length and the number of further bits for the length symbols, from 257 on. -/
def lengthTable : Array (Nat × Nat) :=
  #[(3, 0), (4, 0), (5, 0), (6, 0), (7, 0), (8, 0), (9, 0), (10, 0), (11, 1), (13, 1), (15, 1),
    (17, 1), (19, 2), (23, 2), (27, 2), (31, 2), (35, 3), (43, 3), (51, 3), (59, 3), (67, 4),
    (83, 4), (99, 4), (115, 4), (131, 5), (163, 5), (195, 5), (227, 5), (258, 0)]

/-- The shortest distance and the number of further bits for the distance symbols. -/
def distanceTable : Array (Nat × Nat) :=
  #[(1, 0), (2, 0), (3, 0), (4, 0), (5, 1), (7, 1), (9, 2), (13, 2), (17, 3), (25, 3), (33, 4),
    (49, 4), (65, 5), (97, 5), (129, 6), (193, 6), (257, 7), (385, 7), (513, 8), (769, 8),
    (1025, 9), (1537, 9), (2049, 10), (3073, 10), (4097, 11), (6145, 11), (8193, 12),
    (12289, 12), (16385, 13), (24577, 13)]

/-- What a symbol of the first code stands for: a byte, the end of the block, or an entry of the
table of lengths. -/
inductive Symbol where
  | byte (value : UInt8)
  | endOfBlock
  | length (index : Nat)
  deriving DecidableEq, Repr

/-- The meaning of symbol number `n`. -/
def Symbol.ofNat (n : Nat) : Symbol :=
  if n < 256 then .byte (UInt8.ofNat n) else if n = 256 then .endOfBlock else .length (n - 257)

/-- The two codes of a block: for bytes, lengths and the end, and for distances. -/
structure BlockCodes where
  literals : CanonicalCode
  distances : CanonicalCode

/-- The value of entry `index` of `table` with the further bits at `pos`. -/
def extended (table : Array (Nat × Nat)) (src : Bytes) (index pos : Nat) :
    Except Stop (Nat × Nat) :=
  match table[index]? with
  | none => .error .malformed
  | some (base, extra) =>
    match takeBits src pos extra with
    | .error stop => .error stop
    | .ok (more, after) => .ok (base + more, after)

/-- The length of entry `index`, with its further bits at `pos`, then the distance: length,
distance, and the place behind them. -/
def reference (codes : BlockCodes) (src : Bytes) (index pos : Nat) :
    Except Stop (Nat × Nat × Nat) :=
  match extended lengthTable src index pos with
  | .error stop => .error stop
  | .ok (length, p) =>
    match codes.distances.next src p with
    | .error stop => .error stop
    | .ok (entry, q) =>
      match extended distanceTable src entry q with
      | .error stop => .error stop
      | .ok (distance, after) => .ok (length, distance, after)

/-- `out` with `n` more bytes, each the one `distance` bytes before it. -/
def copyBack (distance : Nat) : Nat → Bytes → Bytes
  | 0, out => out
  | n + 1, out => copyBack distance n (out.push (out.byteAt (out.size - distance)))

theorem extended_eq_ok {table : Array (Nat × Nat)} {src : Bytes} {index pos value after : Nat}
    (h : extended table src index pos = .ok (value, after)) : pos ≤ after := by
  unfold extended at h
  split at h
  · simp at h
  · split at h
    · simp at h
    · rename_i ht
      rw [takeBits_eq_ok_iff] at ht
      simp only [Except.ok.injEq, Prod.mk.injEq] at h
      omega

theorem reference_eq_ok {codes : BlockCodes} {src : Bytes}
    {index pos length distance after : Nat}
    (h : reference codes src index pos = .ok (length, distance, after)) : pos ≤ after := by
  unfold reference at h
  split at h
  · simp at h
  · rename_i hl
    split at h
    · simp at h
    · rename_i hn
      split at h
      · simp at h
      · rename_i hd
        have h1 := extended_eq_ok hl
        have h2 := CanonicalCode.next_eq_ok hn
        have h3 := extended_eq_ok hd
        simp only [Except.ok.injEq, Prod.mk.injEq] at h
        omega

/-- The symbols from `pos` on, up to the end of their block, as additions to `out`, which may
grow to `limit` bytes: the place behind them, and the output. -/
def symbols (codes : BlockCodes) (src : Bytes) (limit pos : Nat) (out : Bytes) :
    Except Stop (Nat × Bytes) :=
  match _h : codes.literals.next src pos with
  | .error stop => .error stop
  | .ok (symbol, after) =>
    match Symbol.ofNat symbol with
    | .byte value =>
      if out.size < limit then symbols codes src limit after (out.push value)
      else .error .outputFull
    | .endOfBlock => .ok (after, out)
    | .length index =>
      match _hr : reference codes src index after with
      | .error stop => .error stop
      | .ok (length, distance, behind) =>
        if out.size < distance then .error .malformed
        else if limit < out.size + length then .error .outputFull
        else symbols codes src limit behind (copyBack distance length out)
termination_by 8 * src.size - pos
decreasing_by
  · have := CanonicalCode.next_eq_ok _h
    omega
  · have := CanonicalCode.next_eq_ok _h
    have := reference_eq_ok _hr
    omega

/-- The codeword lengths of the fixed code for bytes, lengths and the end: 8, 9, 7 and 8 for four
ranges of symbols. -/
def fixedLiteralLengths : List Nat :=
  List.replicate 144 8 ++ List.replicate 112 9 ++ List.replicate 24 7 ++ List.replicate 8 8

/-- The codeword lengths of the fixed code for distances, which are all the same. -/
def fixedDistanceLengths : List Nat := List.replicate 32 5

/-- The two fixed codes. -/
def fixedCodes : BlockCodes where
  literals := .ofLengths fixedLiteralLengths
  distances := .ofLengths fixedDistanceLengths

/-- The symbols of the code for code lengths, in the order in which their lengths come. -/
def lengthOrder : List Nat :=
  [16, 17, 18, 0, 8, 7, 9, 6, 10, 5, 11, 4, 12, 3, 13, 2, 14, 1, 15]

/-- `n` numbers of three bits, and the place behind them. -/
def takeTriples (src : Bytes) : Nat → Nat → Except Stop (List Nat × Nat)
  | 0, pos => .ok ([], pos)
  | n + 1, pos =>
    match takeBits src pos 3 with
    | .error stop => .error stop
    | .ok (value, p) =>
      match takeTriples src n p with
      | .error stop => .error stop
      | .ok (values, after) => .ok (value :: values, after)

/-- A run of `value`s: `base` of them, and as many more as the `extra` bits at `pos` say. -/
def repeated (src : Bytes) (value base extra pos : Nat) : Except Stop (List Nat × Nat) :=
  match takeBits src pos extra with
  | .error stop => .error stop
  | .ok (more, after) => .ok (List.replicate (base + more) value, after)

/-- The run of lengths that `symbol` stands for, with its further bits at `pos`; `previous` holds
the lengths so far, the last one first. -/
def lengthRun (src : Bytes) (previous : List Nat) (symbol pos : Nat) :
    Except Stop (List Nat × Nat) :=
  if symbol < 16 then .ok ([symbol], pos)
  else if symbol = 16 then
    match previous with
    | [] => .error .malformed
    | last :: _ => repeated src last 3 2 pos
  else if symbol = 17 then repeated src 0 3 3 pos
  else repeated src 0 11 7 pos

theorem repeated_eq_ok {src : Bytes} {value base extra pos after : Nat} {values : List Nat}
    (h : repeated src value base extra pos = .ok (values, after)) : pos ≤ after := by
  unfold repeated at h
  split at h
  · simp at h
  · rename_i ht
    rw [takeBits_eq_ok_iff] at ht
    simp only [Except.ok.injEq, Prod.mk.injEq] at h
    omega

theorem lengthRun_eq_ok {src : Bytes} {previous values : List Nat} {symbol pos after : Nat}
    (h : lengthRun src previous symbol pos = .ok (values, after)) : pos ≤ after := by
  unfold lengthRun at h
  split at h
  · simp only [Except.ok.injEq, Prod.mk.injEq] at h
    omega
  · split at h
    · split at h
      · simp at h
      · exact repeated_eq_ok h
    · split at h
      · exact repeated_eq_ok h
      · exact repeated_eq_ok h

/-- `total` code lengths from `pos` on, written in `code`, and the place behind them. The runs
must end exactly at `total`. -/
def codeLengths (code : CanonicalCode) (src : Bytes) (total pos : Nat) (previous : List Nat) :
    Except Stop (List Nat × Nat) :=
  if previous.length = total then .ok (previous.reverse, pos)
  else if total < previous.length then .error .malformed
  else
    match _h : code.next src pos with
    | .error stop => .error stop
    | .ok (symbol, p) =>
      match _hr : lengthRun src previous symbol p with
      | .error stop => .error stop
      | .ok (run, after) => codeLengths code src total after (run ++ previous)
termination_by 8 * src.size - pos
decreasing_by
  have := CanonicalCode.next_eq_ok _h
  have := lengthRun_eq_ok _hr
  omega

/-- The code for code lengths: `triples` are the lengths of its codewords, in their own order. -/
def lengthCode (triples : List Nat) : CanonicalCode :=
  let ordered := lengthOrder.zip triples
  .ofLengths ((List.range lengthOrder.length).map fun symbol => (ordered.lookup symbol).getD 0)

/-- The codes whose lengths are given, the first `count` of them for bytes, lengths and the end. -/
def codesOfLengths (count : Nat) (lengths : List Nat) : Except Stop BlockCodes :=
  let literals := lengths.take count
  let distances := lengths.drop count
  if CanonicalCode.isUsable literals && CanonicalCode.isUsable distances then
    .ok ⟨.ofLengths literals, .ofLengths distances⟩
  else .error .malformed

/-- The codes transmitted at `pos`, and the place behind them. -/
def transmittedCodes (src : Bytes) (pos : Nat) : Except Stop (BlockCodes × Nat) := do
  let (literals, p) ← takeBits src pos 5
  let (distances, q) ← takeBits src p 5
  let (given, r) ← takeBits src q 4
  if 29 < literals ∨ 29 < distances then .error .malformed
  else do
    let (triples, s) ← takeTriples src (given + 4) r
    let code := lengthCode triples
    if code.isComplete then do
      let (lengths, after) ← codeLengths code src (literals + 257 + (distances + 1)) s []
      let codes ← codesOfLengths (literals + 257) lengths
      .ok (codes, after)
    else .error .malformed

/-- The bytes of a stored block whose length stands at the byte boundary at or after `pos`. -/
def storedBytes (src : Bytes) (limit pos : Nat) (out : Bytes) : Except Stop (Nat × Bytes) := do
  let (length, p) ← takeBits src (alignToByte pos) 16
  let (check, q) ← takeBits src p 16
  if length + check ≠ 2 ^ 16 - 1 then .error .malformed
  else if 8 * src.size < q + 8 * length then .error .inputEnded
  else if limit < out.size + length then .error .outputFull
  else .ok (q + 8 * length, out ++ src.extract (q / 8) (q / 8 + length))

/-- The block of kind `kind` whose content starts at `pos`. -/
def block (src : Bytes) (limit kind pos : Nat) (out : Bytes) : Except Stop (Nat × Bytes) :=
  match kind with
  | 0 => storedBytes src limit pos out
  | 1 => symbols fixedCodes src limit pos out
  | 2 =>
    match transmittedCodes src pos with
    | .error stop => .error stop
    | .ok (codes, p) => symbols codes src limit p out
  | _ => .error .malformed

theorem symbols_eq_ok {codes : BlockCodes} {src : Bytes} {limit pos after : Nat} {out all : Bytes}
    (h : symbols codes src limit pos out = .ok (after, all)) : pos ≤ after := by
  fun_induction symbols codes src limit pos out with
  | case1 => simp at h
  | case2 _ _ _ _ hn _ _ _ ih =>
    have := CanonicalCode.next_eq_ok hn
    have := ih h
    omega
  | case3 => simp at h
  | case4 _ _ _ _ hn =>
    have := CanonicalCode.next_eq_ok hn
    simp only [Except.ok.injEq, Prod.mk.injEq] at h
    omega
  | case5 => simp at h
  | case6 => simp at h
  | case7 => simp at h
  | case8 _ _ _ _ hn _ _ _ _ _ hr _ _ ih =>
    have := CanonicalCode.next_eq_ok hn
    have := reference_eq_ok hr
    have := ih h
    omega

theorem takeTriples_eq_ok {src : Bytes} {n pos after : Nat} {values : List Nat}
    (h : takeTriples src n pos = .ok (values, after)) : pos ≤ after := by
  induction n generalizing pos values after with
  | zero =>
    simp only [takeTriples, Except.ok.injEq, Prod.mk.injEq] at h
    omega
  | succ n ih =>
    unfold takeTriples at h
    split at h
    · simp at h
    · rename_i ht
      rw [takeBits_eq_ok_iff] at ht
      split at h
      · simp at h
      · rename_i hs
        have := ih hs
        simp only [Except.ok.injEq, Prod.mk.injEq] at h
        omega

theorem codeLengths_eq_ok {code : CanonicalCode} {src : Bytes} {total pos after : Nat}
    {previous lengths : List Nat}
    (h : codeLengths code src total pos previous = .ok (lengths, after)) : pos ≤ after := by
  fun_induction codeLengths code src total pos previous with
  | case1 =>
    simp only [Except.ok.injEq, Prod.mk.injEq] at h
    omega
  | case2 => simp at h
  | case3 => simp at h
  | case4 => simp at h
  | case5 _ _ _ _ _ _ hn _ _ hr ih =>
    have := CanonicalCode.next_eq_ok hn
    have := lengthRun_eq_ok hr
    have := ih h
    omega

theorem transmittedCodes_eq_ok {src : Bytes} {pos after : Nat} {codes : BlockCodes}
    (h : transmittedCodes src pos = .ok (codes, after)) : pos ≤ after := by
  simp only [transmittedCodes, bind_eq_ok_iff] at h
  obtain ⟨⟨literals, p⟩, h1, ⟨distances, q⟩, h2, ⟨given, r⟩, h3, h⟩ := h
  rw [takeBits_eq_ok_iff] at h1 h2 h3
  split at h
  · simp at h
  · simp only [bind_eq_ok_iff] at h
    obtain ⟨⟨triples, s⟩, h4, h⟩ := h
    have := takeTriples_eq_ok h4
    split at h
    · simp only [bind_eq_ok_iff] at h
      obtain ⟨⟨lengths, t⟩, h5, u, h6, h⟩ := h
      have := codeLengths_eq_ok h5
      simp only [Except.ok.injEq, Prod.mk.injEq] at h
      omega
    · simp at h

theorem storedBytes_eq_ok {src : Bytes} {limit pos after : Nat} {out all : Bytes}
    (h : storedBytes src limit pos out = .ok (after, all)) : pos ≤ after := by
  simp only [storedBytes, bind_eq_ok_iff] at h
  obtain ⟨⟨length, p⟩, h1, ⟨check, q⟩, h2, h⟩ := h
  rw [takeBits_eq_ok_iff] at h1 h2
  unfold alignToByte at h1
  split at h
  · simp at h
  · split at h
    · simp at h
    · split at h
      · simp at h
      · simp only [Except.ok.injEq, Prod.mk.injEq] at h
        omega

theorem block_eq_ok {src : Bytes} {limit kind pos after : Nat} {out all : Bytes}
    (h : block src limit kind pos out = .ok (after, all)) : pos ≤ after := by
  unfold block at h
  split at h
  · exact storedBytes_eq_ok h
  · exact symbols_eq_ok h
  · split at h
    · simp at h
    · rename_i ht
      have := transmittedCodes_eq_ok ht
      have := symbols_eq_ok h
      omega
  · simp at h

/-- The blocks from `pos` to the last one, as additions to `out`, which may grow to `limit`
bytes: the place behind them, and the output. -/
def blocks (src : Bytes) (limit pos : Nat) (out : Bytes) : Except Stop (Nat × Bytes) :=
  match _h : takeBits src pos 3 with
  | .error stop => .error stop
  | .ok (header, p) =>
    match _hb : block src limit (header / 2) p out with
    | .error stop => .error stop
    | .ok (after, all) =>
      if header % 2 = 1 then .ok (after, all) else blocks src limit after all
termination_by 8 * src.size - pos
decreasing_by
  have := takeBits_eq_ok_iff.1 _h
  have := block_eq_ok _hb
  omega

end CompressedRom.Deflate
