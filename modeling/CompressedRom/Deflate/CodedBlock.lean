import CompressedRom.Deflate.Codebook
import CompressedRom.Deflate.Inflate
import CompressedRom.Deflate.Token

/-!
# Blocks of tokens

Tokens are written in blocks of a bounded number of them. A block is in the fixed code or in a
code of its own, whichever takes fewer bits; a code of its own stands in front of the tokens as
its codeword lengths, in which runs of the same length are written short.
-/

namespace CompressedRom.Deflate

/-- The piece for `value` out of the first `n` entries of `table`: the last one that starts at or
below it. -/
def entryPiece (table : Array (Nat × Nat)) (value : Nat) : Nat → Piece
  | 0 => ⟨0, 0, 0⟩
  | n + 1 =>
    let (least, bits) := table.getD n (0, 0)
    if least ≤ value then ⟨n, value - least, bits⟩ else entryPiece table value n

/-- The piece of a token that is written in the code for bytes, lengths and the end. -/
def Token.literalPiece : Token → Piece
  | .literal value => ⟨value.toNat, 0, 0⟩
  | .reference length _ =>
    let piece := entryPiece lengthTable length lengthTable.size
    { piece with symbol := 257 + piece.symbol }

/-- The piece of a reference that is written in the code for distances. -/
def Token.distancePiece? : Token → Option Piece
  | .literal _ => none
  | .reference _ distance => some (entryPiece distanceTable distance distanceTable.size)

/-- The piece that ends a block. -/
def endPiece : Piece := ⟨256, 0, 0⟩

/-- The codeword lengths of the two codes of a block. -/
structure BlockLengths where
  literals : List Nat
  distances : List Nat

namespace BlockLengths

/-- The lengths of the fixed codes. -/
def fixed : BlockLengths := ⟨fixedLiteralLengths, fixedDistanceLengths⟩

/-- A list without the zeros at its end. -/
def trimmed (lengths : List Nat) : List Nat :=
  (lengths.reverse.dropWhile (· == 0)).reverse

/-- The lengths that make the tokens short. There is at least one distance. -/
def ofTokens (tokens : Array Token) : BlockLengths :=
  let literals := tokens.toList.map fun t => t.literalPiece.symbol
  let distances := tokens.toList.filterMap fun t => t.distancePiece?.map Piece.symbol
  let nearness := trimmed (leastLengths 15 (tally distanceTable.size distances))
  { literals := trimmed
      (leastLengths 15 (tally (257 + lengthTable.size) (endPiece.symbol :: literals)))
    distances := if nearness.isEmpty then [0] else nearness }

/-- `n` zero lengths. -/
def zeroRun (n : Nat) : List Piece :=
  if n < 3 then List.replicate n ⟨0, 0, 0⟩
  else if n < 11 then [⟨17, n - 3, 3⟩]
  else ⟨18, min n 138 - 11, 7⟩ :: zeroRun (n - 138)
termination_by n

/-- `n` more lengths that are `length`, as the one before them is. -/
def sameRun (length n : Nat) : List Piece :=
  if n < 3 then List.replicate n ⟨length, 0, 0⟩
  else ⟨16, min n 6 - 3, 2⟩ :: sameRun length (n - 6)
termination_by n

/-- A run of one length. -/
def runPieces : List Nat → List Piece
  | [] => []
  | length :: more =>
    if length = 0 then zeroRun (more.length + 1)
    else ⟨length, 0, 0⟩ :: sameRun length more.length

/-- All lengths of both codes. -/
def pieces (lengths : BlockLengths) : List Piece :=
  ((lengths.literals ++ lengths.distances).splitBy (· == ·)).flatMap runPieces

/-- Writes the lengths of a block's own codes. -/
def write (lengths : BlockLengths) (w : BitWriter) : BitWriter :=
  let pieces := lengths.pieces
  let own := leastLengths 7 (tally lengthOrder.length (pieces.map Piece.symbol))
  let ordered := lengthOrder.map fun symbol => own.getD symbol 0
  let given := max 4 (trimmed ordered).length
  let w := ((w.push (lengths.literals.length - 257) 5).push
    (lengths.distances.length - 1) 5).push (given - 4) 4
  let w := (ordered.take given).foldl (fun w n => w.push n 3) w
  let book := Codebook.ofLengths own
  pieces.foldl (fun w piece => w.pushPiece book piece) w

end BlockLengths

namespace BitWriter

/-- Writes tokens and the end of their block. -/
def pushTokens (w : BitWriter) (lengths : BlockLengths) (tokens : Array Token) : BitWriter :=
  let literals := Codebook.ofLengths lengths.literals
  let distances := Codebook.ofLengths lengths.distances
  let w := tokens.foldl (fun w token =>
    let w := w.pushPiece literals token.literalPiece
    match token.distancePiece? with
    | none => w
    | some piece => w.pushPiece distances piece) w
  w.pushPiece literals endPiece

/-- Writes a block, the last one or not, in the fixed code or in its own. -/
def pushBlock (w : BitWriter) (last : Bool) (tokens : Array Token) : BitWriter :=
  let w := w.push last.toNat 1
  let own := BlockLengths.ofTokens tokens
  let inFixed := (w.push 1 2).pushTokens .fixed tokens
  let inOwn := (own.write (w.push 2 2)).pushTokens own tokens
  if inOwn.length < inFixed.length then inOwn else inFixed

/-- The number of tokens in a block. -/
def tokensPerBlock : Nat := 2 ^ 14

/-- Writes the tokens from `start` on in blocks. -/
def pushBlocks (tokens : Array Token) (start : Nat) (w : BitWriter) : BitWriter :=
  if tokens.size - start ≤ tokensPerBlock then
    w.pushBlock true (tokens.extract start tokens.size)
  else
    pushBlocks tokens (start + tokensPerBlock)
      (w.pushBlock false (tokens.extract start (start + tokensPerBlock)))
termination_by tokens.size - start
decreasing_by
  unfold tokensPerBlock at *
  omega

end BitWriter

/-- A byte string as blocks in which strings that occur again are taken out. -/
def codedBlocks (effort : Effort) (data : Bytes) : Bytes :=
  (BitWriter.pushBlocks (Token.ofBytes effort data) 0 .empty).toBytes

end CompressedRom.Deflate
