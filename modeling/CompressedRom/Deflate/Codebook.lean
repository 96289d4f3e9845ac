import CompressedRom.Deflate.BitWriter
import CompressedRom.Deflate.CanonicalCode

/-!
# Codes for writing

The lengths of codewords are chosen so that all symbols together take as few bits as any code of
bounded length allows, and the codewords are those of the canonical code with these lengths.
Lengths are found by packets: those of each round are the single symbols and the packets of the
round before in pairs, and the codeword of a symbol is as long as the number of light packets of
the last round that it is in.
-/

namespace CompressedRom.Deflate

/-- How often each number below `n` occurs in a list. -/
def tally (n : Nat) (numbers : List Nat) : Array Nat :=
  numbers.foldl (fun counts k => counts.modify k (· + 1)) (Array.replicate n 0)

/-- Symbols that are lengthened together, and how often they occur in all. -/
structure Packet where
  weight : Nat
  symbols : List Nat

namespace Packet

/-- The packets in pairs; one that is left over is dropped. -/
def pairs : List Packet → List Packet
  | a :: b :: rest => ⟨a.weight + b.weight, a.symbols ++ b.symbols⟩ :: pairs rest
  | _ => []

/-- The packets of round `n`, the lightest first. -/
def round (single : List Packet) : Nat → List Packet
  | 0 => []
  | n + 1 => List.merge single (pairs (round single n)) fun a b => a.weight ≤ b.weight

/-- A packet for each symbol that occurs, the lightest first. -/
def singles (weights : Array Nat) : List Packet :=
  ((weights.toList.zipIdx.filter fun p => p.1 ≠ 0).map fun p => ⟨p.1, [p.2]⟩).mergeSort
    fun a b => a.weight ≤ b.weight

end Packet

/-- Codeword lengths of at most `most` bits, one for each symbol, for symbols that occur as often
as `weights` says; zero for one that does not occur, and one bit for one that occurs alone. -/
def leastLengths (most : Nat) (weights : Array Nat) : List Nat :=
  let single := Packet.singles weights
  let light := (Packet.round single most).take (max 1 (2 * (single.length - 1)))
  (tally weights.size (light.flatMap Packet.symbols)).toList

/-- For each symbol the bits of its codeword, as a number that is written lowest bit first, and
how many they are. -/
structure Codebook where
  words : Array (Nat × Nat)

namespace Codebook

/-- The `n` bits of `word` in the opposite order. -/
def reversed (word : Nat) : Nat → Nat
  | 0 => 0
  | n + 1 => word % 2 * 2 ^ n + reversed (word / 2) n

/-- Enters codewords for the symbols, which come in the order of their lengths; `word` follows the
last codeword, which has `bits` bits. -/
def enter (lengths : Array Nat) (word bits : Nat) :
    List Nat → Array (Nat × Nat) → Array (Nat × Nat)
  | [], words => words
  | symbol :: symbols, words =>
    let n := lengths.getD symbol 0
    let own := word * 2 ^ (n - bits)
    enter lengths (own + 1) n symbols (words.setIfInBounds symbol (reversed own n, n))

/-- The canonical code in which symbol `i` has a codeword of `lengths[i]` bits. -/
def ofLengths (lengths : List Nat) : Codebook where
  words := enter lengths.toArray 0 0 (CanonicalCode.ofLengths lengths).symbols.toList
    (Array.replicate lengths.length (0, 0))

end Codebook

/-- A symbol, and the number in the further bits behind it. -/
structure Piece where
  symbol : Nat
  extra : Nat
  extraBits : Nat

/-- Writes a symbol in a code, and its further bits. -/
def BitWriter.pushPiece (w : BitWriter) (book : Codebook) (piece : Piece) : BitWriter :=
  let (word, bits) := book.words.getD piece.symbol (0, 0)
  (w.push word bits).push piece.extra piece.extraBits

end CompressedRom.Deflate
