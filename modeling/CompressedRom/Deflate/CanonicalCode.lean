import CompressedRom.Deflate.Bits

/-!
# Canonical codes

A canonical code is given by the length of each symbol's codeword, zero for a symbol that is
not used: the codewords of one length are consecutive numbers in the order of their symbols, and
shorter ones come first. To decode, the number of codewords of each length and the symbols in the
order of their codewords are enough. Bits that no codeword starts with are found out after as many
of them as the longest codeword has, and never before the first one. Main statement: `next_eq_ok`,
decoding moves ahead.
-/

namespace CompressedRom.Deflate

/-- A code, ready for decoding: how many codewords have 1, 2, … bits, up to the longest of them,
and the symbols in the order of their codewords. -/
structure CanonicalCode where
  counts : List Nat
  symbols : Array Nat

namespace CanonicalCode

/-- The number of bits that tell a codeword: as many as the longest one has, and one where there
is none. -/
def depth (lengths : List Nat) : Nat := lengths.foldr max 1

/-- The code in which symbol `i` has a codeword of `lengths[i]` bits. -/
def ofLengths (lengths : List Nat) : CanonicalCode where
  counts := (List.range' 1 (depth lengths)).map fun n => lengths.count n
  symbols := ((List.range' 1 (depth lengths)).flatMap fun n =>
    (lengths.zipIdx.filter fun p => p.1 == n).map Prod.snd).toArray

/-- What is left of `room` codewords of the present length once the codewords counted are taken
away, each further bit doubling the room; none if they do not fit. -/
def room : List Nat → Nat → Option Nat
  | [], left => some left
  | n :: counts, left => if n ≤ 2 * left then room counts (2 * left - n) else none

/-- Every string of bits that is long enough starts with a codeword of the code. -/
def isComplete (code : CanonicalCode) : Bool := room code.counts 1 == some 0

/-- The codewords fit, and if they leave room they have at most one bit. -/
def isUsable (lengths : List Nat) : Bool :=
  match room (ofLengths lengths).counts 1 with
  | none => false
  | some left => left == 0 || lengths.all (· ≤ 1)

/-- Decoding from `pos` on, when the bits read so far make the number `word`, the first codeword
of their length is `first`, and `index` symbols have shorter ones. -/
def search (symbols : Array Nat) (src : Bytes) (pos word first index : Nat) :
    List Nat → Except Stop (Nat × Nat)
  | [] => .error .malformed
  | n :: counts =>
    if pos < 8 * src.size then
      let word := 2 * word + (bitAt src pos).toNat
      if word < first + n then
        match symbols[index + (word - first)]? with
        | some symbol => .ok (symbol, pos + 1)
        | none => .error .malformed
      else search symbols src (pos + 1) word (2 * (first + n)) (index + n) counts
    else .error .inputEnded

/-- The symbol whose codeword starts at `pos`, and the place behind it. -/
def next (code : CanonicalCode) (src : Bytes) (pos : Nat) : Except Stop (Nat × Nat) :=
  search code.symbols src pos 0 0 0 code.counts

theorem search_eq_ok {symbols : Array Nat} {src : Bytes} {counts : List Nat}
    {pos word first index symbol after : Nat}
    (h : search symbols src pos word first index counts = .ok (symbol, after)) :
    pos < after ∧ after ≤ 8 * src.size := by
  induction counts generalizing pos word first index with
  | nil => simp [search] at h
  | cons n counts ih =>
    unfold search at h
    split at h
    · dsimp only at h
      split at h
      · split at h
        · simp only [Except.ok.injEq, Prod.mk.injEq] at h
          omega
        · simp at h
      · have := ih h
        omega
    · simp at h

theorem next_eq_ok {code : CanonicalCode} {src : Bytes} {pos symbol after : Nat}
    (h : code.next src pos = .ok (symbol, after)) : pos < after ∧ after ≤ 8 * src.size :=
  search_eq_ok h

end CanonicalCode

end CompressedRom.Deflate
