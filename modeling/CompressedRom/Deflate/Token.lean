import CompressedRom.Bytes

/-!
# Strings that occur again

A byte string is cut into tokens, each a byte or a reference to a string that occurred before.
Earlier places are looked up by the three bytes that stand there, the nearest place first. Nothing
rests on how well strings are found: a compressed form is used only after it has been decoded
again.
-/

namespace CompressedRom.Deflate

/-- A byte, or a string of `length` bytes that stands `distance` bytes back. -/
inductive Token where
  | literal (value : UInt8)
  | reference (length distance : Nat)
  deriving DecidableEq, Repr

/-- How many bytes, at most `n`, are the same from `i` and from `j` on. -/
def commonLength (src : Bytes) (i j : Nat) : Nat → Nat
  | 0 => 0
  | n + 1 =>
    if src.byteAt i = src.byteAt j then commonLength src (i + 1) (j + 1) n + 1 else 0

/-- How thoroughly strings are looked for: the number of slots in which places are remembered, and
the most places that are tried for one string. -/
structure Effort where
  slots : Nat
  tries : Nat
  deriving DecidableEq, Repr

/-- The effort at a compression level: few places are remembered and one is tried at the lowest
one, all within reach are remembered at the others. -/
def Effort.ofLevel (level : Nat) : Effort :=
  if level ≤ 1 then ⟨2 ^ 12, 1⟩ else ⟨2 ^ 15, 64⟩

/-- The longest string that a reference stands for. -/
def longestReference : Nat := 258

/-- How far back strings are looked for: as far as the window of 32768 bytes reaches when it also
holds the string itself. -/
def reach : Nat := 32768 - longestReference

/-- The slot, one of `slots`, for the three bytes at `i`, spread over all of them by a
multiplication. -/
def slot (src : Bytes) (i slots : Nat) : Nat :=
  ((src.byteAt i).toNat * 2 ^ 16 + (src.byteAt (i + 1)).toNat * 2 ^ 8 +
    (src.byteAt (i + 2)).toNat) * 2654435761 / 2 ^ 17 % slots

/-- The places before some place: for each slot the place behind the last one that fell into it,
and for each place the one before it in the same slot, told the same way; zero for none. -/
structure SeenPlaces where
  latest : Array Nat
  previous : Array Nat

namespace SeenPlaces

/-- No place has been seen. -/
def empty (slots : Nat) : SeenPlaces := ⟨Array.replicate slots 0, #[]⟩

/-- Place `pos`, the next one, is seen as well. -/
def add (seen : SeenPlaces) (src : Bytes) (pos : Nat) : SeenPlaces :=
  match seen with
  | ⟨latest, previous⟩ =>
    let place := slot src pos latest.size
    let last := latest.getD place 0
    ⟨latest.setIfInBounds place (pos + 1), previous.push last⟩

/-- The longest string at `pos` that stands at one of the next `tries` places in the chain from
`last` on, as its length and its distance, or `best` if none is longer. -/
def longest (src : Bytes) (pos : Nat) (previous : Array Nat) :
    (tries last : Nat) → (best : Nat × Nat) → Nat × Nat
  | 0, _, best => best
  | tries + 1, last, best =>
    if last = 0 ∨ reach < pos + 1 - last ∨ longestReference ≤ best.1 then best
    else
      let start := last - 1
      let best :=
        if src.byteAt (start + best.1) = src.byteAt (pos + best.1) then
          let length := commonLength src start pos (min longestReference (src.size - pos))
          if best.1 < length then (length, pos - start) else best
        else best
      longest src pos previous tries (previous.getD start 0) best

/-- The longest string found at `pos` in so many tries, as its length and its distance. -/
def find (seen : SeenPlaces) (src : Bytes) (pos tries : Nat) : Nat × Nat :=
  longest src pos seen.previous tries (seen.latest.getD (slot src pos seen.latest.size) 0) (0, 0)

end SeenPlaces

namespace Token

/-- A string of at least three bytes is worth a reference, one of just three only if it is
near. -/
def isWorthwhile (length distance : Nat) : Bool :=
  3 < length || (length == 3 && distance ≤ 4096)

/-- A byte string that is read from its start: the places before the next one, the tokens found,
and the place up to which they reach. -/
structure Progress where
  seen : SeenPlaces
  found : Array Token
  covered : Nat

/-- Goes on by one place. Where the tokens end there, a byte or a string is added to them; it is a
byte if a longer string starts right behind it. -/
def advance (src : Bytes) (tries pos : Nat) : Progress → Progress
  | ⟨seen, found, covered⟩ =>
    if pos < covered then ⟨seen.add src pos, found, covered⟩
    else
      let (length, distance) := seen.find src pos tries
      let seen := seen.add src pos
      if isWorthwhile length distance &&
          (32 ≤ length || (seen.find src (pos + 1) tries).1 ≤ length) then
        ⟨seen, found.push (.reference length distance), pos + length⟩
      else ⟨seen, found.push (.literal (src.byteAt pos)), pos + 1⟩

/-- The tokens of a byte string. -/
def ofBytes (effort : Effort) (src : Bytes) : Array Token :=
  (Nat.fold src.size (fun pos _ progress => advance src effort.tries pos progress)
    ⟨.empty effort.slots, #[], 0⟩).found

end Token

end CompressedRom.Deflate
