/-!
# Text out of bytes

Names are byte strings and need not be text. To be shown, a byte string is read as UTF-8, and
every part of it that is not well formed shows as one replacement character. A part that could
have become a character, had it gone on, is replaced as a whole; any other byte on its own.
-/

namespace CompressedRom.Text

/-- What stands in for a part that is not well formed. -/
def replacement : Char := '\ufffd'

/-- A byte that can follow in a character. -/
def isContinuation (b : UInt8) : Bool := 0x80 ≤ b && b ≤ 0xbf

/-- How a character of several bytes starts: the bits that its first byte contributes, the range
that its second byte lies in, and how many bytes follow the second. -/
structure Lead where
  bits : Nat
  low : UInt8
  high : UInt8
  more : Nat

/-- The beginning that a byte makes, if a character of several bytes can start with it. The
ranges leave out overlong forms, surrogates, and what lies past the last code point. -/
def lead? (b : UInt8) : Option Lead :=
  if 0xc2 ≤ b && b ≤ 0xdf then some ⟨b.toNat - 0xc0, 0x80, 0xbf, 0⟩
  else if b == 0xe0 then some ⟨0, 0xa0, 0xbf, 1⟩
  else if b == 0xed then some ⟨0xd, 0x80, 0x9f, 1⟩
  else if 0xe1 ≤ b && b ≤ 0xef then some ⟨b.toNat - 0xe0, 0x80, 0xbf, 1⟩
  else if b == 0xf0 then some ⟨0, 0x90, 0xbf, 2⟩
  else if 0xf1 ≤ b && b ≤ 0xf3 then some ⟨b.toNat - 0xf0, 0x80, 0xbf, 2⟩
  else if b == 0xf4 then some ⟨4, 0x80, 0x8f, 2⟩
  else none

/-- The code point that `code` grows into with the six bits of each of `n` more bytes, none if
one of them is missing; and the bytes left. -/
def continued : (n code : Nat) → List UInt8 → Option Nat × List UInt8
  | 0, code, rest => (some code, rest)
  | _ + 1, _, [] => (none, [])
  | n + 1, code, b :: rest =>
    if isContinuation b then continued n (code * 64 + (b.toNat - 0x80)) rest
    else (none, b :: rest)

theorem length_continued_le (n code : Nat) (bytes : List UInt8) :
    (continued n code bytes).2.length ≤ bytes.length := by
  induction n generalizing code bytes with
  | zero => simp [continued]
  | succ n ih =>
    cases bytes with
    | nil => simp [continued]
    | cons b rest =>
      unfold continued
      split
      · exact Nat.le_succ_of_le (ih _ _)
      · exact Nat.le_refl _

/-- The character that `b` starts, or the replacement; and the bytes left of `rest`. -/
def decodeFirst (b : UInt8) (rest : List UInt8) : Char × List UInt8 :=
  if b < 0x80 then (Char.ofNat b.toNat, rest)
  else
    match lead? b, rest with
    | some lead, second :: behind =>
      if lead.low ≤ second && second ≤ lead.high then
        match continued lead.more (lead.bits * 64 + (second.toNat - 0x80)) behind with
        | (some code, left) => (Char.ofNat code, left)
        | (none, left) => (replacement, left)
      else (replacement, rest)
    | _, _ => (replacement, rest)

theorem length_decodeFirst_le (b : UInt8) (rest : List UInt8) :
    (decodeFirst b rest).2.length ≤ rest.length := by
  unfold decodeFirst
  split
  · exact Nat.le_refl _
  · split
    · rename_i lead second behind _
      have := length_continued_le lead.more (lead.bits * 64 + (second.toNat - 0x80)) behind
      split
      · split <;> simp_all <;> omega
      · exact Nat.le_refl _
    · exact Nat.le_refl _

/-- The characters of a byte string, behind those in `found`, the last one first. -/
def lossyFrom (found : List Char) : List UInt8 → List Char
  | [] => found.reverse
  | b :: rest => lossyFrom ((decodeFirst b rest).1 :: found) (decodeFirst b rest).2
termination_by bytes => bytes.length
decreasing_by
  have := length_decodeFirst_le b rest
  simp only [List.length_cons]
  omega

/-- A byte string as text. -/
def lossy (b : ByteArray) : String := String.ofList (lossyFrom [] b.data.toList)

end CompressedRom.Text
