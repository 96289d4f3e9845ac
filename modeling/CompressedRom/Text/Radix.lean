/-!
# Numbers in text

Addresses and flag words are shown in lower case hexadecimal behind `0x`, modes in octal
behind `0o`. Columns of a listing are padded on the left.
-/

namespace CompressedRom.Text

/-- Lower case hexadecimal behind `0x`; zero is `0x0`. -/
def hexadecimal (n : Nat) : String :=
  "0x" ++ String.ofList (Nat.toDigits 16 n)

/-- Octal behind `0o`; zero is `0o0`. -/
def octal (n : Nat) : String :=
  "0o" ++ String.ofList (Nat.toDigits 8 n)

/-- `s` behind as many blanks as bring it to `width` characters, if it is shorter. -/
def padLeft (width : Nat) (s : String) : String :=
  String.ofList (List.replicate (width - s.length) ' ') ++ s

/-- An optional number: `Some(n)` or `None`. -/
def optional : Option Nat → String
  | none => "None"
  | some n => s!"Some({n})"

end CompressedRom.Text
