import CompressedRom.Command

/-!
# The program

Reads the image named by the first argument and leaves the rest to the command.
-/

namespace CompressedRom.Command

/-- Prints an outcome and gives its status. -/
def report (o : Outcome) : IO UInt32 := do
  let out ← IO.getStdout
  out.write o.output
  out.flush
  if let some complaint := o.complaint then
    IO.eprintln complaint
  return UInt32.ofNat o.status

/-- Lists the files of the image named first, or prints the one whose path is named second. -/
def program (args : List String) : IO UInt32 := do
  match args with
  | [] => report withoutImage
  | image :: rest =>
    match ← (IO.FS.readBinFile image).toBaseIO with
    | .ok content => report (run content rest.head?)
    | .error e => report (unopened image ⟨.other, toString e⟩)

end CompressedRom.Command

/-- The program. -/
def main (args : List String) : IO UInt32 := CompressedRom.Command.program args
