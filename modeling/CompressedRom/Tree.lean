import CompressedRom.File
import CompressedRom.Path
import CompressedRom.Text.Lossy

/-!
# The tree of files

All files of an image are listed with a line for each, a directory before what is in it, down to
a fixed depth. Where the listing ends early, the lines before stay.
-/

namespace CompressedRom.Tree

/-- Lines, the last one first, and the cause that ended them, if one did. -/
structure Lines where
  reversed : List String
  failure? : Option Error

namespace Lines

/-- No lines yet. -/
def none : Lines := ⟨[], .none⟩

/-- One more line. -/
def add (l : Lines) (line : String) : Lines := { l with reversed := line :: l.reversed }

/-- The lines, ended for the given cause. -/
def ended (l : Lines) (cause : Error) : Lines := { l with failure? := some cause }

/-- All lines in their order, each with a line feed behind it. -/
def text (l : Lines) : String :=
  String.join (l.reversed.reverse.map fun line => line ++ "\n")

end Lines

/-- The columns in front of a name: the mode, and the size or the two parts of the device
number. -/
def columns (inode : Inode) : String :=
  match inode.fileType with
  | .charDevice | .blockDevice =>
    let device := inode.device?.getD 0
    inode.mode.text ++ " " ++ Text.padLeft 3 (toString (device / 256)) ++ "," ++
      Text.padLeft 4 (toString (device % 256))
  | _ => inode.mode.text ++ " " ++ Text.padLeft 8 (toString inode.size)

/-- The line for the file at `path`; a link shows its target, too. -/
def line (fs : Filesystem) (inode : Inode) (path : String) : Query String :=
  match inode.fileType with
  | .symlink => do
    let target ← File.readLink fs inode
    return columns inode ++ " " ++ path ++ " -> " ++ Text.lossy target
  | _ => return columns inode ++ " " ++ path

/-- Lists an entry of the directory at `path`, unless the listing has ended, and `descend`s if it
is a directory. -/
def entry (fs : Filesystem) (descend : Inode → String → Lines → Query Lines) (path : String)
    (lines : Lines) (e : Directory.Entry) : Query Lines := do
  if lines.failure?.isSome then return lines
  else
    let path := path ++ "/" ++ Text.lossy e.name
    match ← (line fs e.inode path).attempt with
    | .error cause => return lines.ended cause
    | .ok text =>
      if e.inode.isDirectory then descend e.inode path (lines.add text)
      else return lines.add text

/-- Lists the entries of the directory at `path`, and `descend`s into those that are
directories. -/
def entries (fs : Filesystem) (descend : Inode → String → Lines → Query Lines) (dir : Inode)
    (path : String) (lines : Lines) : Query Lines := do
  match ← (Directory.listAll fs dir 0).attempt with
  | .error cause => return lines.ended cause
  | .ok listing =>
    let lines ← listing.entries.foldlM (entry fs descend path) lines
    if lines.failure?.isSome then return lines
    else return { lines with failure? := listing.failure? }

/-- Lists the directory at `path` and as many levels of directories below it as `levels` says. -/
def directory (fs : Filesystem) : (levels : Nat) → Inode → String → Lines → Query Lines
  | 0 => entries fs fun _ _ lines => return lines
  | levels + 1 => entries fs (directory fs levels)

/-- How many levels of directories below the root are gone into. -/
def depth : Nat := 32

/-- The lines for all files of an image. -/
def list (fs : Filesystem) : Query Lines := directory fs depth fs.root "" .none

end CompressedRom.Tree
