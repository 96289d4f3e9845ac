import CompressedRom.Tree

/-!
# The command

The command lists the files of an image, or prints one of them. Its status is 0 if all went well, 1 if
something was not found or could not be read, and 2 if it was not told what to do.
-/

namespace CompressedRom.Command

/-- What the command leaves behind: its status, what it printed, and what it has to say about a
failure. -/
structure Outcome where
  status : Nat
  output : Bytes
  complaint : Option String

/-- How the command is used. -/
def usage : String := "usage: cramfs_ls IMAGE [PATH]"

/-- The outcome without an image. -/
def withoutImage : Outcome := ⟨2, Bytes.zeros 0, some usage⟩

/-- The outcome for the image `path`, which cannot be opened. -/
def unopened (path : String) (cause : IoError) : Outcome :=
  ⟨1, Bytes.zeros 0, some (Error.cannotOpen path cause).message⟩

/-- The wording of a failure. -/
def complaintOf : Failure → String
  | .refused cause => cause.message
  | .fault step => step.message

/-- What is printed in full, or up to the cause that ended it. -/
def printed (output : Bytes) : Option Error → Outcome
  | none => ⟨0, output, none⟩
  | some cause => ⟨1, output, some cause.message⟩

/-- The content of the file that a path leads to; none if there is no such file. -/
def file (fs : Filesystem) (path : String) : Query (Option (Bytes × Option Error)) := do
  match ← Path.resolve fs path.toUTF8 with
  | none => return none
  | some inode => return some (← File.content fs inode)

/-- The outcome that `present` makes of the value of a query. -/
def answer {α : Type} (store : Store) (c : Cache) (q : Query α) (present : α → Outcome) :
    Outcome :=
  match (q.run store c).1 with
  | .ok value => present value
  | .error failure => ⟨1, Bytes.zeros 0, some (complaintOf failure)⟩

/-- The outcome for the image with the given bytes, and a path of a file to print, if there is
one. -/
def run (content : Bytes) (path? : Option String) : Outcome :=
  let store := Store.ofFile content
  match (Filesystem.mount store .epoch).run store .empty with
  | (.error failure, _) => ⟨1, Bytes.zeros 0, some (complaintOf failure)⟩
  | (.ok fs, c) =>
    match path? with
    | none =>
      answer store c (Tree.list fs) fun lines => printed lines.text.toUTF8 lines.failure?
    | some path =>
      answer store c (file fs path) fun found =>
        match found with
        | none => ⟨1, Bytes.zeros 0, some (path ++ ": no such file")⟩
        | some (output, failure?) => printed output failure?

end CompressedRom.Command
