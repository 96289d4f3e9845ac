import CompressedRom.Directory

/-!
# Paths

A path is a string of bytes cut at every slash. Empty components and `.` stand for nothing, `..`
goes back to where the last name was looked up and stays at the root, and any other component is
looked up in the present directory.
-/

namespace CompressedRom.Path

/-- The components of `c` and a path whose components are `rest`. -/
def prepend (c : UInt8) (rest : List (List UInt8)) : List (List UInt8) :=
  if c = 0x2f then [] :: rest else (c :: rest.headD []) :: rest.tail

/-- The components of a path; there is always one more than slashes. -/
def components (path : List UInt8) : List (List UInt8) :=
  path.foldr prepend [[]]

/-- What a component asks for. -/
inductive Step where
  | stay
  | back
  | enter (name : Bytes)
  deriving DecidableEq

/-- The meaning of a component. -/
def Step.ofComponent (component : List UInt8) : Step :=
  if component = [] ∨ component = [0x2e] then .stay
  else if component = [0x2e, 0x2e] then .back
  else .enter (Bytes.ofList component)

/-- The steps of a path. -/
def steps (path : Bytes) : List Step :=
  (components path.data.toList).map .ofComponent

/-- Follows steps from the last of the files `trail`, which lead to it from below the root; none
if a name is not found. -/
def follow (fs : Filesystem) : List Step → (trail : List Inode) → Query (Option Inode)
  | [], trail => return some (trail.headD fs.root)
  | .stay :: steps, trail => follow fs steps trail
  | .back :: steps, trail => follow fs steps trail.tail
  | .enter name :: steps, trail => do
    match ← Directory.lookup fs (trail.headD fs.root) name with
    | some inode => follow fs steps (inode :: trail)
    | none => return none

/-- The file that a path leads to from the root; none if a name on it is not found. -/
def resolve (fs : Filesystem) (path : Bytes) : Query (Option Inode) :=
  follow fs (steps path) []

end CompressedRom.Path
