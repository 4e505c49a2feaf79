import ReversePolish.Disk.Path
import ReversePolish.Word.Quad

/-! # Files and directories

A disk is the files and directories under one root, and the directory that a
command works in, where paths without a slash in front start. Two dots lead one
directory up, and at the root nowhere. A file is replaced in one go
(`Disk.replaceFile`): the new content goes into a temporary file beside it, which
then takes its name; when that fails the temporary file is removed and every file
is as before. Directories that were made on the way stay.

A name has at most `nameLimit` bytes and a path, as it is written, at most
`pathLimit`. A file that is replaced needs room for its temporary file too, whose
name is longer and whose path is written from the root.
-/

namespace ReversePolish

/-- Names that lead from the root down. -/
abbrev Location := List String

/-- The most bytes that a name may have. -/
def nameLimit : Nat := 255

/-- The most bytes that a path may have as it is written. -/
def pathLimit : Nat := 4095

/-- By how many bytes the name of a temporary file is longer than the name of the
file it stands for: three dots, eight characters to tell it apart, and `tmp`. -/
def temporaryRoom : Nat := 14

/-- The files and directories under the root, and the working directory. The
working directory and those above it stand without being listed. -/
structure Disk where
  files : List (Location × Bytes)
  dirs : List Location
  working : Location := []
  deriving Repr, DecidableEq

/-- Why the disk refuses. -/
inductive DiskError where
  | notADirectory (location : Location)
  | isADirectory (location : Location)
  | noSuchFile (location : Location)
  | nameTooLong (name : String)
  | pathTooLong (written : String)
  deriving Repr, DecidableEq

namespace Disk

/-- A computation on a disk, which may fail and keeps what it changed. -/
abbrev Action (α : Type) : Type := EStateM DiskError Disk α

/-- The content of the file at a location, if there is one. -/
def content? (disk : Disk) (location : Location) : Option Bytes :=
  disk.files.lookup location

/-- A directory stands at a location. -/
def isDir (disk : Disk) (location : Location) : Bool :=
  location.isPrefixOf disk.working || location ∈ disk.dirs

/-- The directory that the names of a path are followed from. -/
def startOf (disk : Disk) : PathStart → Location
  | .workingDirectory => disk.working
  | .root | .doubleRoot => []

/-- The disk without the file at a location. -/
def remove (disk : Disk) (location : Location) : Disk :=
  { disk with files := disk.files.filter (·.1 ≠ location) }

/-- The disk with a file at a location, in place of any that was there. -/
def write (disk : Disk) (location : Location) (content : Bytes) : Disk :=
  { disk with files := (location, content) :: (disk.remove location).files }

/-- The disk with a file moved to another location, in place of any that was
there. -/
def rename (disk : Disk) (source target : Location) : Disk :=
  match disk.content? source with
  | some content => (disk.remove source).write target content
  | none => disk

/-- The locations on the way to a location, the root left out. -/
def ancestors (location : Location) : List Location :=
  (List.range (location.length - 1)).map fun count => location.take (count + 1)

/-- The disk with the given files and directories, and the directories on the
way to them. -/
def ofEntries (files : List (Location × Bytes)) (dirs : List Location) (working : Location) :
    Disk where
  files
  dirs := dirs ++ (dirs ++ files.map (·.1)).flatMap ancestors
  working

/-- Follows names from a location; every name needs a directory to be looked up
in. -/
def walk (disk : Disk) (here : Location) : List String → Except DiskError Location
  | [] => .ok here
  | name :: rest =>
      if disk.isDir here then
        if name = "" ∨ name = "." then disk.walk here rest
        else if name = ".." then disk.walk here.dropLast rest
        else disk.walk (here ++ [name]) rest
      else .error (.notADirectory here)

/-- The content of the file that a written path leads to. -/
def read (disk : Disk) (written : String) : Except DiskError Bytes := do
  if written.utf8ByteSize > pathLimit then throw (.pathTooLong written)
  else
    let start := disk.startOf (.ofText written.toList)
    let location ← disk.walk start ((slashComponents written.toList).map String.ofList)
    if disk.isDir location then throw (.isADirectory location)
    else
      match disk.content? location with
      | some content => return content
      | none => throw (.noSuchFile location)

/-- Follows names from a location, making the directories that are missing. -/
def enter (here : Location) : List String → Action Location
  | [] => pure here
  | name :: rest =>
      if name = ".." then enter here.dropLast rest
      else if name.utf8ByteSize > nameLimit then throw (.nameTooLong name)
      else do
        let next := here ++ [name]
        let disk ← get
        if disk.isDir next then enter next rest
        else if (disk.content? next).isSome then throw (.notADirectory next)
        else
          set { disk with dirs := next :: disk.dirs }
          enter next rest

/-- A name that no file of the disk has, since it is longer than every name. -/
def freshName (disk : Disk) (name : String) : String :=
  let longest := (disk.files.flatMap (·.1)).foldr (fun other most => max other.length most) 0
  "." ++ name ++ "." ++ String.ofList (List.replicate (longest + 1) '_') ++ ".tmp"

/-- The directory that a path's last name is looked up in, which is made if it is
missing. A path that is too long makes nothing. -/
def enterParent (path : Path) : Action Location := do
  let written := path.parent.render
  if written.utf8ByteSize > pathLimit then throw (.pathTooLong written)
  else enter ((← get).startOf path.start) path.parent.parts

/-- Writes a temporary file for a file of a directory, and gives its location. Its
path is written from the root, in the way that the path of the file starts. -/
def writeTemporary (start : PathStart) (directory : Location) (name : String)
    (content : Bytes) : Action Location := do
  let written := Path.render ⟨start.absolute, directory ++ [name]⟩
  if name.utf8ByteSize + temporaryRoom > nameLimit then throw (.nameTooLong name)
  else if written.utf8ByteSize + temporaryRoom > pathLimit then throw (.pathTooLong written)
  else
    let temporary := directory ++ [(← get).freshName name]
    modify (·.write temporary content)
    return temporary

/-- Why nothing can be moved to a path, if that is so. -/
def refusal? (disk : Disk) (path : Path) (target : Location) : Option DiskError :=
  if path.render.utf8ByteSize > pathLimit then some (.pathTooLong path.render)
  else if disk.isDir target then some (.isADirectory target)
  else none

/-- Gives a path new content, by way of a temporary file in the same
directory. -/
def replaceFile (path : Path) (content : Bytes) : Action Unit := do
  let directory ← enterParent path
  let temporary ← writeTemporary path.start directory (path.fileName?.getD "") content
  let target := directory ++ path.fileName?.toList
  match (← get).refusal? path target with
  | some error =>
      modify (·.remove temporary)
      throw error
  | none => modify (·.rename temporary target)

end Disk

end ReversePolish
