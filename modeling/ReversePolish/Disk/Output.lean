import ReversePolish.Disk.Basic

/-! # Where an output may go

The names of a path lead from one location to the next, and two dots back up as far as the
root. A path is free for an output (`Disk.Free`) when no file bars the way and no directory
stands at its end, and it fits (`Path.Fits`) when neither its names nor the path as a whole
are too long for a file system, the temporary file that stands in for the output included.
-/

namespace ReversePolish

namespace Location

/-- The location that names lead to. -/
def follow (here : Location) : List String → Location
  | [] => here
  | name :: rest =>
      if name = ".." then follow here.dropLast rest else follow (here ++ [name]) rest

/-- The locations that names lead down into. -/
def entered (here : Location) : List String → List Location
  | [] => []
  | name :: rest =>
      if name = ".." then entered here.dropLast rest
      else (here ++ [name]) :: entered (here ++ [name]) rest

end Location

/-- A way may lead through a location: a directory stands there, or nothing yet. -/
def Disk.Passable (disk : Disk) (location : Location) : Prop :=
  disk.isDir location ∨ disk.content? location = none

/-- The locations that a path leads down into on the way to what it names. -/
def Disk.wayTo (disk : Disk) (path : Path) : List Location :=
  Location.entered (disk.startOf path.start) path.parent.parts

/-- A path leads to a location where an output can be put: it names a file that is neither a
directory, one made on the way included, nor below a file. -/
structure Disk.Free (disk : Disk) (path : Path) (target : Location) : Prop where
  leads : Location.follow (disk.startOf path.start) path.parts = target
  named : path.fileName?.isSome
  passable : ∀ location ∈ disk.wayTo path, disk.Passable location
  notDir : ¬ disk.isDir target
  notMade : target ∉ disk.wayTo path

/-- A path to a location is short enough for a file system, and leaves room for the
temporary file. -/
structure Path.Fits (path : Path) (target : Location) : Prop where
  names : ∀ name ∈ path.parent.parts, name ≠ ".." → name.utf8ByteSize ≤ nameLimit
  fileName : ∀ name, path.fileName? = some name → name.utf8ByteSize + temporaryRoom ≤ nameLimit
  parent : path.parent.render.utf8ByteSize ≤ pathLimit
  temporary :
    (Path.render ⟨path.start.absolute, target⟩).utf8ByteSize + temporaryRoom ≤ pathLimit
  written : path.render.utf8ByteSize ≤ pathLimit

end ReversePolish
