/-! # Paths

A path is written as names between slashes. Empty names and single dots mean
nothing and are left out of a path's normal form, which is how it is written
back; two dots stay, since where they lead depends on the disk. Slashes in front
lead to the root. Exactly two of them stay two, since a system may give them a
meaning of their own; any other number is as good as one.
-/

namespace ReversePolish

/-- The names between the slashes of a written path, empty ones included. -/
def slashComponents : List Char → List (List Char)
  | [] => [[]]
  | char :: rest =>
      if char = '/' then [] :: slashComponents rest
      else
        match slashComponents rest with
        | [] => [[char]]
        | name :: names => (char :: name) :: names

/-- Where the names of a path are looked up first. -/
inductive PathStart where
  | workingDirectory
  | root
  /-- The root as exactly two slashes name it. -/
  | doubleRoot
  deriving Repr, DecidableEq, Inhabited

namespace PathStart

/-- The slashes that a start is written with. -/
def slashes : PathStart → String
  | workingDirectory => ""
  | root => "/"
  | doubleRoot => "//"

/-- The start that the slashes in front of a written path tell. -/
def ofText (text : List Char) : PathStart :=
  match (text.takeWhile (· = '/')).length with
  | 0 => workingDirectory
  | 2 => doubleRoot
  | _ => root

/-- The start of the same path when it is written from the root. -/
def absolute : PathStart → PathStart
  | workingDirectory | root => root
  | doubleRoot => doubleRoot

@[simp] theorem ofText_slashes (start : PathStart) : ofText start.slashes.toList = start := by
  cases start <;> decide

end PathStart

/-- Where a path starts, and its names in normal form. -/
structure Path where
  start : PathStart
  parts : List String
  deriving Repr, DecidableEq

namespace Path

/-- The normal form of a written path. -/
def ofString (written : String) : Path where
  start := .ofText written.toList
  parts := ((slashComponents written.toList).map String.ofList).filter
    fun name => name ≠ "" ∧ name ≠ "."

/-- A path written in its normal form; a path without a name or a slash is the
working directory, which a dot stands for. -/
def render (path : Path) : String :=
  if path.start = .workingDirectory ∧ path.parts = [] then "."
  else path.start.slashes ++ String.intercalate "/" path.parts

/-- The path of the directory that holds what a path names. -/
def parent (path : Path) : Path := { path with parts := path.parts.dropLast }

/-- The last name of a path, unless it leads back up or names nothing. -/
def fileName? (path : Path) : Option String :=
  match path.parts.getLast? with
  | none => none
  | some name => if name = ".." then none else some name

end Path

end ReversePolish
