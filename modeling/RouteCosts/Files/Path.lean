import RouteCosts.Bytes.Utf8
import RouteCosts.Text.Split

/-!
# Paths

A path is a text with slashes between its steps. A step stays where it is (`.`), goes up (`..`) or
goes to a name. Empty steps do not count, but a slash at the end says that the path leads to a
directory.
-/

namespace RouteCosts

/-- A place among all files: the names that lead to it from the root. -/
abbrev Place := List String

/-- One step of a path. -/
inductive Step where
  | stay
  | up
  | enter (name : String)
  deriving DecidableEq

/-- Where a step leads from a place. -/
def Step.apply : Step → Place → Place
  | stay, place => place
  | up, place => place.dropLast
  | enter name, place => place ++ [name]

/-- How many bytes a name may have. -/
def maxNameSize : Nat := 255

/-- A step goes to a name that is too long for any file. -/
def Step.isTooLong : Step → Bool
  | enter name => decide (maxNameSize < Utf8.size name)
  | _ => false

/-- A path. -/
structure Path where
  /-- It begins at the root. -/
  rooted : Bool
  steps : List Step
  /-- It ends with a slash. -/
  slashed : Bool
  deriving DecidableEq

namespace Path

/-- The step that a text between slashes writes, if it is not empty. -/
def step? (text : List Char) : Option Step :=
  match text with
  | [] => none
  | ['.'] => some .stay
  | ['.', '.'] => some .up
  | _ => some (.enter (String.ofList text))

/-- The path that a text writes. -/
def ofText (text : String) : Path where
  rooted := text.toList.head? = some '/'
  steps := (Text.split '/' text.toList).filterMap step?
  slashed := text.toList.getLast? = some '/'

/-- A path is written as no text at all. -/
def isEmpty (path : Path) : Bool := !path.rooted && path.steps.isEmpty

/-- The steps of a path that move. -/
def moves (path : Path) : List Step := path.steps.filter (· ≠ .stay)

/-- The steps to the directory in which a path ends. -/
def parentMoves (path : Path) : List Step := path.moves.dropLast

end Path

end RouteCosts
