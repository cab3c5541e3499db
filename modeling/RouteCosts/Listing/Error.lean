/-!
# What can be wrong with a data file

A line that does not follow the grammar of its file is blamed with its number, counted from 1, and
the reason. A file without any data line is blamed as a whole.
-/

namespace RouteCosts

/-- What is wrong with one line. -/
inductive LineError where
  | notNameAndCost (line : String)
  | emptyName
  | nameTooLong (name : String)
  | duplicate (name : String)
  | badCost (cost name : String)
  | emptyStart
  deriving DecidableEq

/-- What is said about a line. -/
def LineError.message : LineError → String
  | notNameAndCost line => s!"expected 'name, cost', got '{line}'"
  | emptyName => "empty location name"
  | nameTooLong name => s!"location name '{name}' is too long"
  | duplicate name => s!"duplicate location '{name}'"
  | badCost cost name => s!"invalid cost '{cost}' for '{name}'"
  | emptyStart => "empty start location"

/-- What is wrong with a file. -/
inductive ListingError where
  /-- The first line that does not follow the grammar, by its number. -/
  | malformed (line : Nat) (reason : LineError)
  /-- No data line at all. -/
  | empty
  deriving DecidableEq

/-- What is said about a file. -/
def ListingError.message : ListingError → String
  | malformed line reason => s!"Malformed entry on line {line}: {reason.message}"
  | empty => "No entries found"

end RouteCosts
