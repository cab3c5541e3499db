import RouteCosts.Text.Blank
import RouteCosts.Text.Split

/-!
# Data lines

A data file is read line by line. Blanks at either end of a line do not count; a line that is then
empty or begins with `#` carries no data, but has a number all the same.
-/

namespace RouteCosts.Listing

/-- Every line of a text, trimmed, with its number. -/
def numbered (text : List Char) : List (Nat × List Char) :=
  ((Text.split '\n' text).zipIdx 1).map fun line => (line.2, Text.trim line.1)

/-- A line carries data. -/
def isData : List Char → Bool
  | [] => false
  | c :: _ => c != '#'

/-- The lines that carry data, trimmed, with their numbers. -/
def dataLines (text : List Char) : List (Nat × List Char) :=
  (numbered text).filter fun line => isData line.2

/-- The fields of a line: what stands between its commas, trimmed. -/
def fields (line : List Char) : List (List Char) := (Text.split ',' line).map Text.trim

theorem fields_ne_nil (line : List Char) : fields line ≠ [] := by
  simp [fields, Text.split_ne_nil]

end RouteCosts.Listing
