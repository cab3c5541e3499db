/-!
# Equality up to the case of ASCII letters

Only the letters A to Z have a lower case here; every other character stands for itself.
-/

namespace RouteCosts.Text

/-- A string with its ASCII capitals made small. -/
def foldCase (s : String) : List Char := s.toList.map Char.toLower

/-- Two strings that differ in the case of ASCII letters at most. -/
def sameIgnoringCase (s t : String) : Bool := foldCase s == foldCase t

theorem sameIgnoringCase_iff {s t : String} :
    sameIgnoringCase s t = true ↔ foldCase s = foldCase t := by
  simp [sameIgnoringCase]

@[simp]
theorem sameIgnoringCase_self (s : String) : sameIgnoringCase s s = true := by
  simp [sameIgnoringCase]

end RouteCosts.Text
