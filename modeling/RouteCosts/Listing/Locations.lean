import RouteCosts.Bytes.Utf8
import RouteCosts.Graph.Location
import RouteCosts.Listing.Error
import RouteCosts.Listing.Lines
import RouteCosts.Text.Numeral
import RouteCosts.Wire.Kind

/-!
# The file of locations

Each data line gives a name and a cost. Names are not empty, short enough to fit on a page with
their separator, and all different; costs are numbers of 32 bits.
-/

namespace RouteCosts.Listing

/-- The cost that a field gives. -/
def cost? (field : List Char) : Option UInt32 :=
  match Text.unsigned? field with
  | some n => if n < UInt32.size then some (UInt32.ofNat n) else none
  | none => none

/-- The location of a data line, after those of the lines before it. -/
def locationOfLine (earlier : List Location) (line : List Char) : Except LineError Location :=
  match fields line with
  | [name, cost] =>
    let text := String.ofList name
    if name = [] then .error .emptyName
    else if pageCapacity ≤ Utf8.size text then .error (.nameTooLong text)
    else if earlier.any fun l => l.name == text then .error (.duplicate text)
    else match cost? cost with
      | some cost => .ok (.isolated text cost)
      | none => .error (.badCost (String.ofList cost) text)
  | _ => .error (.notNameAndCost (String.ofList line))

/-- The locations of data lines, after those of the lines before them. -/
def locationsOfLines (earlier : List Location) :
    List (Nat × List Char) → Except ListingError (List Location)
  | [] => .ok earlier
  | (number, line) :: rest =>
    match locationOfLine earlier line with
    | .ok location => locationsOfLines (earlier ++ [location]) rest
    | .error reason => .error (.malformed number reason)

/-- The locations that a text lists, in order. -/
def locations (text : String) : Except ListingError (List Location) :=
  match dataLines text.toList with
  | [] => .error .empty
  | lines => locationsOfLines [] lines

end RouteCosts.Listing
