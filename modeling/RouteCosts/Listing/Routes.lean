import RouteCosts.Assoc
import RouteCosts.Listing.Error
import RouteCosts.Listing.Lines

/-!
# The file of routes

Each data line gives the name of a start and the names of places that can be reached from it. A
start may have several lines, whose destinations follow one another; empty destinations are passed
over.
-/

namespace RouteCosts

/-- Destinations by the name of their start. No start occurs twice. -/
abbrev Routes := List (String × List String)

namespace Routes

/-- The destinations of a start, none if it is not there. -/
def ofStart (routes : Routes) (start : String) : List String := (routes.lookup start).getD []

/-- Add destinations to a start, which is added too if it is not there. -/
def extend (routes : Routes) (start : String) (destinations : List String) : Routes :=
  Assoc.insert start (routes.ofStart start ++ destinations) routes

theorem lookup_extend (routes : Routes) (start other : String) (destinations : List String) :
    (routes.extend start destinations).lookup other =
      if other = start then some (routes.ofStart start ++ destinations)
      else routes.lookup other :=
  Assoc.lookup_insert _ _ _ _

theorem ofStart_extend (routes : Routes) (start other : String) (destinations : List String) :
    (routes.extend start destinations).ofStart other =
      if other = start then routes.ofStart start ++ destinations else routes.ofStart other := by
  rw [ofStart, lookup_extend]
  split <;> rfl

end Routes

namespace Listing

/-- The start and the destinations of a data line. -/
def routesOfLine (line : List Char) : Except LineError (String × List String) :=
  match fields line with
  | [] | [] :: _ => .error .emptyStart
  | start :: rest =>
    .ok (String.ofList start, (rest.filter fun field => !field.isEmpty).map String.ofList)

/-- The routes of data lines, added to those of the lines before them. -/
def routesOfLines (earlier : Routes) : List (Nat × List Char) → Except ListingError Routes
  | [] => .ok earlier
  | (number, line) :: rest =>
    match routesOfLine line with
    | .ok (start, destinations) => routesOfLines (earlier.extend start destinations) rest
    | .error reason => .error (.malformed number reason)

/-- The routes that a text lists. -/
def routes (text : String) : Except ListingError Routes :=
  match dataLines text.toList with
  | [] => .error .empty
  | lines => routesOfLines [] lines

end Listing

end RouteCosts
