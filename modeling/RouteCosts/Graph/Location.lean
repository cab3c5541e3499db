import RouteCosts.Assoc

/-!
# Locations

A location has a name, a cost that is paid for every visit, and the places that can be reached from
it in one move. Each destination is known by its name and by its index in the graph it belongs to,
and no name occurs twice among them.
-/

namespace RouteCosts

/-- A place and where one can go from it. -/
structure Location where
  name : String
  cost : UInt32
  /-- The places one move away, by name, with their indices. -/
  destinations : List (String × Nat)
  deriving DecidableEq, Inhabited

namespace Location

/-- A location from which nothing can be reached yet. -/
def isolated (name : String) (cost : UInt32) : Location := ⟨name, cost, []⟩

/-- The index of a destination. -/
def destination? (location : Location) (name : String) : Option Nat :=
  location.destinations.lookup name

/-- Make a place reachable. A name that is there already gets the new index. -/
def addDestination (location : Location) (name : String) (index : Nat) : Location :=
  { location with destinations := Assoc.insert name index location.destinations }

/-- Take all destinations away. -/
def clear (location : Location) : Location := { location with destinations := [] }

/-- Where each name stands among some locations. Of those that share a name, the last one counts. -/
def positions (locations : List Location) : List (String × Nat) :=
  locations.zipIdx.foldl (fun index entry => Assoc.insert entry.1.name entry.2 index) []

/-- After adding a destination its name leads to the index given, and all others where they did. -/
theorem destination?_addDestination (location : Location) (name other : String) (index : Nat) :
    (location.addDestination name index).destination? other =
      if other = name then some index else location.destination? other :=
  Assoc.lookup_insert _ _ _ _

@[simp]
theorem destination?_clear (location : Location) (name : String) :
    location.clear.destination? name = none := rfl

end Location

end RouteCosts
