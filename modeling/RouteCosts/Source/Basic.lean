import RouteCosts.Fault
import RouteCosts.Graph.Location
import RouteCosts.Listing.Error

/-!
# Sources of data

A planner has its locations from one source and its routes from another. A source is asked to load
before it is read: it looks at what is outside, of a type of its own, says whether its data changed,
and may fail, in which case its data stay. `LocationSource` and `RouteSource` are all that a planner
knows of it.
-/

namespace RouteCosts

/-- Why a source can not load. -/
inductive SourceError where
  /-- The data can not be read. -/
  | fault (fault : Fault)
  /-- The data can be read but do not follow their grammar. -/
  | listing (error : ListingError)
  deriving DecidableEq

/-- What is said about a source that can not load. -/
def SourceError.message : SourceError → String
  | fault f => s!"IO error: {f.text}"
  | listing error => error.message

/-- A source of locations. -/
class LocationSource (σ : Type) (outside : outParam Type) where
  /-- Take over what is outside. The answer is whether the locations changed. -/
  load : σ → outside → Except SourceError Bool × σ
  /-- The locations in order. -/
  locations : σ → List Location

/-- A source of routes. It is asked for the routes from one place at a time, and every question is
counted. -/
class RouteSource (σ : Type) (outside : outParam Type) where
  /-- Take over what is outside. The answer is whether the routes changed. -/
  load : σ → outside → Except SourceError Bool × σ
  /-- The names of the places that can be reached from a place. -/
  ask : σ → String → StateM Nat (List String)
  /-- A question raises the count by one, and the count does not bear on the answer. -/
  ask_eq : ∀ source start asked, ask source start asked = ((ask source start 0).1, asked + 1)

/-- Data changed in a load. A load that failed changed nothing. -/
def changed : Except SourceError Bool → Bool
  | .ok b => b
  | .error _ => false

end RouteCosts
