import RouteCosts.Listing.Routes
import RouteCosts.Source.Basic

/-!
# Sources in memory

Sources whose data, changes and failures are set by hand. They stand in for files where the way a
planner uses its sources is to be looked at.
-/

namespace RouteCosts

/-- Locations in memory. Locations that were set are taken over by the next load that succeeds. -/
structure LocationMemory where
  locations : List Location
  pending : Option (List Location)
  changed : Bool
  failing : Bool

/-- Routes in memory. Routes that were set are there at once. -/
structure RouteMemory where
  routes : Routes
  changed : Bool
  failing : Bool

/-- Load the locations that were set, and say once whether they changed. -/
def LocationMemory.load (source : LocationMemory) : Except SourceError Bool × LocationMemory :=
  if source.failing then (.error (.listing .empty), source)
  else (.ok source.changed,
    { source with
      locations := source.pending.getD source.locations
      pending := none
      changed := false })

/-- Say once whether the routes changed. -/
def RouteMemory.load (source : RouteMemory) : Except SourceError Bool × RouteMemory :=
  if source.failing then (.error (.listing .empty), source)
  else (.ok source.changed, { source with changed := false })

instance : LocationSource LocationMemory Unit where
  load := fun source _ => source.load
  locations := LocationMemory.locations

instance : RouteSource RouteMemory Unit where
  load := fun source _ => source.load
  ask := fun source start asked => (source.routes.ofStart start, asked + 1)
  ask_eq := fun _ _ _ => rfl

end RouteCosts
