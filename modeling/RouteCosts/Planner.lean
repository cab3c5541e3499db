import RouteCosts.Graph.LeastCost
import RouteCosts.Source.File

/-!
# Planning routes on data that may change

A planner keeps the graph that it wired last. `refresh` lets both sources load and wires anew if
either of them changed, asking the source of routes once for every location; a source that fails to
load counts as unchanged. Questions by name are answered on a fresh graph, questions by index on the
graph that is there.
-/

namespace RouteCosts

/-- Two sources and the graph that was wired from them last. -/
structure Planner (σ τ : Type) where
  locationSource : σ
  routeSource : τ
  graph : Graph
  /-- How often the source of routes was asked. -/
  lookups : Nat

namespace Planner

variable {σ τ ε ζ : Type} [LocationSource σ ε] [RouteSource τ ζ]

/-- A planner that has not loaded anything yet. -/
def new (locationSource : σ) (routeSource : τ) : Planner σ τ :=
  ⟨locationSource, routeSource, .empty, 0⟩

/-- Wire the graph from the data that the sources hold. -/
def rewire (planner : Planner σ τ) : Planner σ τ :=
  let locations := LocationSource.locations planner.locationSource
  let (graph, lookups) :=
    Graph.wireAsking locations (RouteSource.ask planner.routeSource) planner.lookups
  { planner with graph := graph, lookups := lookups }

/-- Load both sources, and wire the graph anew if either changed. -/
def refresh (planner : Planner σ τ) (outside : ε × ζ) : Planner σ τ :=
  let locations := LocationSource.load planner.locationSource outside.1
  let routes := RouteSource.load planner.routeSource outside.2
  let loaded := { planner with locationSource := locations.2, routeSource := routes.2 }
  if changed locations.1 || changed routes.1 then loaded.rewire else loaded

/-- The least cost between two places given by name, on a fresh graph. -/
def costByName (planner : Planner σ τ) (outside : ε × ζ) (start finish : String) :
    Except RouteError Nat × Planner σ τ :=
  let planner := planner.refresh outside
  (planner.graph.costByName start finish, planner)

end Planner

/-- The states of the file of locations and of the file of routes. -/
abbrev DataFiles := FileState × FileState

/-- A planner whose sources are files. -/
abbrev FilePlanner := Planner LocationFile RouteFile

/-- A planner on files that were not loaded yet. -/
def FilePlanner.new : FilePlanner := Planner.new LocationFile.new RouteFile.new

end RouteCosts
