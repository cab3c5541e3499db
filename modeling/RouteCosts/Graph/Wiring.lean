import RouteCosts.Graph.Location

/-!
# Wiring locations into a graph

Routes name their destinations. `wire` turns the names into indices: a name stands for the last
location that bears it, a name that no location bears is dropped, and a destination named twice is
wired once. What a location was wired to before is forgotten.
-/

namespace RouteCosts

/-- Locations with destinations among themselves, and where each name stands among them. -/
structure Graph where
  locations : Array Location
  index : List (String × Nat)
  deriving DecidableEq

namespace Graph

/-- The graph without locations. -/
def empty : Graph := ⟨#[], []⟩

/-- The number of locations. -/
def size (graph : Graph) : Nat := graph.locations.size

/-- The names in order. -/
def names (graph : Graph) : List String := graph.locations.toList.map Location.name

/-- The index that a name stands for. -/
def resolve? (graph : Graph) (name : String) : Option Nat := graph.index.lookup name

/-- Wire one more route of a location, unless it is wired already or leads nowhere. -/
def wireRoute (index : List (String × Nat)) (location : Location) (name : String) : Location :=
  if (location.destination? name).isSome then location
  else match index.lookup name with
    | some place => location.addDestination name place
    | none => location

/-- A location wired to the destinations that its routes name. -/
def wireLocation (index : List (String × Nat)) (routes : List String) (location : Location) :
    Location :=
  routes.foldl (wireRoute index) location.clear

/-- The graph of some locations, with the routes from each name. -/
def wire (locations : List Location) (routes : String → List String) : Graph :=
  let index := Location.positions locations
  ⟨(locations.map fun l => wireLocation index (routes l.name) l).toArray, index⟩

@[simp]
theorem size_wire (locations : List Location) (routes : String → List String) :
    (wire locations routes).size = locations.length := by
  simp [wire, size]

/-- Wire the graph of some locations, asking for the routes from each name in turn. -/
def wireAsking {m : Type → Type} [Monad m] (locations : List Location)
    (ask : String → m (List String)) : m Graph := do
  let index := Location.positions locations
  let wired ← locations.mapM fun l => return wireLocation index (← ask l.name) l
  return ⟨wired.toArray, index⟩

section Counted
variable {ask : String → StateM Nat (List String)} {routes : String → List String}
  (h : ∀ start asked, ask start asked = (routes start, asked + 1))
include h

theorem mapM_wireLocation (index : List (String × Nat)) (locations : List Location) (asked : Nat) :
    (locations.mapM fun l => return wireLocation index (← ask l.name) l : StateM Nat _) asked =
      (locations.map fun l => wireLocation index (routes l.name) l, asked + locations.length) := by
  induction locations generalizing asked with
  | nil => rfl
  | cons location locations ih =>
    rw [List.mapM_cons]
    simp only [bind, StateT.bind, h]
    rw [List.length_cons, Nat.add_comm locations.length, ← Nat.add_assoc]
    exact congrArg (fun run : List Location × Nat => (wireLocation index (routes location.name)
      location :: run.1, run.2)) (ih (asked + 1))

/-- When every question is counted, there is one for each location. -/
theorem wireAsking_counted (locations : List Location) (asked : Nat) :
    wireAsking locations ask asked = (wire locations routes, asked + locations.length) :=
  congrArg (fun run : List Location × Nat =>
      ((⟨run.1.toArray, Location.positions locations⟩ : Graph), run.2))
    (mapM_wireLocation h (Location.positions locations) locations asked)

end Counted

end Graph

end RouteCosts
