import RouteCosts.Graph.Wiring

/-!
# The least cost of a route

Costs belong to locations: a route costs the sum of the costs of all the places on it, its start and
its end included. The search settles one place after the other, always the cheapest that is known
and not settled, and offers its cost plus that of the destination to every place one move away. The
cost of the start is paid once, at the very end.
-/

namespace RouteCosts

/-- Why two places have no cost. -/
inductive RouteError where
  /-- No such location. -/
  | unknown (name : String)
  /-- The end can not be reached from the start. -/
  | unreachable (start finish : String)
  deriving DecidableEq

/-- What is said about a route without cost. -/
def RouteError.message : RouteError → String
  | unknown name => s!"Unknown location: {name}"
  | unreachable start finish => s!"No route from {start} to {finish}"

/-- How far a search has got: the cheapest cost known of each place, its start not counted, and
which places are settled. -/
structure Search where
  costs : Array (Option Nat)
  settled : Array Bool
  deriving DecidableEq

namespace Search

/-- The search before its first step: only the start is known, and costs nothing so far. -/
def start (count index : Nat) : Search where
  costs := (Array.replicate count none).setIfInBounds index (some 0)
  settled := Array.replicate count false

/-- The cost known of a place. -/
def cost? (search : Search) (index : Nat) : Option Nat := (search.costs[index]?).join

/-- A place is settled. -/
def isSettled (search : Search) (index : Nat) : Bool := search.settled[index]?.getD true

/-- Of the first `count` places, the cheapest that is known and not settled; the first of equals. -/
def cheapest? (search : Search) : Nat → Option (Nat × Nat)
  | 0 => none
  | index + 1 =>
    let best := search.cheapest? index
    if search.isSettled index then best
    else match search.cost? index, best with
      | none, _ => best
      | some cost, none => some (index, cost)
      | some cost, some (_, least) => if cost < least then some (index, cost) else best

/-- Offer a cost to a place. It is taken if it is less than what is known. -/
def offer (costs : Array (Option Nat)) (index cost : Nat) : Array (Option Nat) :=
  match costs[index]? with
  | some (some known) => if cost < known then costs.setIfInBounds index (some cost) else costs
  | some none => costs.setIfInBounds index (some cost)
  | none => costs

/-- The cost of visiting a place. -/
def visit (graph : Graph) (index : Nat) : Nat :=
  match graph.locations[index]? with
  | some location => location.cost.toNat
  | none => 0

/-- The places one move away from a place. -/
def neighbours (graph : Graph) (index : Nat) : List Nat :=
  match graph.locations[index]? with
  | some location => location.destinations.map Prod.snd
  | none => []

/-- Mark a place as settled. -/
def settle (search : Search) (index : Nat) : Search :=
  { search with settled := search.settled.setIfInBounds index true }

/-- Offer to every place one move away the cost of going there. -/
def spread (graph : Graph) (search : Search) (index base : Nat) : Search :=
  { search with
    costs := (neighbours graph index).foldl
      (fun costs next => offer costs next (base + visit graph next)) search.costs }

/-- Settle at most `fuel` places, and none after the goal. -/
def run (graph : Graph) (goal : Nat) : Nat → Search → Search
  | 0, search => search
  | fuel + 1, search =>
    match search.cheapest? graph.size with
    | none => search
    | some (index, base) =>
      let search := search.settle index
      if index = goal then search else run graph goal fuel (search.spread graph index base)

end Search

namespace Graph

/-- The least cost of a route between two places given by index. As many steps as there are other
places are enough. -/
def cost (graph : Graph) (start finish : Nat) : Except RouteError Nat :=
  match graph.locations[start]?, graph.locations[finish]? with
  | some first, some last =>
    let search := Search.run graph finish (graph.size - 1) (Search.start graph.size start)
    match search.cost? finish with
    | some cost => .ok (cost + first.cost.toNat)
    | none => .error (.unreachable first.name last.name)
  | none, _ => .error (.unknown s!"#{start}")
  | some _, none => .error (.unknown s!"#{finish}")

/-- The least cost of a route between two places given by name. -/
def costByName (graph : Graph) (start finish : String) : Except RouteError Nat :=
  match graph.resolve? start, graph.resolve? finish with
  | some i, some j => graph.cost i j
  | none, _ => .error (.unknown start)
  | some _, none => .error (.unknown finish)

end Graph

end RouteCosts
