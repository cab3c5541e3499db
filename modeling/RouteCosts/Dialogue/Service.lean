import RouteCosts.Planner
import RouteCosts.Wire.Message

/-!
# Answering requests

A server answers three requests: whether it is there, which locations there are, page by page, and
what the route between two of them costs. Every answer is given on fresh data. A request that can
not be answered gets no answer, and the reason stays on the server.
-/

namespace RouteCosts

/-- Why a request gets no answer. -/
inductive RequestError where
  /-- An index beyond the locations there are. -/
  | outOfRange (index : UInt64) (count : Nat)
  | route (error : RouteError)
  /-- A message that is not a request, by the number in its header. -/
  | unexpected (id : UInt32)
  deriving DecidableEq

/-- What is said about a request without answer. -/
def RequestError.message : RequestError → String
  | outOfRange index count => s!"Index {index.toNat} out of range for {count} location(s)"
  | route error => s!"Route error: {error.message}"
  | unexpected id => s!"Unexpected message type: {id.toNat}"

namespace Service

variable {σ τ ε ζ : Type} [LocationSource σ ε] [RouteSource τ ζ]

/-- The page of names from an index on. The index just past the last name gives an empty page. -/
def pageOf (names : List String) (start : UInt64) : Except RequestError Page :=
  if start.toNat ≤ names.length then .ok (Page.empty.addAll (names.drop start.toNat))
  else .error (.outOfRange start names.length)

/-- The cost between two locations given by index. -/
def costOf (graph : Graph) (start finish : UInt64) : Except RequestError UInt64 :=
  if start.toNat < graph.size then
    if finish.toNat < graph.size then
      match graph.cost start.toNat finish.toNat with
      | .ok cost => .ok (UInt64.ofNat cost)
      | .error error => .error (.route error)
    else .error (.outOfRange finish graph.size)
  else .error (.outOfRange start graph.size)

/-- Answer a request for names. -/
def page (now : Int64) (outside : ε × ζ) (planner : Planner σ τ) (start : UInt64) :
    Except RequestError Message × Planner σ τ :=
  let planner := planner.refresh outside
  ((pageOf planner.graph.names start).map fun p => .stamped now (.locationsResponse p), planner)

/-- Answer a request for a cost. -/
def route (now : Int64) (outside : ε × ζ) (planner : Planner σ τ) (start finish : UInt64) :
    Except RequestError Message × Planner σ τ :=
  let planner := planner.refresh outside
  ((costOf planner.graph start finish).map fun c => .stamped now (.routeResponse c), planner)

/-- Answer a message, or say why there is no answer. -/
def respond (now : Int64) (outside : ε × ζ) (planner : Planner σ τ) (request : Message) :
    Except RequestError Message × Planner σ τ :=
  match request.body with
  | .statusRequest => (.ok (.stamped now .statusResponse), planner)
  | .locationsRequest start => page now outside planner start
  | .routeRequest start finish => route now outside planner start finish
  | _ => (.error (.unexpected request.header.id), planner)

/-- Answer a message, if it can be answered. -/
def answer (now : Int64) (outside : ε × ζ) (planner : Planner σ τ) (request : Message) :
    Option Message × Planner σ τ :=
  let (result, planner) := respond now outside planner request
  (result.toOption, planner)

end Service

end RouteCosts
