/-!
# The kinds of message

Client and server exchange seven kinds of message. Each kind has a number of its own on the wire and
a body of fixed size, which follows a header of sixteen bytes.
-/

namespace RouteCosts

/-- The bytes a header takes: number (4), length (4), time of creation (8). -/
def headerSize : Nat := 16

/-- How many bytes of names a page of locations holds. -/
def pageCapacity : Nat := 100

/-- The port of a server that is not told otherwise. -/
def defaultPort : UInt16 := 8080

/-- What a message is about. -/
inductive Kind where
  | header
  | statusRequest
  | statusResponse
  | locationsRequest
  | locationsResponse
  | routeRequest
  | routeResponse
  deriving DecidableEq, Repr

namespace Kind

/-- All kinds, in the order of their numbers. -/
def all : List Kind :=
  [header, statusRequest, statusResponse, locationsRequest, locationsResponse, routeRequest,
    routeResponse]

/-- The number of a kind on the wire. -/
def id : Kind → UInt32
  | header => 100
  | statusRequest => 101
  | statusResponse => 102
  | locationsRequest => 103
  | locationsResponse => 104
  | routeRequest => 105
  | routeResponse => 106

/-- The kind with a given number. -/
def ofId? (number : UInt32) : Option Kind := all.find? fun kind => kind.id == number

/-- The name of a kind. -/
def name : Kind → String
  | header => "Header"
  | statusRequest => "StatusRequest"
  | statusResponse => "StatusResponse"
  | locationsRequest => "LocationsRequest"
  | locationsResponse => "LocationsResponse"
  | routeRequest => "RouteRequest"
  | routeResponse => "RouteResponse"

/-- The bytes of the body. -/
def bodySize : Kind → Nat
  | header | statusRequest | statusResponse => 0
  | locationsRequest | routeResponse => 8
  | routeRequest => 16
  | locationsResponse => 8 + pageCapacity + 1

/-- The bytes of a whole message. -/
def length (kind : Kind) : Nat := headerSize + kind.bodySize

/-- The bytes of the longest message. -/
def maxLength : Nat := (all.map length).foldl max 0

theorem mem_all (kind : Kind) : kind ∈ all := by cases kind <;> decide

theorem ofId?_id (kind : Kind) : ofId? kind.id = some kind := by cases kind <;> rfl

theorem id_of_ofId?_eq_some {number : UInt32} {kind : Kind} (h : ofId? number = some kind) :
    kind.id = number := by
  simpa using List.find?_some h

/-- No two kinds share a number. -/
theorem id_injective {k l : Kind} (h : k.id = l.id) : k = l := by
  have := ofId?_id k
  rw [h, ofId?_id l] at this
  exact (Option.some.inj this).symm

theorem headerSize_le_length (kind : Kind) : headerSize ≤ kind.length := Nat.le_add_right _ _

theorem length_le_maxLength (kind : Kind) : kind.length ≤ maxLength := by cases kind <;> decide

theorem maxLength_eq : maxLength = 125 := rfl

end Kind

end RouteCosts
