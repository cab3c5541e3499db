import RouteCosts.Text.AsciiCase
import RouteCosts.Wire.Message

/-!
# Enquiries

What a client wants to know: whether the server is there, which locations it has, and, if a pair of
names was given, what the route between them costs. The enquiry opens with a status request, asks
for page after page until one is not marked or is empty, and then for the route, by the indices of
the names. Anything that it does not expect ends it.
-/

namespace RouteCosts

/-- What an enquiry is waiting for. -/
inductive Phase where
  | awaitingStatus
  | awaitingLocations
  | awaitingRoute
  | done
  deriving DecidableEq

/-- The name of a phase. -/
def Phase.name : Phase → String
  | awaitingStatus => "AwaitingStatus"
  | awaitingLocations => "AwaitingLocations"
  | awaitingRoute => "AwaitingRoute"
  | done => "Done"

/-- An enquiry and what it has learnt. -/
structure Enquiry where
  phase : Phase
  /-- The start and the end of the route to be priced. -/
  route : Option (String × String)
  /-- The names received, in order. -/
  locations : List String
  cost : Option UInt64
  deriving DecidableEq

namespace Enquiry

/-- An enquiry that has learnt nothing yet. -/
def new (route : Option (String × String)) : Enquiry := ⟨.awaitingStatus, route, [], none⟩

/-- The message that opens an enquiry. -/
def opening (now : Int64) : Message := .stamped now .statusRequest

/-- The index of the first location that has a name, up to ASCII case. -/
def indexOf? (enquiry : Enquiry) (name : String) : Option Nat :=
  enquiry.locations.findIdx? fun location => Text.sameIgnoringCase location name

/-- The request for the route, if one is wanted and both of its ends are listed. -/
def routeBody? (enquiry : Enquiry) : Option Body :=
  match enquiry.route with
  | none => none
  | some (start, finish) =>
    match enquiry.indexOf? start, enquiry.indexOf? finish with
    | some i, some j => some (.routeRequest (UInt64.ofNat i) (UInt64.ofNat j))
    | _, _ => none

/-- An enquiry that sends nothing more. -/
def finish (enquiry : Enquiry) : Enquiry := { enquiry with phase := .done }

/-- Take a page over, and ask for the next one or for the route. -/
def acceptPage (enquiry : Enquiry) (page : Page) : Option Body × Enquiry :=
  let enquiry := { enquiry with locations := enquiry.locations ++ page.names }
  if page.paginated && !page.names.isEmpty then
    (some (.locationsRequest (UInt64.ofNat enquiry.locations.length)), enquiry)
  else match enquiry.routeBody? with
    | some body => (some body, { enquiry with phase := .awaitingRoute })
    | none => (none, enquiry.finish)

/-- What a message that was received makes of an enquiry, and what is sent in return. -/
def accept (enquiry : Enquiry) (received : Body) : Option Body × Enquiry :=
  match enquiry.phase, received with
  | .awaitingStatus, .statusResponse =>
    (some (.locationsRequest 0), { enquiry with phase := .awaitingLocations })
  | .awaitingLocations, .locationsResponse page => enquiry.acceptPage page
  | .awaitingRoute, .routeResponse cost => (none, { enquiry with cost := some cost }.finish)
  | _, _ => (none, enquiry.finish)

/-- The message sent in return for one that was received, if the enquiry goes on. -/
def answer (now : Int64) (enquiry : Enquiry) (received : Message) : Option Message × Enquiry :=
  let (body, enquiry) := enquiry.accept received.body
  (body.map (.stamped now), enquiry)

end Enquiry

end RouteCosts
