import RouteCosts.Command.Line
import RouteCosts.Command.Outcome
import RouteCosts.Network.Server
import RouteCosts.Settings.Store

/-!
# Starting a server

A server needs a file of locations and a file of routes, named in its command or in the settings. It
starts if there is at least one location, and listens until it is interrupted.
-/

namespace RouteCosts

/-- A server about to listen. -/
structure Listener where
  endpoint : Endpoint
  locations : String
  routes : String
  planner : FilePlanner

namespace Listener

/-- The states of the files that a server reads. -/
def files (listener : Listener) (tree : FileTree) : DataFiles :=
  (tree.look listener.locations, tree.look listener.routes)

/-- Start a server: the server, or the reason why there is none. -/
def start (tree : FileTree) (settings : Settings) (options : ServerOptions) :
    Except String Listener :=
  match options.locations <|> settings.locations, options.routes <|> settings.routes with
  | none, _ => .error "No locations file given; use --locations or set data.locations"
  | _, none => .error "No routes file given; use --routes or set data.routes"
  | some locations, some routes =>
    let endpoint := settings.endpoint options.port
    let listener : Listener :=
      { endpoint := { endpoint with
          bindAddress := options.bindAddress.getD endpoint.bindAddress }
        locations := locations
        routes := routes
        planner := FilePlanner.new.refresh (tree.look locations, tree.look routes) }
    if listener.planner.graph.size = 0 then
      .error s!"No locations loaded from {locations} and {routes}"
    else .ok listener

/-- What is said about an address that cannot be listened on. -/
def bindError (listener : Listener) (fault : Fault) : String :=
  s!"Bind failed: Failed to bind to {listener.endpoint.bindText}: {fault.text}"

/-- The address to listen on. -/
def socket (listener : Listener) : Except String SocketAddress :=
  match listener.endpoint.bindSocket? with
  | some address => .ok address
  | none => .error (listener.bindError .unknownHost)

/-- What a server prints when it listens on an address. -/
def banner (listener : Listener) (address : String) : String :=
  let rule := "========================================\n"
  "\n" ++ rule ++ "  Waypoint Server Running\n" ++ rule ++
    s!"  Address: {address}\n" ++
    s!"  Locations: {listener.locations} ({listener.planner.graph.size})\n" ++
    s!"  Routes: {listener.routes}\n" ++ rule ++ "\nPress Ctrl+C to stop.\n\n"

/-- What a server prints when it is interrupted. -/
def farewell : String := "\nShutting down...\n"

/-- The outcome of a server that listened on an address until it was interrupted. -/
def interrupted (listener : Listener) (tree : FileTree) (address : String) : Outcome :=
  .printing tree (listener.banner address ++ farewell)

end Listener

end RouteCosts
