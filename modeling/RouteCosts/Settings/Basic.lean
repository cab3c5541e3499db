import RouteCosts.Network.Endpoint

/-!
# Settings

What can be set once for all runs of the program. What a command says goes before it.
-/

namespace RouteCosts

/-- The settings of the program. -/
structure Settings where
  /-- Tell more about what is going on. -/
  verbose : Bool
  /-- The port to listen on or to connect to. -/
  port : UInt16
  /-- The address a server listens on. -/
  bindAddress : String
  /-- How many milliseconds a connection may take to come about. -/
  connectTimeout : UInt64
  /-- How many milliseconds a read may take; any number if there is none. -/
  readTimeout : Option UInt64
  /-- The path of the file of locations. -/
  locations : Option String
  /-- The path of the file of routes. -/
  routes : Option String
  deriving DecidableEq

namespace Settings

/-- The settings when nothing is said. -/
def standard : Settings where
  verbose := false
  port := Endpoint.standard.port
  bindAddress := Endpoint.standard.bindAddress
  connectTimeout := Endpoint.standard.connectTimeout
  readTimeout := Endpoint.standard.readTimeout
  locations := none
  routes := none

/-- Settings to begin with, in which everything is said. -/
def sample : Settings :=
  { standard with
    readTimeout := some 30000
    locations := some "data/locations.csv"
    routes := some "data/routes.csv" }

/-- The endpoint that the settings describe; a port that is given goes before theirs. -/
def endpoint (settings : Settings) (port : Option UInt16) : Endpoint where
  port := port.getD settings.port
  bindAddress := settings.bindAddress
  connectTimeout := settings.connectTimeout
  readTimeout := settings.readTimeout

end Settings

end RouteCosts
