import RouteCosts.Fault
import RouteCosts.Network.Address
import RouteCosts.Wire.Kind

/-!
# Endpoints

Where a server listens or a client connects to, and how long things may take.
-/

namespace RouteCosts

/-- The settings of one end of a connection. -/
structure Endpoint where
  port : UInt16
  /-- The address a server listens on. -/
  bindAddress : String
  /-- How many milliseconds a connection may take to come about. -/
  connectTimeout : UInt64
  /-- How many milliseconds a read may take; any number if there is none. -/
  readTimeout : Option UInt64
  deriving DecidableEq

namespace Endpoint

/-- The endpoint on a port, with all else as it is when nothing is said. -/
def onPort (port : UInt16) : Endpoint := ⟨port, "0.0.0.0", 5000, none⟩

/-- The endpoint when nothing is said. -/
def standard : Endpoint := onPort defaultPort

/-- The text of the address to listen on. -/
def bindText (endpoint : Endpoint) : String :=
  s!"{endpoint.bindAddress}:{endpoint.port.toNat}"

/-- The text of an address between brackets. -/
def unbracket (text : String) : String :=
  match text.toList with
  | '[' :: rest =>
    match rest.reverse with
    | ']' :: inner => String.ofList inner.reverse
    | _ => text
  | _ => text

/-- The address to listen on. -/
def bindSocket? (endpoint : Endpoint) : Option SocketAddress :=
  (HostAddress.ofText? (unbracket endpoint.bindAddress)).map fun host => ⟨host, endpoint.port⟩

end Endpoint

/-- The address of a port on a host. Hosts are known by their addresses alone. -/
def resolveHost (host : String) (port : UInt16) : Except Fault SocketAddress :=
  match HostAddress.ofText? host with
  | some address => .ok ⟨address, port⟩
  | none => .error .unknownHost

end RouteCosts
