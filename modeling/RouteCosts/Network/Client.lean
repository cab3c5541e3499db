import RouteCosts.Network.Endpoint
import RouteCosts.Session.Conversation

/-!
# Clients

A client holds one connection at most. It dials a host on a network, runs any number of
conversations on the connection, and hangs up.
-/

namespace RouteCosts

/-- A network: what dialling an address gives. -/
structure Network where
  dial : SocketAddress → Except Fault Line

/-- The network on which nothing can be reached. -/
def Network.unreachable : Network := ⟨fun _ => .error .networkUnreachable⟩

/-- Why a client could not do what it was asked. -/
inductive ClientError where
  | fault (fault : Fault)
  | session (error : SessionError)
  | alreadyConnected
  | notConnected
  /-- The connection took too long to come about. -/
  | timeout
  deriving DecidableEq

/-- What is said about a client that failed. -/
def ClientError.message : ClientError → String
  | fault f => s!"IO error: {f.text}"
  | session error => s!"Session error: {error.message}"
  | alreadyConnected => "Already connected"
  | notConnected => "Not connected"
  | timeout => "Connection timeout"

/-- A client and its connection, if it has one. -/
structure Client where
  endpoint : Endpoint
  session : Option Session

namespace Client

/-- A client without connection. -/
def new (endpoint : Endpoint) : Client := ⟨endpoint, none⟩

/-- The error of a fault met in dialling. -/
def dialError (fault : Fault) : ClientError :=
  if fault.kind = .timedOut then .timeout else .fault fault

/-- Dial an address. Neither connecting nor reading can be done in no time. -/
def dial (network : Network) (endpoint : Endpoint) (address : SocketAddress) :
    Except ClientError Session :=
  match network.dial address with
  | .error fault => .error (dialError fault)
  | .ok line =>
    if endpoint.connectTimeout = 0 ∨ endpoint.readTimeout = some 0 then
      .error (.fault .zeroTimeout)
    else .ok (.new line none)

/-- Connect to a host on the port of the endpoint. -/
def connect (network : Network) (client : Client) (host : String) :
    Except ClientError SocketAddress × Client :=
  match client.session with
  | some _ => (.error .alreadyConnected, client)
  | none =>
    match resolveHost host client.endpoint.port with
    | .error fault => (.error (.fault fault), client)
    | .ok address =>
      match dial network client.endpoint address with
      | .error error => (.error error, client)
      | .ok session => (.ok address, { client with session := some session })

/-- Run a conversation that opens with a message. -/
def run {η : Type} (client : Client) (handler : Handler η) (opening : Message) (state : η) :
    Except ClientError Unit × Client × η :=
  match client.session with
  | none => (.error .notConnected, client, state)
  | some session =>
    let (result, session, state) := session.enquire handler opening state
    (result.mapError .session, { client with session := some session }, state)

/-- Hang up. -/
def disconnect (client : Client) : Except ClientError Unit × Client :=
  match client.session with
  | none => (.error .notConnected, client)
  | some _ => (.ok (), { client with session := none })

end Client

end RouteCosts
