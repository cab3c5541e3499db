import RouteCosts.Command.Listener
import RouteCosts.Command.Query
import RouteCosts.Outside.Disk
import Std.Async.Select
import Std.Async.Signal
import Std.Async.TCP
import Std.Async.Timer
import Std.Time.DateTime.Timestamp

/-!
# The network of the machine

Sessions run on sockets here. They make the rounds of every conversation (`Conduct.round`); only the
bytes come from the machine and go to it. A session that runs out of bytes is set back to where it
was, and tries again when there are more; what it writes goes out at once.
-/

namespace RouteCosts.Sockets

open Std.Async

/-- The time in seconds. -/
def now : IO Int64 := do return Int64.ofInt (← Std.Time.Timestamp.now).toSecondsSinceUnixEpoch.val

/-- An address as sockets want it. -/
def toNet (address : SocketAddress) : Std.Net.SocketAddress :=
  match address.host with
  | .v4 octets => .v4 ⟨⟨.ofFn fun i => octets.getD i 0⟩, address.port⟩
  | .v6 groups => .v6 ⟨⟨.ofFn fun i => groups.getD i 0⟩, address.port⟩

/-- An address that a socket gave. -/
def ofNet : Std.Net.SocketAddress → SocketAddress
  | .v4 address => ⟨.v4 address.addr.octets.toList, address.port⟩
  | .v6 address => ⟨.v6 address.addr.segments.toList, address.port⟩

/-- Stands for bytes that may still come. -/
def notYet : Fault := ⟨.other, "nothing has come yet"⟩

/-- Some milliseconds from now. -/
def after (ms : UInt64) : Async (Selector Unit) := Selector.sleep ⟨ms.toNat⟩

/-- What a chunk that was read brings; no chunk is the end of the stream. -/
def arrivalOf : Option ByteArray → Arrival
  | some bytes => .data bytes.toList
  | none => .data []

/-- Read once. -/
def read (socket : TCP.Socket.Client) (patience : Option UInt64) : Async Arrival := do
  let size := UInt64.ofNat Kind.maxLength
  try
    match patience with
    | none => return arrivalOf (← socket.recv? size)
    | some ms =>
      let enough ← after ms
      Selectable.one #[
        .case (socket.recvSelector size) fun chunk => return arrivalOf chunk,
        .case enough fun () => return .failure .readTimedOut]
  catch error => return .failure (Disk.faultOf error)

/-- Look for the next message of a session, and read whenever it has too few bytes for it. -/
partial def advance (more : Async Arrival) (writer : Writer) (session : Session) :
    Async (Except (Except SessionError Unit) Message × Session) := do
  let arrivals := session.line.arrivals
  let (result, later) := (session.withArrivals (arrivals ++ [.failure notYet])).next writer
  let isShort := match result with
    | .error (.error (.transport fault)) => fault == notYet
    | _ => false
  if isShort then advance more writer (session.withArrivals (arrivals ++ [← more]))
  else return (result, later.withArrivals later.line.arrivals.dropLast)

/-- Send a message. -/
def transmit (socket : TCP.Socket.Client) (writer : Writer) (session : Session)
    (message : Message) : Async (Except SessionError Unit × Session) := do
  let before := { session with line := { session.line with written := [] } }
  match before.send writer message with
  | (.error error, later) => return (.error error, later)
  | (.ok _, later) =>
    try
      socket.send ⟨later.line.written.toArray⟩
      return (.ok (), later)
    catch error => return (.error (.transport (Disk.faultOf error)), session)

/-- How a session on a socket conducts a conversation. -/
def conduct (socket : TCP.Socket.Client) (patience : Option UInt64) (writer : Writer)
    (session : Session) (answer : Message → IO (Option Message)) : IO (Conduct Async) := do
  let state ← IO.mkRef session
  return {
    next := do
      let (message, session) ← advance (read socket patience) writer (← state.get)
      state.set session
      return message
    handle := fun message => answer message
    send := fun message => do
      let (sent, session) ← transmit socket writer (← state.get) message
      state.set session
      return sent }

/-- Make rounds until one is the last. -/
partial def converse (conduct : Conduct Async) : Async (Except SessionError Unit) := do
  match ← conduct.round with
  | some result => return result
  | none => converse conduct

/-! ### Servers -/

/-- Answer a message with what the files say now. -/
def reply (tree : FileTree) (listener : Listener) (planner : IO.Ref FilePlanner)
    (message : Message) : IO (Option Message) := do
  let tree ← Disk.look (← Disk.look tree listener.locations) listener.routes
  let time ← now
  planner.modifyGet fun p => Service.answer time (listener.files tree) p message

/-- Accept connections until the program is interrupted. -/
partial def accept (server : TCP.Socket.Server) (interrupt : Signal.Waiter)
    (serve : TCP.Socket.Client → Async Unit) : Async Unit := do
  let socket ← Selectable.one #[
    .case server.acceptSelector fun socket => return some socket,
    .case interrupt.selector fun () => return none]
  match socket with
  | none => return
  | some socket =>
    background (serve socket)
    accept server interrupt serve

/-- Listen on an address until the program is interrupted, after telling the address. -/
def listen (tree : FileTree) (listener : Listener) (address : SocketAddress)
    (tell : SocketAddress → IO Unit) : Async Unit := do
  let server ← TCP.Socket.Server.mk
  server.bind (toNet address)
  server.listen 1024
  let planner ← IO.mkRef listener.planner
  let interrupt ← Signal.Waiter.mk .sigint false
  tell (ofNet (← server.getSockName))
  accept server interrupt fun socket => do
    try
      socket.noDelay
      let _ ← converse (← conduct socket listener.endpoint.readTimeout .cooperative
        (.new (.new Kind.maxLength [] []) none) (reply tree listener planner))
      socket.shutdown
    catch _ => return

/-! ### Clients -/

/-- Connect to an address within some milliseconds. -/
def dial (socket : TCP.Socket.Client) (address : SocketAddress) (timeout : UInt64) :
    Async (Except Fault Line) := do
  let connected : Async (Except Fault Line) := do
    try
      socket.connect (toNet address)
      socket.noDelay
      return .ok (.new Kind.maxLength [] [])
    catch error => return .error (Disk.faultOf error)
  if timeout = 0 then connected
  else
    let tooLate : Fault := ⟨.timedOut, "connection timed out"⟩
    let late : Async (Except Fault Line) := do
      Selectable.one #[.case (← after timeout) fun () => return .error tooLate]
    let _ : Inhabited (Except Fault Line) := ⟨.error tooLate⟩
    Async.race connected late

/-- Ask a server. -/
def ask (options : ClientOptions) (settings : Settings) : Async (Except ClientError Enquiry) := do
  let endpoint := settings.endpoint options.port
  let socket ← TCP.Socket.Client.mk
  let dialled ← match resolveHost options.host endpoint.port with
    | .ok address => dial socket address endpoint.connectTimeout
    | .error fault => pure (.error fault)
  match (Client.new endpoint).connect ⟨fun _ => dialled⟩ options.host with
  | (.error error, _) => return .error error
  | (.ok _, client) =>
    match client.session with
    | none => return .error .notConnected
    | some session =>
      let enquiry ← IO.mkRef (Enquiry.new options.route)
      let conduct ← conduct socket endpoint.readTimeout .blocking session fun message => do
        let time ← now
        enquiry.modifyGet fun e => e.answer time message
      match ← conduct.lead (Enquiry.opening (← now)) (converse conduct) with
      | .error error => return .error (.session error)
      | .ok () => return .ok (← enquiry.get)

end RouteCosts.Sockets
