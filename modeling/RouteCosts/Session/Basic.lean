import RouteCosts.Session.Line
import RouteCosts.Wire.Framer

/-!
# Sessions

A session is one end of a line, on which messages are sent and received. Bytes that were read past
the end of a message are kept (`pending`) and come first when the next message is looked for.
Everything sent and received is counted.

A message is received by feeding a new framer with the pending bytes and then with one read after
the other. The blocking session (`wait`) repeats a read that was interrupted; the cooperative one
(`receive`) does not, but allows each read only a limited time, and takes the end of the stream
between two messages for the end of the conversation.
-/

namespace RouteCosts

/-- Why no message could be received or sent. -/
inductive SessionError where
  | transport (fault : Fault)
  | protocol (error : FrameError)
  /-- The stream ended where a message was expected. -/
  | closed
  deriving DecidableEq

/-- What is said about a session that failed. -/
def SessionError.message : SessionError → String
  | transport fault => s!"Transport error: {fault.text}"
  | protocol error => s!"Protocol error: {error.message}"
  | closed => "Connection closed"

/-- What was sent and received so far. The counts are whole numbers without a bound; counts of 64 bits
are the same as long as they stay below `2 ^ 64`, which no session comes near. -/
structure Stats where
  messagesSent : Nat
  messagesReceived : Nat
  bytesSent : Nat
  bytesReceived : Nat
  deriving DecidableEq

/-- One end of a line. -/
structure Session where
  line : Line
  /-- Bytes read past the end of the last message. -/
  pending : List UInt8
  /-- How many milliseconds a cooperative read may take; any number if there is none. -/
  patience : Option Nat
  stats : Stats
  deriving DecidableEq

/-- What became of a chunk of bytes. -/
inductive Accepted where
  /-- The message is not complete yet. -/
  | more (framer : Framer)
  | message (message : Message)
  | refused (error : FrameError)
  deriving DecidableEq

namespace Session

/-- The session at the start of a line. -/
def new (line : Line) (patience : Option Nat) : Session := ⟨line, [], patience, ⟨0, 0, 0, 0⟩⟩

/-- Feed a chunk to a framer. What lies past the end of a message is kept. -/
def accept (session : Session) (framer : Framer) (chunk : List UInt8) : Accepted × Session :=
  match framer.feed chunk with
  | (.incomplete, framer) => (.more framer, session)
  | (.rejected error, _) => (.refused error, session)
  | (.complete consumed, framer) =>
    let session := { session with pending := session.pending ++ chunk.drop consumed }
    match framer.take? with
    | none => (.more framer, session)
    | some (message, _) =>
      let stats := session.stats
      (.message message,
        { session with stats := { stats with messagesReceived := stats.messagesReceived + 1 } })

/-- Feed what is pending to a new framer. -/
def replay (session : Session) : Accepted × Session :=
  if session.pending.isEmpty then (.more .new, session)
  else { session with pending := [] }.accept .new session.pending

/-- The session when the reads that are left are these. -/
def withArrivals (session : Session) (arrivals : List Arrival) : Session :=
  { session with line := { session.line with arrivals := arrivals } }

/-- Count bytes that were read. -/
def countRead (session : Session) (chunk : List UInt8) : Session :=
  let stats := session.stats
  { session with stats := { stats with bytesReceived := stats.bytesReceived + chunk.length } }

/-- Count a message that was sent. -/
def countSent (session : Session) (length : Nat) : Session :=
  let stats := session.stats
  { session with
    stats := { stats with
      messagesSent := stats.messagesSent + 1
      bytesSent := stats.bytesSent + length } }

/-! ### Blocking -/

/-- Read until the framer has a message. A read that was interrupted is repeated, and one that would
have to wait any longer has taken too long. -/
def waitFrom (session : Session) (framer : Framer) :
    List Arrival → Except SessionError Message × Session
  | [] => (.error .closed, session.withArrivals [])
  | .stall _ :: rest => waitFrom session framer rest
  | .failure fault :: rest =>
    if fault.kind = .interrupted then waitFrom session framer rest
    else if fault.kind = .wouldBlock then
      (.error (.transport .readTimedOut), session.withArrivals rest)
    else (.error (.transport fault), session.withArrivals rest)
  | .data [] :: rest => (.error .closed, session.withArrivals rest)
  | .data (byte :: bytes) :: rest =>
    let chunk := byte :: bytes
    match (session.countRead chunk).accept framer chunk with
    | (.more framer, session) => waitFrom session framer rest
    | (.message message, session) => (.ok message, session.withArrivals rest)
    | (.refused error, session) => (.error (.protocol error), session.withArrivals rest)

/-- Wait for a message. -/
def wait (session : Session) : Except SessionError Message × Session :=
  match session.replay with
  | (.message message, session) => (.ok message, session)
  | (.refused error, session) => (.error (.protocol error), session)
  | (.more framer, session) => waitFrom session framer session.line.arrivals

/-! ### Cooperative -/

/-- Read until the framer has a message. `left` is the time that the present read may still take.
A stall that is cut short goes on in the next read. -/
def receiveFrom (session : Session) (framer : Framer) (left : Option Nat) :
    List Arrival → Except SessionError (Option Message) × Session
  | [] =>
    (if framer.fed = 0 then .ok none else .error .closed, session.withArrivals [])
  | .stall delay :: rest =>
    match left with
    | none => receiveFrom session framer none rest
    | some time =>
      if time < delay then
        (.error (.transport .readTimedOut),
          session.withArrivals (.stall (delay - time) :: rest))
      else receiveFrom session framer (some (time - delay)) rest
  | .failure fault :: rest => (.error (.transport fault), session.withArrivals rest)
  | .data [] :: rest =>
    (if framer.fed = 0 then .ok none else .error .closed, session.withArrivals rest)
  | .data (byte :: bytes) :: rest =>
    let chunk := byte :: bytes
    match (session.countRead chunk).accept framer chunk with
    | (.more framer, session) => receiveFrom session framer session.patience rest
    | (.message message, session) => (.ok (some message), session.withArrivals rest)
    | (.refused error, session) => (.error (.protocol error), session.withArrivals rest)

/-- Receive a message, or nothing if the stream ends before its first byte. -/
def receive (session : Session) : Except SessionError (Option Message) × Session :=
  match session.replay with
  | (.message message, session) => (.ok (some message), session)
  | (.refused error, session) => (.error (.protocol error), session)
  | (.more framer, session) =>
    receiveFrom session framer session.patience session.line.arrivals

/-! ### Sending -/

/-- Send a message. The answer is the number of bytes that were sent. -/
def send (writer : Writer) (session : Session) (message : Message) :
    Except SessionError Nat × Session :=
  let bytes := message.encode
  let (fault, line) := writer.send session.line bytes
  let session := { session with line := line }
  match fault with
  | some fault => (.error (.transport fault), session)
  | none => (.ok bytes.length, session.countSent bytes.length)

end Session

end RouteCosts
