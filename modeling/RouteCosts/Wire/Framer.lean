import RouteCosts.Wire.Message

/-!
# Finding a message in a stream of bytes

Bytes arrive in chunks of any size. A framer holds them back until they make up one message: sixteen
bytes give the header, the header gives the kind, and the kind gives the length that has to arrive.
A header of no known kind, or of a length that is not its kind's, can never become a message, and
the framer refuses everything from then on. A complete message stays until it is taken, and the
framer is then as new.
-/

namespace RouteCosts

/-- Why bytes can not be the start of a message. -/
inductive FrameError where
  /-- No kind has this number. -/
  | unknownKind (id : UInt32)
  /-- The length in the header is not that of its kind. -/
  | lengthMismatch (id : UInt32) (declared expected : Nat)
  deriving DecidableEq

/-- What is said about a refused header. -/
def FrameError.message : FrameError → String
  | unknownKind id => s!"Unknown message type: {id.toNat}"
  | lengthMismatch id declared expected =>
    s!"Length mismatch for message {id.toNat}: declared {declared} bytes, expected {expected}"

/-- How far a framer has got. -/
inductive FrameStage where
  | awaitingHeader
  | awaitingBody (kind : Kind)
  | complete (message : Message)
  | rejected (error : FrameError)
  deriving DecidableEq

/-- What a framer answers to a chunk. -/
inductive FrameStatus where
  | incomplete
  /-- A message is there, and this many bytes of the chunk belong to it. -/
  | complete (consumed : Nat)
  | rejected (error : FrameError)
  deriving DecidableEq

/-- The bytes held back, how many were fed since the last message, and the stage. -/
structure Framer where
  buffer : List UInt8
  fed : Nat
  stage : FrameStage
  deriving DecidableEq

namespace FrameStage

/-- The stage of a header that was accepted, with some bytes held. -/
def ofBody (bytes : List UInt8) (kind : Kind) : FrameStage :=
  if bytes.length < kind.length then awaitingBody kind
  else complete (Message.ofBytes kind (bytes.take kind.length))

/-- The stage of some bytes held from the start of a message. -/
def ofBytes (bytes : List UInt8) : FrameStage :=
  if bytes.length < headerSize then awaitingHeader
  else
    let header := Header.decode bytes
    match Kind.ofId? header.id with
    | none => rejected (.unknownKind header.id)
    | some kind =>
      if header.length.toNat ≠ kind.length then
        rejected (.lengthMismatch header.id header.length.toNat kind.length)
      else ofBody bytes kind

/-- The stage after more bytes have come. -/
def advance (bytes : List UInt8) : FrameStage → FrameStage
  | awaitingHeader => ofBytes bytes
  | awaitingBody kind => ofBody bytes kind
  | complete message => complete message
  | rejected error => rejected error

/-- What a chunk is answered that led to a stage, with `held` bytes before it. -/
def status (held : Nat) : FrameStage → FrameStatus
  | awaitingHeader | awaitingBody _ => .incomplete
  | complete message => .complete (message.body.kind.length - held)
  | rejected error => .rejected error

end FrameStage

namespace Framer

/-- A framer that has been fed nothing. -/
def new : Framer := ⟨[], 0, .awaitingHeader⟩

/-- Feed a chunk. A framer that is complete or has refused holds nothing more. -/
def feed (framer : Framer) (chunk : List UInt8) : FrameStatus × Framer :=
  match framer.stage with
  | .complete _ => (.complete 0, framer)
  | .rejected error => (.rejected error, framer)
  | stage =>
    let bytes := framer.buffer ++ chunk
    let next := stage.advance bytes
    (next.status framer.buffer.length, ⟨bytes, framer.fed + chunk.length, next⟩)

/-- Take the message, if it is complete. -/
def take? (framer : Framer) : Option (Message × Framer) :=
  match framer.stage with
  | .complete message => some (message, new)
  | _ => none

theorem feed_of_complete {framer : Framer} {message : Message}
    (h : framer.stage = .complete message) (chunk : List UInt8) :
    framer.feed chunk = (.complete 0, framer) := by
  simp [feed, h]

theorem feed_of_rejected {framer : Framer} {error : FrameError}
    (h : framer.stage = .rejected error) (chunk : List UInt8) :
    framer.feed chunk = (.rejected error, framer) := by
  simp [feed, h]

end Framer

end RouteCosts
