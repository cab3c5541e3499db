import RouteCosts.Session.Basic

/-!
# Conversations

A conversation is led by a handler, which keeps a state of its own and answers each message it is
given, or ends the conversation by giving no answer. Both sides make the same rounds
(`Conduct.round`): a message is received, handled, and the answer sent. `serve` is the side that
answers first, and `enquire` the side that opens with a message; they differ in how they read and
write, and in what they make of the end of the stream. Every message that is received takes at least
one of the bytes that were pending or still to come, so that a conversation has at most as many
rounds as there are bytes.
-/

namespace RouteCosts

/-- What a handler makes of its state and a message: an answer, if there is one, and a new state. -/
abbrev Handler (η : Type) := η → Message → Option Message × η

/-- **How one end conducts a conversation**: what it does in a round. The rounds are the same on a
line that is written down beforehand and on a socket. -/
structure Conduct (m : Type → Type) where
  /-- The next message, or the result of the conversation if there is none. -/
  next : m (Except (Except SessionError Unit) Message)
  handle : Message → m (Option Message)
  send : Message → m (Except SessionError Unit)

namespace Conduct

variable {m : Type → Type} [Monad m]

/-- One round. There is a result if it was the last one. -/
def round (conduct : Conduct m) : m (Option (Except SessionError Unit)) := do
  match ← conduct.next with
  | .error result => return some result
  | .ok message =>
    match ← conduct.handle message with
    | none => return some (.ok ())
    | some answer =>
      match ← conduct.send answer with
      | .error error => return some (.error error)
      | .ok () => return none

/-- So many rounds at most. -/
def rounds (conduct : Conduct m) : Nat → m (Except SessionError Unit)
  | 0 => return .ok ()
  | left + 1 => do
    match ← conduct.round with
    | some result => return result
    | none => conduct.rounds left

/-- Send a message, and go on if it was sent. -/
def lead (conduct : Conduct m) (opening : Message) (rest : m (Except SessionError Unit)) :
    m (Except SessionError Unit) := do
  match ← conduct.send opening with
  | .error error => return .error error
  | .ok () => rest

end Conduct

namespace Session

variable {η : Type}

/-- The bytes that are pending or still to come. -/
def backlog (session : Session) : Nat :=
  session.pending.length + (session.line.arrivals.flatMap Arrival.bytes).length

/-- The next message of a conversation, or its result if there is none. The cooperative side takes
the end of the stream between two messages for the end of the conversation. -/
def next (writer : Writer) (session : Session) :
    Except (Except SessionError Unit) Message × Session :=
  match writer with
  | .blocking =>
    match session.wait with
    | (.error error, session) => (.error (.error error), session)
    | (.ok message, session) => (.ok message, session)
  | .cooperative _ =>
    match session.receive with
    | (.error error, session) => (.error (.error error), session)
    | (.ok none, session) => (.error (.ok ()), session)
    | (.ok (some message), session) => (.ok message, session)

/-- How a session and its handler conduct a conversation. -/
def conduct (writer : Writer) (handler : Handler η) : Conduct (StateM (Session × η)) where
  next := fun (session, state) =>
    let (message, session) := session.next writer
    (message, session, state)
  handle := fun message (session, state) =>
    let (answer, state) := handler state message
    (answer, session, state)
  send := fun message (session, state) =>
    let (sent, session) := session.send writer message
    (sent.map fun _ => (), session, state)

/-- Receive, handle and answer at most so many messages. -/
def converse (writer : Writer) (handler : Handler η) (rounds : Nat) (session : Session)
    (state : η) : Except SessionError Unit × Session × η :=
  (conduct writer handler).rounds rounds (session, state)

/-- Receive messages and answer them until the handler gives no answer or the stream ends. The writer
tries interrupted writes again or does not. -/
def serve (handler : Handler η) (session : Session) (state : η) (retries : Bool := true) :
    Except SessionError Unit × Session × η :=
  converse (.cooperative retries) handler (session.backlog + 1) session state

/-- Send a message, and answer what comes back until the handler gives no answer. -/
def enquire (handler : Handler η) (session : Session) (opening : Message) (state : η) :
    Except SessionError Unit × Session × η :=
  let conduct := conduct .blocking handler
  conduct.lead opening (conduct.rounds (session.backlog + 1)) (session, state)

end Session

end RouteCosts
