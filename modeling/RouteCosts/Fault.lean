/-!
# Faults

What the operating system, or a transport, reports when it cannot do what it was asked: a kind that
the program acts on, and a text for people.
-/

namespace RouteCosts

/-- The kinds of fault. -/
inductive FaultKind where
  | notFound | permissionDenied | connectionRefused | connectionReset | connectionAborted
  | hostUnreachable | networkUnreachable | networkDown | notConnected | addressInUse
  | addressNotAvailable | brokenPipe | alreadyExists | wouldBlock | notADirectory | isADirectory
  | invalidInput | invalidData | timedOut | writeZero | interrupted | unsupported | unexpectedEof
  | outOfMemory | invalidFilename | other
  deriving DecidableEq, Repr

/-- The kinds in the order of their declaration. -/
def FaultKind.all : List FaultKind :=
  [.notFound, .permissionDenied, .connectionRefused, .connectionReset, .connectionAborted,
    .hostUnreachable, .networkUnreachable, .networkDown, .notConnected, .addressInUse,
    .addressNotAvailable, .brokenPipe, .alreadyExists, .wouldBlock, .notADirectory, .isADirectory,
    .invalidInput, .invalidData, .timedOut, .writeZero, .interrupted, .unsupported, .unexpectedEof,
    .outOfMemory, .invalidFilename, .other]

/-- The name of a kind. -/
def FaultKind.name : FaultKind → String
  | .notFound => "NotFound"
  | .permissionDenied => "PermissionDenied"
  | .connectionRefused => "ConnectionRefused"
  | .connectionReset => "ConnectionReset"
  | .hostUnreachable => "HostUnreachable"
  | .networkUnreachable => "NetworkUnreachable"
  | .connectionAborted => "ConnectionAborted"
  | .notConnected => "NotConnected"
  | .addressInUse => "AddrInUse"
  | .addressNotAvailable => "AddrNotAvailable"
  | .networkDown => "NetworkDown"
  | .brokenPipe => "BrokenPipe"
  | .alreadyExists => "AlreadyExists"
  | .wouldBlock => "WouldBlock"
  | .notADirectory => "NotADirectory"
  | .isADirectory => "IsADirectory"
  | .invalidInput => "InvalidInput"
  | .invalidData => "InvalidData"
  | .timedOut => "TimedOut"
  | .writeZero => "WriteZero"
  | .interrupted => "Interrupted"
  | .unsupported => "Unsupported"
  | .unexpectedEof => "UnexpectedEof"
  | .outOfMemory => "OutOfMemory"
  | .invalidFilename => "InvalidFilename"
  | .other => "Other"

/-- The kind of a name; any name that is not in the list is `other`. -/
def FaultKind.ofName (name : String) : FaultKind :=
  (FaultKind.all.find? fun kind => kind.name == name).getD .other

/-- A fault: its kind, and what is said about it. -/
structure Fault where
  kind : FaultKind
  text : String
  deriving DecidableEq, Repr

namespace Fault

/-- A path leads nowhere. -/
def notFound : Fault := ⟨.notFound, "No such file or directory (os error 2)"⟩

/-- A directory stands where a file should be. -/
def isADirectory : Fault := ⟨.isADirectory, "Is a directory (os error 21)"⟩

/-- A file stands where a directory should be. -/
def notADirectory : Fault := ⟨.notADirectory, "Not a directory (os error 20)"⟩

/-- The name of a directory to be made is taken. -/
def alreadyExists : Fault := ⟨.alreadyExists, "File exists (os error 17)"⟩

/-- A name is longer than names may be. -/
def nameTooLong : Fault := ⟨.invalidFilename, "File name too long (os error 36)"⟩

/-- A text file holds bytes that are not UTF-8. -/
def notUtf8 : Fault := ⟨.invalidData, "stream did not contain valid UTF-8"⟩

/-- Nothing came within the time allowed for a read. -/
def readTimedOut : Fault := ⟨.timedOut, "read timed out"⟩

/-- No route leads to the address dialled. -/
def networkUnreachable : Fault := ⟨.networkUnreachable, "Network is unreachable (os error 101)"⟩

/-- A connection is to be made in no time at all. -/
def zeroTimeout : Fault := ⟨.invalidInput, "cannot set a 0 duration timeout"⟩

/-- A host name that nobody can resolve. -/
def unknownHost : Fault :=
  ⟨.other, "failed to lookup address information: Name or service not known"⟩

end Fault

end RouteCosts
