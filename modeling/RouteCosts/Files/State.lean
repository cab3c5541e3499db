import RouteCosts.Bytes.Utf8
import RouteCosts.Fault

/-!
# What stands at a path

A path leads to a file, to a directory or nowhere. A file has contents and a time of modification;
its stamp tells two states of it apart without reading them. A directory has a stamp as well, but
nothing in it can be read as a file.
-/

namespace RouteCosts

/-- A point in time. -/
structure Moment where
  seconds : Int
  nanos : Nat
  deriving DecidableEq

/-- What tells two states of a file apart without reading it. -/
structure Stamp where
  modified : Moment
  length : Nat
  deriving DecidableEq

/-- What stands at a path. -/
inductive FileState where
  | file (contents : List UInt8) (modified : Moment)
  /-- A directory, with its stamp where that is known. -/
  | directory (stamp : Option Stamp := none)
  /-- Nothing can be found there, for the reason given. -/
  | absent (reason : Fault)
  deriving DecidableEq

namespace FileState

/-- Nothing stands there. -/
def missing : FileState := absent .notFound

/-- The contents of a file. -/
def contents? : FileState → Option (List UInt8)
  | file contents _ => some contents
  | _ => none

/-- The text of a file. -/
def read : FileState → Except Fault String
  | file contents _ =>
    match Utf8.decode? contents with
    | some text => .ok text
    | none => .error .notUtf8
  | directory _ => .error .isADirectory
  | absent reason => .error reason

/-- The stamp of what stands there. -/
def stamp? : FileState → Option Stamp
  | file contents modified => some ⟨modified, contents.length⟩
  | directory stamp => stamp
  | absent _ => none

/-- A directory stands there. -/
def isDirectory : FileState → Bool
  | directory _ => true
  | _ => false

end FileState

end RouteCosts
