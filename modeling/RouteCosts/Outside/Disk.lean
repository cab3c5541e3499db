import RouteCosts.Files.Tree

/-!
# The files of the machine

What stands at a path is looked up before the program runs and put into its tree of files; what the
program changed there is written afterwards.
-/

namespace RouteCosts.Disk

/-- The errors that have a kind of their own, by number. -/
def errors : List (Nat × FaultKind × String) :=
  [(2, .notFound, "No such file or directory"), (13, .permissionDenied, "Permission denied"),
    (17, .alreadyExists, "File exists"), (20, .notADirectory, "Not a directory"),
    (21, .isADirectory, "Is a directory"), (32, .brokenPipe, "Broken pipe"),
    (36, .invalidFilename, "File name too long"),
    (98, .addressInUse, "Address already in use"),
    (99, .addressNotAvailable, "Cannot assign requested address"),
    (100, .networkDown, "Network is down"), (101, .networkUnreachable, "Network is unreachable"),
    (103, .connectionAborted, "Software caused connection abort"),
    (104, .connectionReset, "Connection reset by peer"),
    (107, .notConnected, "Transport endpoint is not connected"),
    (110, .timedOut, "Connection timed out"), (111, .connectionRefused, "Connection refused"),
    (113, .hostUnreachable, "No route to host")]

/-- The fault of an error with a number, which may have a sign. -/
def numbered (number : UInt32) (details : String) : Fault :=
  let number := number.toInt32.toInt.natAbs
  let (kind, text) := (errors.lookup number).getD (.other, details)
  ⟨kind, s!"{text} (os error {number})"⟩

/-- The fault of an error. -/
def faultOf : IO.Error → Fault
  | .noFileOrDirectory _ _ _ => .notFound
  | .alreadyExists _ number details | .otherError number details | .resourceBusy number details
  | .resourceVanished number details | .unsupportedOperation number details
  | .hardwareFault number details | .unsatisfiedConstraints number details
  | .illegalOperation number details | .protocolError number details
  | .timeExpired number details | .interrupted _ number details
  | .invalidArgument _ number details | .permissionDenied _ number details
  | .resourceExhausted _ number details | .inappropriateType _ number details
  | .noSuchThing _ number details => numbered number details
  | .unexpectedEof => ⟨.unexpectedEof, "failed to fill whole buffer"⟩
  | .userError said => ⟨.other, said⟩

/-- The text of a place. -/
def textOf (place : Place) : String := "/" ++ "/".intercalate place

/-- What stands at a place. -/
def observe (place : Place) : IO FileState := do
  let path := (← IO.currentDir) / textOf place
  try
    let about ← path.metadata
    let modified : Moment := ⟨about.modified.sec, about.modified.nsec.toNat⟩
    if about.type == .dir then return .directory (some ⟨modified, about.byteSize.toNat⟩)
    let contents ← IO.FS.readBinFile path
    return .file contents.toList modified
  catch error => return .absent (faultOf error)

/-- The tree with nothing but the directory that paths start from. -/
def bare : IO FileTree := do
  let path := Path.ofText (← IO.currentDir).toString
  let working := path.steps.foldl (fun place step => step.apply place) []
  return ⟨[(working, .directory)], working⟩

/-- Look up what stands along a path. -/
def look (tree : FileTree) (text : String) : IO FileTree := do
  let path := Path.ofText text
  let mut tree := tree
  let mut place := tree.start path
  for step in path.steps do
    place := step.apply place
    tree := tree.put place (← observe place)
  return tree

/-- Write what was changed. -/
def record (before after : FileTree) : IO Unit := do
  for (place, contents) in after.changesSince before do
    let directory := (← IO.currentDir) / textOf place.dropLast
    IO.FS.createDirAll directory
    IO.FS.writeBinFile ((← IO.currentDir) / textOf place) ⟨contents.toArray⟩

end RouteCosts.Disk
