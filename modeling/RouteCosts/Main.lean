import RouteCosts.Command.Run
import RouteCosts.Outside.Disk
import RouteCosts.Outside.Sockets

/-!
# The program

Looks up the files that a run may need, runs the words of the command line, and does what the run
comes to.
-/

namespace RouteCosts

/-- The directory for settings, as the machine has it. -/
def settingsDirectory : IO (Option String) := do
  match ← IO.getEnv "XDG_CONFIG_HOME", ← IO.getEnv "HOME" with
  | some directory, home =>
    if directory.startsWith "/" then return some directory
    else return home.map (· ++ "/.config")
  | none, home => return home.map (· ++ "/.config")

/-- The surroundings of the program, with all that stands at paths that a line names. -/
def lookAround (words : List String) : IO Surroundings := do
  let directory ← settingsDirectory
  let tree ← (Settings.standardPaths directory).foldlM Disk.look (← Disk.bare)
  let mut around : Surroundings := ⟨tree, directory, ⟨(← Sockets.now).toInt, 0⟩⟩
  for _ in [0, 1] do
    around := { around with tree := ← (around.paths words).foldlM Disk.look around.tree }
  return around

/-- Report how a run ended. -/
def report (ending : Ending) : IO UInt32 := do
  match ending with
  | .misuse => IO.eprint (Command.helpText none)
  | _ =>
    if let some said := ending.report? then IO.eprintln said
  return UInt32.ofNat ending.code

/-- Leave behind what a run leaves behind. -/
def finish (before : FileTree) (outcome : Outcome) : IO UInt32 := do
  try
    Disk.record before outcome.tree
    IO.print outcome.printed
    report outcome.ending
  catch error => report (.failure (Disk.faultOf error).text)

/-- Print a text at once. -/
def printNow (text : String) : IO Unit := do
  IO.print text
  (← IO.getStdout).flush

/-- Carry out a line. -/
def carryOut (words : List String) : IO UInt32 := do
  let around ← lookAround words
  match around.run words with
  | .ended outcome => finish around.tree outcome
  | .asking options settings =>
    printNow options.announcement
    match ← (Sockets.ask options settings).block with
    | .ok enquiry => finish around.tree (.printing around.tree (ClientOptions.findings enquiry))
    | .error error => report (.failure error.message)
  | .listening listener address =>
    try
      (Sockets.listen around.tree listener address fun bound =>
        printNow (listener.banner bound.text)).block
      finish around.tree (.printing around.tree Listener.farewell)
    catch error =>
      report (.failure (listener.bindError (Disk.faultOf error)))

end RouteCosts

/-- Carry out the words of the command line. -/
def main (words : List String) : IO UInt32 := RouteCosts.carryOut words
