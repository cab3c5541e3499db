import RouteCosts.Command.Line

/-!
# What is said about the program

Its version, and how it and its commands are used: each switch with its letter and the number of its
values, made from the same lists that lines are read with.
-/

namespace RouteCosts.Command

/-- The name of the program. -/
def programName : String := "waypoint"

/-- The name and the version of the program. -/
def versionText : String := programName ++ " 0.1.0\n"

/-- What a value is called. -/
def valueName : ValueKind → String
  | .text => "TEXT"
  | .path => "PATH"
  | .port => "PORT"

/-- A switch as it is used. -/
def switchText (switch : Switch) : String :=
  let letter := match switch.letter with
    | some c => String.ofList ['-', c, ',', ' ']
    | none => "    "
  let values := String.join (List.replicate switch.arity (" " ++ valueName switch.kind))
  "  " ++ letter ++ "--" ++ switch.name ++ values ++ "\n"

/-- What a command does. -/
def purpose (name : String) : String :=
  if name = "server" then "Run the route server"
  else if name = "client" then "List locations and optionally price a route"
  else if name = "config" then "Show current configuration"
  else if name = "info" then "Show protocol information"
  else "Print how the program or a command is used"

/-- How a level is used. -/
def levelText (level : Level) : String :=
  let commands := level.commands.map fun name => "  " ++ name ++ "  " ++ purpose name ++ "\n"
  let questions := level.questions.map fun question =>
    "  " ++ String.ofList ['-', question.2.1, ',', ' '] ++ "--" ++ question.1 ++ "\n"
  (if commands.isEmpty then "" else "\nCommands:\n" ++ String.join commands) ++
    "\nOptions:\n" ++ String.join (level.switches.map switchText) ++ String.join questions

/-- How the program, or one command, is used. -/
def helpText : Option String → String
  | none =>
    "Serve and query least-cost routes between locations\n\nUsage: " ++ programName ++
      " [OPTIONS] <COMMAND>\n" ++ levelText topLevel
  | some name =>
    purpose name ++ "\n\nUsage: " ++ programName ++ " " ++ name ++ " [OPTIONS]\n" ++
      levelText (level name)

/-- The answer to a question. -/
def answer : Question → String
  | .help topic => helpText topic
  | .version => versionText

end RouteCosts.Command
