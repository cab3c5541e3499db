import RouteCosts.Command.Help
import RouteCosts.Command.Info
import RouteCosts.Command.Listener
import RouteCosts.Command.Query

/-!
# Running the program

A line is read, the settings are loaded, and the command is carried out. A file of settings that is
named must be there and say settings. A run that needs the network is not at its end yet: a server
is to listen until it is interrupted, and a client is to ask one.
-/

namespace RouteCosts

/-- What the program runs in. -/
structure Surroundings where
  tree : FileTree
  /-- The directory for settings. -/
  settingsDirectory : Option String
  /-- The time of files that are written. -/
  present : Moment

/-- What a run comes to. -/
inductive Run where
  | ended (outcome : Outcome)
  | listening (listener : Listener) (address : SocketAddress)
  | asking (options : ClientOptions) (settings : Settings)

namespace Invocation

/-- The paths that an invocation names. -/
def paths (invocation : Invocation) : List String :=
  invocation.settingsPath.toList ++
    match invocation.command with
    | .server options => options.locations.toList ++ options.routes.toList
    | .config _ output => output.toList
    | .client _ | .info => []

end Invocation

namespace Surroundings

/-- A run that ends by printing. -/
def prints (around : Surroundings) (text : String) : Run := .ended (.printing around.tree text)

/-- A run that fails before it prints anything. -/
def fails (around : Surroundings) (message : String) : Run :=
  .ended (.failing around.tree "" message)

/-- What is printed when settings were written. -/
def writtenText (path : String) : String := s!"Configuration written to: {path}\n"

/-- Write samples of settings to a file, below a directory that is there. -/
def writeSample (around : Surroundings) (path text : String) : Run :=
  match around.tree.write around.present path (Utf8.bytes text) with
  | .ok tree => .ended (.printing tree (writtenText path))
  | .error fault => around.fails fault.text

/-- Write the settings to a file. -/
def writeSettings (around : Surroundings) (settings : Settings) (path : String) : Run :=
  match settings.save around.tree around.present path with
  | (.ok (), tree) => .ended (.printing tree (writtenText path))
  | (.error error, tree) => .ended (.failing tree "" error.message)

/-- Show settings, or write them to a file. -/
def config (around : Surroundings) (settings : Settings) (generate : Bool)
    (output : Option String) : Run :=
  let shown := if generate then Settings.sample else settings
  match output, shown.text? with
  | some path, some text =>
    if generate then around.writeSample path text else around.writeSettings settings path
  | none, some text => around.prints (text ++ "\n")
  | _, none => around.fails SettingsError.unwritable.message

/-- Start a server. -/
def server (around : Surroundings) (settings : Settings) (options : ServerOptions) : Run :=
  match Listener.start around.tree settings options with
  | .error message => around.fails message
  | .ok listener =>
    match listener.socket with
    | .error message => around.fails message
    | .ok address => .listening listener address

/-- The settings of an invocation. -/
def settings (around : Surroundings) (invocation : Invocation) : Except SettingsError Settings :=
  match invocation.settingsPath with
  | some path => Settings.load around.tree path
  | none => .ok (Settings.loadStandard around.tree around.settingsDirectory)

/-- The paths that a line names, by itself or by way of the settings that can be loaded. -/
def paths (around : Surroundings) (words : List String) : List String :=
  match Invocation.ofLine words with
  | .error _ => []
  | .ok invocation =>
    invocation.paths ++
      match around.settings invocation with
      | .ok settings => settings.locations.toList ++ settings.routes.toList
      | .error _ => []

/-- Carry out a command. -/
def carryOut (around : Surroundings) (settings : Settings) : Command → Run
  | .server options => around.server settings options
  | .client options => .asking options settings
  | .config generate output => around.config settings generate output
  | .info => around.prints Command.infoText

/-- Run the program with the words of a line. -/
def run (around : Surroundings) (words : List String) : Run :=
  match Invocation.ofLine words with
  | .error (.asked question) => around.prints (Command.answer question)
  | .error .misuse => .ended ⟨"", .misuse, around.tree⟩
  | .ok invocation =>
    match around.settings invocation with
    | .error error => around.fails error.message
    | .ok settings => around.carryOut settings invocation.command

end Surroundings

end RouteCosts
