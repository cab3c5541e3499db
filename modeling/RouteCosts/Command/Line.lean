import RouteCosts.Command.Level

/-!
# Command lines

The words of a line say which command to carry out and how. `-c` and `-v` may be said before the
command and after it; a file of settings named after it goes before one named in front.
-/

namespace RouteCosts

/-- What a server is told. -/
structure ServerOptions where
  port : Option UInt16
  bindAddress : Option String
  locations : Option String
  routes : Option String
  deriving DecidableEq

/-- What a client is told. -/
structure ClientOptions where
  host : String
  port : Option UInt16
  /-- The names of the start and the end of a route to be priced. -/
  route : Option (String × String)
  deriving DecidableEq

/-- What the program can do. -/
inductive Command where
  | server (options : ServerOptions)
  | client (options : ClientOptions)
  /-- Show the settings or samples of them, or write them to a file. -/
  | config (generate : Bool) (output : Option String)
  /-- Show how messages look. -/
  | info
  deriving DecidableEq

/-- A command, and what is said to all commands. -/
structure Invocation where
  /-- The file of settings. -/
  settingsPath : Option String
  verbose : Bool
  command : Command
  deriving DecidableEq

namespace Switch

/-- The file of settings. -/
def config : Switch := taking .path "config" (some 'c')

/-- Tell more. -/
def verbose : Switch := plain "verbose" (some 'v')

/-- The port to listen on or to connect to. -/
def port : Switch := taking .port "port" (some 'p')

/-- The address to listen on. -/
def bind : Switch := taking .text "bind" (some 'b')

/-- The file of locations. -/
def locations : Switch := taking .path "locations" (some 'l')

/-- The file of routes. -/
def routes : Switch := taking .path "routes" (some 'r')

/-- The host to connect to. -/
def host : Switch := taking .text "host" none

/-- The start and the end of a route. -/
def route : Switch := ⟨"route", none, 2, .text, true⟩

/-- Samples instead of the settings. -/
def generate : Switch := plain "generate" none

/-- The file to write. -/
def output : Switch := taking .path "output" (some 'o')

end Switch

namespace Command

/-- The names of the commands. -/
def names : List String := ["server", "client", "config", "info"]

/-- The name of the command that tells how the program is used. -/
def helpName : String := "help"

/-- The switches that may be said on every level. -/
def common : List Switch := [.config, .verbose]

/-- The question for help. -/
def helpQuestion (topic : Option String) : String × Char × Question :=
  (helpName, 'h', .help topic)

/-- The level above all commands. -/
def topLevel : Level where
  switches := common
  questions := [helpQuestion none, ("version", 'V', .version)]
  commands := names ++ [helpName]

/-- The switches of a command. -/
def switches (name : String) : List Switch :=
  if name = "server" then [.port, .bind, .locations, .routes]
  else if name = "client" then [.host, .port, .route]
  else if name = "config" then [.generate, .output]
  else []

/-- The level of a command. -/
def level (name : String) : Level where
  switches := switches name ++ common
  questions := [helpQuestion (some name)]
  commands := []

/-- The port that was said. -/
def portOf (uses : Uses) : Option UInt16 := (uses.value? .port).bind portOfText?

/-- The route that was said. More than one is none. -/
def routeOf (uses : Uses) : Option (String × String) :=
  match uses.values .route with
  | [start, finish] => some (start, finish)
  | _ => none

/-- The command of a name, with what was said to it. -/
def of (name : String) (uses : Uses) : Command :=
  if name = "server" then
    .server ⟨portOf uses, uses.value? .bind, uses.value? .locations, uses.value? .routes⟩
  else if name = "client" then
    .client ⟨(uses.value? .host).getD "127.0.0.1", portOf uses, routeOf uses⟩
  else if name = "config" then .config (uses.has .generate) (uses.value? .output)
  else .info

/-- What the words after `help` ask for. -/
def helpStop : List String → Stop
  | [] => .asked (.help none)
  | [name] => if (names ++ [helpName]).contains name then .asked (.help (some name)) else .misuse
  | _ => .misuse

end Command

namespace Invocation

/-- The invocation of a command, from what was said in front of its name and after it. -/
def of (name : String) (front own : Uses) : Invocation where
  settingsPath := own.value? .config <|> front.value? .config
  verbose := front.has .verbose || own.has .verbose
  command := .of name own

/-- Read the words of a command. What was said in front of its name is checked last. -/
def readCommand (front : Progress) (name : String) (words : List String) :
    Except Stop Invocation :=
  match (Command.level name).read .start words with
  | .error stop => .error stop
  | .ok (.command _ _ _) => .error .misuse
  | .ok (.finished progress) =>
    match progress.settle, front.settle with
    | .ok own, .ok front => .ok (.of name front own)
    | .error stop, _ => .error stop
    | _, .error stop => .error stop

/-- The invocation that a line writes. -/
def ofLine (words : List String) : Except Stop Invocation :=
  match Command.topLevel.read .start words with
  | .error stop => .error stop
  | .ok (.finished _) => .error .misuse
  | .ok (.command progress name rest) =>
    if name = Command.helpName then .error (Command.helpStop rest)
    else readCommand progress name rest

end Invocation

end RouteCosts
