import RouteCosts.Files.Tree
import RouteCosts.Settings.Layout

/-!
# Settings in files

Settings are loaded from a file and saved to one. Settings that cannot be written change no file;
directories on the way to a file are made when it is saved.
-/

namespace RouteCosts

/-- Why settings could not be loaded or saved. -/
inductive SettingsError where
  | fault (fault : Fault)
  /-- The file does not say settings. -/
  | unreadable
  /-- The settings cannot be said in a file. -/
  | unwritable
  | notFound (path : String)
  deriving DecidableEq

/-- What is said about settings that could not be loaded or saved. -/
def SettingsError.message : SettingsError → String
  | fault f => s!"IO error: {f.text}"
  | unreadable => "Parse error"
  | unwritable => "Serialize error"
  | notFound path => s!"Config file not found: {path}"

namespace Settings

/-- Load settings from a file. -/
def load (tree : FileTree) (path : String) : Except SettingsError Settings :=
  match tree.look path with
  | .absent _ => .error (.notFound path)
  | state =>
    match state.read with
    | .error fault => .error (.fault fault)
    | .ok text =>
      match ofText? text with
      | some settings => .ok settings
      | none => .error .unreadable

/-- Save settings to a file. -/
def save (settings : Settings) (tree : FileTree) (now : Moment) (path : String) :
    Except SettingsError Unit × FileTree :=
  match settings.text? with
  | none => (.error .unwritable, tree)
  | some text =>
    match tree.makeParent path with
    | (.error fault, tree) => (.error (.fault fault), tree)
    | (.ok (), tree) =>
      match tree.write now path (Utf8.bytes text) with
      | .error fault => (.error (.fault fault), tree)
      | .ok tree => (.ok (), tree)

/-- Where settings are looked for when no file is named: below the directory for settings, if there
is one, and in the directory that paths start from. -/
def standardPaths (directory : Option String) : List String :=
  (directory.map fun path => path ++ "/waypoint/config.toml").toList ++ ["./waypoint.toml"]

/-- The settings when no file is named: those of the first file that is there, if they can be
loaded. -/
def loadStandard (tree : FileTree) (directory : Option String) : Settings :=
  let found := (standardPaths directory).find? fun path =>
    match tree.look path with
    | .absent _ => false
    | _ => true
  match found.map (load tree) with
  | some (.ok settings) => settings
  | _ => standard

end Settings

end RouteCosts
