import RouteCosts.Files.State
import RouteCosts.Listing.Locations
import RouteCosts.Listing.Routes
import RouteCosts.Source.Basic

/-!
# Files as sources

A file counts as changed when its stamp, that is its time of modification and its length, is not
that of the last load that succeeded. A changed file is read as a whole; only if all of it can be
read and follows its grammar do its data and its stamp replace the old ones.
-/

namespace RouteCosts

/-- Data that were read from a file, and the stamp of the file they were read from. -/
structure FileSource (α : Type) where
  data : α
  loaded : Option Stamp
  deriving DecidableEq

namespace FileSource

variable {α : Type}

/-- The data that a file gives under a grammar. -/
def parse (grammar : String → Except ListingError α) (file : FileState) : Except SourceError α :=
  match file.read with
  | .error fault => .error (.fault fault)
  | .ok text =>
    match grammar text with
    | .error error => .error (.listing error)
    | .ok data => .ok data

/-- Load a file under a grammar, unless its stamp is that of the last load. -/
def load (grammar : String → Except ListingError α) (source : FileSource α) (file : FileState) :
    Except SourceError Bool × FileSource α :=
  if file.stamp?.isSome ∧ file.stamp? = source.loaded then (.ok false, source)
  else match parse grammar file with
    | .ok data => (.ok true, ⟨data, file.stamp?⟩)
    | .error error => (.error error, source)

end FileSource

/-- Locations from a file, and where each name stands among them. -/
structure LocationFile extends FileSource (List Location) where
  index : List (String × Nat)
  deriving DecidableEq

namespace LocationFile

/-- A file of locations that was not loaded yet. -/
def new : LocationFile := ⟨⟨[], none⟩, []⟩

/-- Load the file. New locations come with a new index. -/
def load (grammar : String → Except ListingError (List Location)) (source : LocationFile)
    (file : FileState) : Except SourceError Bool × LocationFile :=
  let (answer, loaded) := source.toFileSource.load grammar file
  (answer, ⟨loaded, if changed answer then Location.positions loaded.data else source.index⟩)

/-- The location of a name. -/
def find? (source : LocationFile) (name : String) : Option Location :=
  (source.index.lookup name).bind fun position => source.data[position]?

end LocationFile

/-- Routes from a file. -/
abbrev RouteFile := FileSource Routes

/-- A file of routes that was not loaded yet. -/
def RouteFile.new : RouteFile := ⟨[], none⟩

instance : LocationSource LocationFile FileState where
  load := LocationFile.load Listing.locations
  locations := fun source => source.data

instance : RouteSource RouteFile FileState where
  load := FileSource.load Listing.routes
  ask := fun source start asked => (source.data.ofStart start, asked + 1)
  ask_eq := fun _ _ _ => rfl

end RouteCosts
