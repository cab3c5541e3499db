import RouteCosts.Assoc

/-!
# Values of a TOML document

A document is a table of values. Of numbers with a fraction and of points in time only that they are
there is kept. A table remembers how it came about, because that decides who may add to it later.
-/

namespace RouteCosts.Toml

/-- How a table came about. -/
inductive Origin where
  /-- It has a header of its own, or is the document itself. -/
  | header
  /-- A header went through it. -/
  | implied
  /-- A dotted key went through it. -/
  | dotted
  /-- It stands between braces. -/
  | inline
  deriving DecidableEq

/-- A value. -/
inductive Value where
  | text (s : String)
  | integer (n : Int)
  | float
  | boolean (b : Bool)
  | moment
  | array (items : List Value)
  | table (origin : Origin) (entries : List (String × Value))
  /-- Tables that share a header between double brackets. -/
  | tables (elements : List (List (String × Value)))

/-- The entries of a table. -/
abbrev Entries := List (String × Value)

/-- What reads a part of a text: the part's meaning and the text after it. -/
abbrev Reader (α : Type) := List Char → Option (α × List Char)

end RouteCosts.Toml
