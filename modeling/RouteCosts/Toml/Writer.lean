import RouteCosts.Toml.Quoting

/-!
# Writing a document

A document of sections: each has a header and pairs below it, one on a line, and an empty line
stands between two sections. Names are written without quotes. Whole numbers go up to the greatest
one of 64 bits with a sign; a document with a greater one cannot be written.

The format is that of TOML 1.0, which says what may be written but leaves the layout and the choice
of quotes open. Here they are those of one release of the writer that the program uses; other
releases may write the same document otherwise. It is assumed of the writer that it writes integers
of 64 bits with a sign in decimal and fails on greater ones, and keeps sections and pairs in the
order in which they are given.
-/

namespace RouteCosts.Toml

/-- A value that fits on a line. -/
inductive Scalar where
  | text (s : String)
  | integer (n : Nat)
  | boolean (b : Bool)
  deriving DecidableEq

/-- A name and the pairs of a section. -/
abbrev Section := String × List (String × Scalar)

/-- The greatest whole number of a document. -/
def maxInteger : Nat := Int64.maxValue.toInt.toNat

/-- The text of a value. -/
def Scalar.written? : Scalar → Option String
  | text s => some (String.ofList (quoted s.toList))
  | integer n => if n ≤ maxInteger then some (toString n) else none
  | boolean b => some (if b then "true" else "false")

/-- The lines of some pairs. -/
def pairsText? : List (String × Scalar) → Option String
  | [] => some ""
  | (key, value) :: rest =>
    match value.written?, pairsText? rest with
    | some text, some more => some (key ++ " = " ++ text ++ "\n" ++ more)
    | _, _ => none

/-- The lines of a section. -/
def sectionText? (part : Section) : Option String :=
  (pairsText? part.2).map fun pairs => "[" ++ part.1 ++ "]\n" ++ pairs

/-- The text of a document. -/
def documentText? (parts : List Section) : Option String :=
  (parts.mapM sectionText?).map fun texts => "\n".intercalate texts

end RouteCosts.Toml
