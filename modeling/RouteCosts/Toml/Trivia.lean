/-!
# What stands between the parts of a document

Spaces and tabs may stand between any two parts. A comment runs to the end of its line and holds no
control characters but tabs. A line ends with a line feed, before which a carriage return may stand.
-/

namespace RouteCosts.Toml

/-- A character is a space or a tab. -/
def isSpace (c : Char) : Bool := c == ' ' || c == '\t'

/-- A character may stand in a comment. -/
def isCommentChar (c : Char) : Bool := c == '\t' || (0x20 ≤ c.toNat && c.toNat != 0x7F)

/-- The text after spaces and tabs. -/
def skipSpaces (text : List Char) : List Char := text.dropWhile isSpace

/-- The text after the end of a line. -/
def newline? : List Char → Option (List Char)
  | '\n' :: rest => some rest
  | '\r' :: '\n' :: rest => some rest
  | _ => none

/-- The text after a comment, if there is one. -/
def skipComment : List Char → List Char
  | '#' :: rest => rest.dropWhile isCommentChar
  | text => text

/-- The text after the rest of a line: spaces, perhaps a comment, and the end of the line or of the
document. -/
def lineEnd? (text : List Char) : Option (List Char) :=
  match skipComment (skipSpaces text) with
  | [] => some []
  | rest => newline? rest

/-- The text after spaces, ends of lines and comments. The flag says whether a comment is open. -/
def skipBlank : Bool → List Char → List Char
  | _, [] => []
  | _, '\n' :: rest => skipBlank false rest
  | _, '\r' :: '\n' :: rest => skipBlank false rest
  | true, c :: rest => if isCommentChar c then skipBlank true rest else c :: rest
  | false, c :: rest =>
    if isSpace c then skipBlank false rest
    else if c == '#' then skipBlank true rest
    else c :: rest

end RouteCosts.Toml
