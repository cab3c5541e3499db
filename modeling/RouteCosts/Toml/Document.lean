import RouteCosts.Toml.Number
import RouteCosts.Toml.Quoted
import RouteCosts.Toml.Tree

/-!
# Reading a document

A line of a document holds a pair, a header or nothing. Keys and headers are names with points
between them, as values stand quoted text, words, arrays and tables between braces. Arrays may
spread over lines and end with a comma; tables between braces may not.

It is assumed of the reader that the program uses that it accepts the documents of TOML 1.0 and no
others, with integers of 64 bits with a sign. How deep values may stand in one another (`maxDepth`)
is not said by the format; it is a bound of that reader.
-/

namespace RouteCosts.Toml

/-- How many arrays and tables may stand in one another, and how many names may make up a key. -/
def maxDepth : Nat := 79

/-- A character may stand in a name without quotes. -/
def isBareChar (c : Char) : Bool := c.isAlphanum || c == '_' || c == '-'

/-- A name without quotes. -/
def bareName : Reader (List Char) := fun text =>
  let name := text.takeWhile isBareChar
  if name.isEmpty then none else some (name, text.dropWhile isBareChar)

/-- One name of a key. -/
def name : Reader String := fun text =>
  let read := match text with
    | '"' :: _ | '\'' :: _ => singleLineText text
    | _ => bareName text
  read.map fun (name, rest) => (String.ofList name, rest)

/-- Names with points between them, at most `count` of them, with spaces around each. -/
def names : Nat → Reader (List String)
  | 0, _ => none
  | count + 1, text =>
    match name (skipSpaces text) with
    | none => none
    | some (first, rest) =>
      match skipSpaces rest with
      | '.' :: rest => (names count rest).map fun (more, rest) => (first :: more, rest)
      | rest => some ([first], rest)

/-- A key. -/
def key : Reader (List String) := names maxDepth

/-- A key, an equals sign, and a value that is read as given. -/
def pair (value : Reader Value) : Reader (List String × Value) := fun text =>
  match key text with
  | some (path, '=' :: rest) =>
    (value (skipSpaces rest)).map fun (v, rest) => ((path, v), rest)
  | _ => none

/-- The items of an array after its bracket, at most `count` of them. -/
def arrayItems (value : Reader Value) : Nat → Reader (List Value)
  | 0, _ => none
  | count + 1, text =>
    match skipBlank false text with
    | ']' :: rest => some ([], rest)
    | text =>
      match value text with
      | none => none
      | some (v, rest) =>
        match skipBlank false rest with
        | ',' :: rest =>
          (arrayItems value count rest).map fun (more, rest) => (v :: more, rest)
        | ']' :: rest => some ([v], rest)
        | _ => none

/-- The pairs of a table between braces, of which there is one at least, at most `count`. -/
def inlinePairs (value : Reader Value) : Nat → Reader (List (List String × Value))
  | 0, _ => none
  | count + 1, text =>
    match pair value text with
    | none => none
    | some (p, rest) =>
      match skipSpaces rest with
      | ',' :: rest => (inlinePairs value count rest).map fun (more, rest) => (p :: more, rest)
      | '}' :: rest => some ([p], rest)
      | _ => none

/-- The table after an opening brace. -/
def inlineTable (value : Reader Value) : Reader Value := fun text =>
  match skipSpaces text with
  | '}' :: rest => some (.table .inline [], rest)
  | text =>
    match inlinePairs value (text.length + 1) text with
    | some (pairs, rest) =>
      (ofPairs .inline [] pairs).map fun entries => (.table .inline entries, rest)
    | none => none

/-- A value that is not made of others. -/
def simpleValue : Reader Value := fun text =>
  match text with
  | '"' :: _ | '\'' :: _ =>
    (quotedText text).map fun (s, rest) => (.text (String.ofList s), rest)
  | _ => wordReader text

/-- A value in which others stand in one another to a limited depth. -/
def value : Nat → Reader Value
  | 0 => fun text =>
    match text with
    | '[' :: _ | '{' :: _ => none
    | _ => simpleValue text
  | depth + 1 => fun text =>
    match text with
    | '[' :: rest =>
      (arrayItems (value depth) (rest.length + 1) rest).map fun (items, rest) =>
        (.array items, rest)
    | '{' :: rest => inlineTable (value depth) rest
    | _ => simpleValue text

/-- A header after its first bracket. -/
def header : Reader Statement := fun text =>
  match text with
  | '[' :: rest =>
    match key rest with
    | some (path, ']' :: ']' :: rest) => some (.tables path, rest)
    | _ => none
  | _ =>
    match key text with
    | some (path, ']' :: rest) => some (.table path, rest)
    | _ => none

/-- The statements of a text, which has at most `count` lines. -/
def statements : Nat → List Char → Option (List Statement)
  | 0, _ => none
  | count + 1, text =>
    match skipSpaces text with
    | [] => some []
    | c :: rest =>
      if c == '#' || c == '\n' || c == '\r' then
        (lineEnd? (c :: rest)).bind (statements count)
      else
        let read := if c == '[' then header rest
          else (pair (value maxDepth) (c :: rest)).map fun (p, rest) => (.pair p.1 p.2, rest)
        match read with
        | none => none
        | some (statement, rest) =>
          ((lineEnd? rest).bind (statements count)).map fun more => statement :: more

/-- The text without a byte order mark at its start. -/
def afterMark : List Char → List Char
  | '\uFEFF' :: rest => rest
  | text => text

/-- The document that a text writes. -/
def document? (text : String) : Option Entries :=
  let text := afterMark text.toList
  (statements (text.length + 1) text).bind ofStatements

end RouteCosts.Toml
