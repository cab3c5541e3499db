import RouteCosts.Network.Address
import RouteCosts.Toml.Trivia
import RouteCosts.Toml.Value

/-!
# Quoted text

Text between double quotes may hold escapes, text between single quotes is taken as it stands, and
either may be spread over several lines between triple quotes. There a line feed right after the
opening quotes does not count, one or two quotes may stand anywhere, and, between double quotes, a
backslash at the end of a line takes all blanks up to the next character away.
-/

namespace RouteCosts.Toml

/-- A character may stand unescaped between double quotes. -/
def isBasicChar (c : Char) : Bool := isCommentChar c && c != '"' && c != '\\'

/-- A character may stand between single quotes. -/
def isLiteralChar (c : Char) : Bool := isCommentChar c && c != '\''

/-- The character that a letter after a backslash stands for. -/
def escape? : Char → Option Char
  | 'b' => some '\x08'
  | 't' => some '\t'
  | 'n' => some '\n'
  | 'f' => some '\x0c'
  | 'r' => some '\r'
  | '"' => some '"'
  | '\\' => some '\\'
  | _ => none

/-- The character of a hexadecimal number. -/
def codePoint? (digits : List Char) : Option Char :=
  match HostAddress.hex? digits with
  | some n => if n.isValidChar then some (Char.ofNat n) else none
  | none => none

/-- Put a character, if it is one, in front of what was read. -/
def push (c : Option Char) (read : Option (List Char × List Char)) :
    Option (List Char × List Char) :=
  match c, read with
  | some c, some (text, rest) => some (c :: text, rest)
  | _, _ => none

/-- Text after an opening double quote. -/
def basicText : Reader (List Char)
  | '"' :: rest => some ([], rest)
  | '\\' :: 'u' :: a :: b :: c :: d :: rest => push (codePoint? [a, b, c, d]) (basicText rest)
  | '\\' :: 'U' :: a :: b :: c :: d :: e :: f :: g :: h :: rest =>
    push (codePoint? [a, b, c, d, e, f, g, h]) (basicText rest)
  | '\\' :: c :: rest => push (escape? c) (basicText rest)
  | c :: rest => if isBasicChar c then push (some c) (basicText rest) else none
  | [] => none

/-- Text after an opening single quote. -/
def literalText : Reader (List Char)
  | '\'' :: rest => some ([], rest)
  | c :: rest => if isLiteralChar c then push (some c) (literalText rest) else none
  | [] => none

/-- Nothing but spaces stands between here and the end of the line. -/
def endsLine (text : List Char) : Bool := (newline? (skipSpaces text)).isSome

/-- Text after three double quotes. The flag says that blanks are being taken away. -/
def multilineBasicText : Bool → Reader (List Char)
  | true, ' ' :: rest => multilineBasicText true rest
  | true, '\t' :: rest => multilineBasicText true rest
  | true, '\n' :: rest => multilineBasicText true rest
  | true, '\r' :: '\n' :: rest => multilineBasicText true rest
  | _, '"' :: '"' :: '"' :: '"' :: '"' :: rest => some (['"', '"'], rest)
  | _, '"' :: '"' :: '"' :: '"' :: rest => some (['"'], rest)
  | _, '"' :: '"' :: '"' :: rest => some ([], rest)
  | _, '"' :: rest => push (some '"') (multilineBasicText false rest)
  | _, '\n' :: rest => push (some '\n') (multilineBasicText false rest)
  | _, '\r' :: '\n' :: rest => push (some '\n') (multilineBasicText false rest)
  | _, '\\' :: 'u' :: a :: b :: c :: d :: rest =>
    push (codePoint? [a, b, c, d]) (multilineBasicText false rest)
  | _, '\\' :: 'U' :: a :: b :: c :: d :: e :: f :: g :: h :: rest =>
    push (codePoint? [a, b, c, d, e, f, g, h]) (multilineBasicText false rest)
  | _, '\\' :: c :: rest =>
    if endsLine (c :: rest) then multilineBasicText true (c :: rest)
    else push (escape? c) (multilineBasicText false rest)
  | _, c :: rest =>
    if isBasicChar c then push (some c) (multilineBasicText false rest) else none
  | _, [] => none

/-- Text after three single quotes. -/
def multilineLiteralText : Reader (List Char)
  | '\'' :: '\'' :: '\'' :: '\'' :: '\'' :: rest => some (['\'', '\''], rest)
  | '\'' :: '\'' :: '\'' :: '\'' :: rest => some (['\''], rest)
  | '\'' :: '\'' :: '\'' :: rest => some ([], rest)
  | '\'' :: rest => push (some '\'') (multilineLiteralText rest)
  | '\n' :: rest => push (some '\n') (multilineLiteralText rest)
  | '\r' :: '\n' :: rest => push (some '\n') (multilineLiteralText rest)
  | c :: rest => if isLiteralChar c then push (some c) (multilineLiteralText rest) else none
  | [] => none

/-- The text without a line feed at its start. -/
def afterNewline (text : List Char) : List Char := (newline? text).getD text

/-- Text on one line, between quotes of either kind. -/
def singleLineText : Reader (List Char)
  | '"' :: rest => basicText rest
  | '\'' :: rest => literalText rest
  | _ => none

/-- Text between quotes of any kind. -/
def quotedText : Reader (List Char)
  | '"' :: '"' :: '"' :: rest => multilineBasicText false (afterNewline rest)
  | '\'' :: '\'' :: '\'' :: rest => multilineLiteralText (afterNewline rest)
  | text => singleLineText text

end RouteCosts.Toml
