/-!
# Putting text between quotes

A text is written in the first form that can hold it as it stands: between double quotes, between
single quotes, and over several lines between triple quotes of either kind. A text that no form can
hold as it stands is written with escapes between double quotes, over several lines if it holds line
feeds.
-/

namespace RouteCosts.Toml

/-- The forms of quoted text. -/
inductive Quotes where
  | basic
  | literal
  | multilineBasic
  | multilineLiteral
  deriving DecidableEq

/-- A character that no form but escapes can hold. -/
def isControl (c : Char) : Bool :=
  c != '\t' && c != '\n' && (decide (c.toNat < 0x20) || c.toNat == 0x7F)

/-- No more than `most` of a quote stand in a row, and no more than `left` at the start. -/
def quotesWithin (quote : Char) (most : Nat) : Nat → List Char → Bool
  | _, [] => true
  | left, c :: rest =>
    if c = quote then
      match left with
      | 0 => false
      | left + 1 => quotesWithin quote most left rest
    else quotesWithin quote most most rest

/-- A form can hold a text as it stands. -/
def Quotes.holds (text : List Char) : Quotes → Bool
  | basic => !text.any isControl && !text.contains '\n' && !text.contains '\\' &&
    quotesWithin '"' 0 0 text
  | literal => !text.any isControl && !text.contains '\n' && quotesWithin '\'' 0 0 text
  | multilineBasic => !text.any isControl && !text.contains '\\' && quotesWithin '"' 2 2 text
  | multilineLiteral => !text.any isControl && quotesWithin '\'' 2 2 text

/-- The form in which a text is written. -/
def Quotes.of (text : List Char) : Quotes :=
  match [basic, literal, multilineBasic, multilineLiteral].find? (Quotes.holds text) with
  | some quotes => quotes
  | none => if text.contains '\n' then multilineBasic else basic

/-- A hexadecimal digit, in capitals. -/
def hexCapital (n : Nat) : Char := (Nat.digitChar n).toUpper

/-- A character between double quotes on one line, where quotes are not concerned. -/
def escaped (c : Char) : List Char :=
  if c = '\x08' then ['\\', 'b']
  else if c = '\t' then ['\\', 't']
  else if c = '\n' then ['\\', 'n']
  else if c = '\x0c' then ['\\', 'f']
  else if c = '\r' then ['\\', 'r']
  else if c = '\\' then ['\\', '\\']
  else if isControl c then
    ['\\', 'u', '0', '0', hexCapital (c.toNat / 16), hexCapital (c.toNat % 16)]
  else [c]

/-- Text between double quotes on one line. -/
def basicEscaped (text : List Char) : List Char :=
  text.flatMap fun c => if c = '"' then ['\\', '"'] else escaped c

/-- Text between triple double quotes, where every third quote in a row gets an escape. `left` more
may go without. -/
def multilineEscaped : Nat → List Char → List Char
  | _, [] => []
  | left, c :: rest =>
    if c = '"' then
      match left with
      | 0 => '\\' :: '"' :: multilineEscaped 2 rest
      | left + 1 => '"' :: multilineEscaped left rest
    else if c = '\n' then '\n' :: multilineEscaped 2 rest
    else escaped c ++ multilineEscaped 2 rest

/-- The text between triple quotes begins on a line of its own if it has several. -/
def onOwnLine (text body : List Char) : List Char :=
  if text.contains '\n' then '\n' :: body else body

/-- A text with its quotes. -/
def quoted (text : List Char) : List Char :=
  match Quotes.of text with
  | .basic => '"' :: basicEscaped text ++ ['"']
  | .literal => '\'' :: text ++ ['\'']
  | .multilineBasic =>
    '"' :: '"' :: '"' :: onOwnLine text (multilineEscaped 2 text) ++ ['"', '"', '"']
  | .multilineLiteral => '\'' :: '\'' :: '\'' :: onOwnLine text text ++ ['\'', '\'', '\'']

end RouteCosts.Toml
