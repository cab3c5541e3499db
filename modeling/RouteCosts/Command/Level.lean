import RouteCosts.Command.Switch

/-!
# Reading the words of a level

A line has levels: the program's own, and below it that of a command. A level knows some switches,
questions and commands. A long name stands after two dashes, and its value may follow an equals
sign; letters stand together after one dash, and the rest of the word is the value of the first
letter that takes one. Two dashes alone end the switches. Any other word is a value if one is
waited for, and else the name of a command.
-/

namespace RouteCosts

/-- A word of a line. -/
inductive Word where
  /-- Two dashes and nothing else. -/
  | divider
  | long (name : List Char) (value : Option (List Char))
  | letters (letters : List Char)
  | plain

/-- How a word is to be read. -/
def Word.of (text : List Char) : Word :=
  match text with
  | ['-', '-'] => divider
  | '-' :: '-' :: rest =>
    long (rest.takeWhile (· != '=')) ((rest.dropWhile (· != '=')).tail?)
  | '-' :: c :: rest => letters (c :: rest)
  | _ => plain

/-- What may be said on a level. -/
structure Level where
  switches : List Switch
  /-- The long name and the letter of each question. -/
  questions : List (String × Char × Question)
  commands : List String

/-- How far the words of a level go. -/
inductive Reach where
  | finished (progress : Progress)
  /-- They end at the name of a command, which has words of its own. -/
  | command (progress : Progress) (name : String) (rest : List String)

namespace Level

/-- The switch of a long name. -/
def switchNamed? (level : Level) (name : String) : Option Switch :=
  level.switches.find? fun switch => switch.name == name

/-- The switch of a letter. -/
def switchLettered? (level : Level) (letter : Char) : Option Switch :=
  level.switches.find? fun switch => switch.letter == some letter

/-- A long name with or without a value. -/
def readLong (level : Level) (progress : Progress) (name : String) (value : Option String) :
    Except Stop Progress :=
  match level.switchNamed? name, value with
  | some switch, some value =>
    if switch.arity = 0 then .error .misuse else progress.use switch [value]
  | some switch, none =>
    if switch.arity = 0 then progress.use switch [] else progress.begin switch
  | none, some _ => .error .misuse
  | none, none =>
    match level.questions.find? fun question => question.1 == name with
    | some (_, _, question) => progress.ask question
    | none => .error .misuse

/-- The value that the rest of a word is. An equals sign may stand before it. -/
def attached : List Char → String
  | '=' :: rest => String.ofList rest
  | rest => String.ofList rest

/-- Letters that stand together. -/
def readLetters (level : Level) (progress : Progress) : List Char → Except Stop Progress
  | [] => .ok progress
  | letter :: rest =>
    match level.switchLettered? letter with
    | some switch =>
      if switch.arity = 0 then
        match progress.use switch [] with
        | .ok progress => readLetters level progress rest
        | .error stop => .error stop
      else if rest.isEmpty then progress.begin switch
      else progress.use switch [attached rest]
    | none =>
      match level.questions.find? fun question => question.2.1 == letter with
      | some (_, _, question) => progress.ask question
      | none => .error .misuse

/-- A word that is not the name of a command. -/
def readWord (level : Level) (progress : Progress) (text : String) (isLast : Bool) :
    Except Stop Progress :=
  match Word.of text.toList with
  | .divider => if isLast then .ok progress else .error .misuse
  | .long name value => level.readLong progress (String.ofList name) (value.map String.ofList)
  | .letters letters => level.readLetters progress letters
  | .plain => progress.give text

/-- Read words up to the name of a command or to the end. -/
def read (level : Level) (progress : Progress) : List String → Except Stop Reach
  | [] => .ok (.finished progress)
  | text :: rest =>
    if !progress.isWaiting && level.commands.contains text then .ok (.command progress text rest)
    else match level.readWord progress text rest.isEmpty with
    | .ok progress => read level progress rest
    | .error stop => .error stop

end Level

end RouteCosts
