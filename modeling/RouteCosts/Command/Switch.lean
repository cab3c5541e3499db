import RouteCosts.Assoc
import RouteCosts.Text.Numeral

/-!
# Switches

A switch is an option of a command: a long name, perhaps a letter, and how many values of which kind
it takes. What was said so far is kept as the values of each switch that was used, together with the
one use that still waits for values or for its check. A use is checked when the next switch begins
or the line ends: it must have all its values, each of its kind, and only some switches may be used
twice.
-/

namespace RouteCosts

/-- What the values of a switch are. -/
inductive ValueKind where
  | text
  /-- A text that is not empty. -/
  | path
  /-- A number that fits in 16 bits, perhaps with a sign. -/
  | port
  deriving DecidableEq

/-- The port that a text writes. -/
def portOfText? (text : String) : Option UInt16 :=
  match Text.signed? text.toList with
  | some n => if 0 ≤ n ∧ n < UInt16.size then some (UInt16.ofNat n.toNat) else none
  | none => none

/-- A value is of a kind. -/
def ValueKind.admits (value : String) : ValueKind → Bool
  | text => true
  | path => value != ""
  | port => (portOfText? value).isSome

/-- An option of a command. -/
structure Switch where
  name : String
  letter : Option Char
  /-- How many values each use takes. -/
  arity : Nat
  kind : ValueKind
  /-- It may be used more than once. -/
  repeatable : Bool
  deriving DecidableEq

namespace Switch

/-- A switch that takes no value. -/
def plain (name : String) (letter : Option Char) : Switch := ⟨name, letter, 0, .text, false⟩

/-- A switch that takes one value. -/
def taking (kind : ValueKind) (name : String) (letter : Option Char) : Switch :=
  ⟨name, letter, 1, kind, false⟩

end Switch

/-- What a line asks for instead of a command. -/
inductive Question where
  /-- How the program, or one command of it, is used. -/
  | help (topic : Option String)
  | version
  deriving DecidableEq

/-- Why a line is not carried out. -/
inductive Stop where
  | asked (question : Question)
  /-- The line does not follow the rules. -/
  | misuse
  deriving DecidableEq

/-- The values of the switches that were used, in the order of the line. -/
abbrev Uses := List (String × List String)

namespace Uses

/-- The values of all uses of a switch. -/
def values (uses : Uses) (switch : Switch) : List String := (uses.lookup switch.name).getD []

/-- The value of a switch that takes one. -/
def value? (uses : Uses) (switch : Switch) : Option String := (uses.values switch).head?

/-- A switch was used. -/
def has (uses : Uses) (switch : Switch) : Bool := (uses.lookup switch.name).isSome

/-- One more use of a switch. -/
def add (uses : Uses) (switch : Switch) (values : List String) : Except Stop Uses :=
  if values.length = switch.arity ∧ values.all (ValueKind.admits · switch.kind) ∧
      (switch.repeatable ∨ !uses.has switch) then
    .ok (Assoc.insert switch.name (uses.values switch ++ values) uses)
  else .error .misuse

end Uses

/-- What was said so far. -/
structure Progress where
  uses : Uses
  /-- The last use of a switch, which is not checked yet, and its values. -/
  pending : Option (Switch × List String)

namespace Progress

/-- Nothing was said. -/
def start : Progress := ⟨[], none⟩

/-- Check the use that is not checked yet. -/
def settle (progress : Progress) : Except Stop Uses :=
  match progress.pending with
  | none => .ok progress.uses
  | some (switch, values) => progress.uses.add switch values

/-- The last use waits for values. -/
def isWaiting (progress : Progress) : Bool :=
  match progress.pending with
  | some (switch, values) => decide (values.length < switch.arity)
  | none => false

/-- Give a value to the use that waits for it. -/
def give (progress : Progress) (value : String) : Except Stop Progress :=
  match progress.pending with
  | some (switch, values) =>
    if values.length < switch.arity then
      .ok { progress with pending := some (switch, values ++ [value]) }
    else .error .misuse
  | none => .error .misuse

/-- Use a switch with the values given, and check the use at once. -/
def use (progress : Progress) (switch : Switch) (values : List String) : Except Stop Progress :=
  match progress.settle with
  | .error stop => .error stop
  | .ok uses => (uses.add switch values).map fun uses => ⟨uses, none⟩

/-- Begin to use a switch whose values follow. -/
def begin (progress : Progress) (switch : Switch) : Except Stop Progress :=
  progress.settle.map fun uses => ⟨uses, some (switch, [])⟩

/-- Ask a question. -/
def ask (progress : Progress) (question : Question) : Except Stop Progress :=
  match progress.settle with
  | .error stop => .error stop
  | .ok _ => .error (.asked question)

end Progress

end RouteCosts
