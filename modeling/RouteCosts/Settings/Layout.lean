import RouteCosts.Settings.Basic
import RouteCosts.Toml.Document
import RouteCosts.Toml.Writer

/-!
# Settings as a document

Settings are written in three sections. In reading, sections and most fields may be left out, and
names that mean nothing here do not count. A section may also be an array that gives the fields in
their order; there only fields with a standard value may be left out, from the end.

How a record becomes a section is assumed to be this: the fields are written in the order in which
they are declared, under their own names; a field that may have no value and has none is left out;
and in reading, a number that does not fit its field is an error, as is a value of another kind.
-/

namespace RouteCosts.Settings

open Toml

/-! ### Writing -/

/-- A pair for a value that may not be there. -/
def optional {α : Type} (name : String) (scalar : α → Scalar) : Option α → List (String × Scalar)
  | some a => [(name, scalar a)]
  | none => []

/-- A span of time as a whole number. -/
def duration (ms : UInt64) : Scalar := .integer ms.toNat

/-- The sections of settings. -/
def sections (settings : Settings) : List Section :=
  [("general", [("verbose", .boolean settings.verbose)]),
    ("network",
      [("port", .integer settings.port.toNat), ("bind_address", .text settings.bindAddress),
        ("connect_timeout_ms", duration settings.connectTimeout)] ++
        optional "read_timeout_ms" duration settings.readTimeout),
    ("data",
      optional "locations" .text settings.locations ++ optional "routes" .text settings.routes)]

/-- The text of settings. There is none if a span of time is too long for the format. -/
def text? (settings : Settings) : Option String := documentText? settings.sections

/-! ### Reading -/

/-- A value that is a text. -/
def asText? : Value → Option String
  | .text s => some s
  | _ => none

/-- A value that is true or false. -/
def asBool? : Value → Option Bool
  | .boolean b => some b
  | _ => none

/-- A value that is a whole number from 0 up to and not including `size`. -/
def asNat? (size : Nat) : Value → Option Nat
  | .integer n => if 0 ≤ n ∧ n < size then some n.toNat else none
  | _ => none

/-- A value that is a port. -/
def asPort? (value : Value) : Option UInt16 := (asNat? UInt16.size value).map UInt16.ofNat

/-- A value that is a span of time. -/
def asDuration? (value : Value) : Option UInt64 := (asNat? UInt64.size value).map UInt64.ofNat

/-- The fields of a section, by name or by position. -/
inductive Fields where
  | named (entries : Entries)
  | listed (items : List Value)

namespace Fields

/-- The fields of a value that stands for a section. A point in time has none that count. -/
def of? : Value → Option Fields
  | .table _ entries => some (named entries)
  | .array items => some (listed items)
  | .tables elements => some (listed (elements.map (.table .header)))
  | .moment => some (named [])
  | _ => none

/-- The value of a field. -/
def get? (fields : Fields) (position : Nat) (name : String) : Option Value :=
  match fields with
  | named entries => entries.lookup name
  | listed items => items[position]?

/-- A field with a standard value. -/
def withStandard {α : Type} (fields : Fields) (position : Nat) (name : String)
    (as? : Value → Option α) (standard : α) : Option α :=
  match fields.get? position name with
  | some value => as? value
  | none => some standard

/-- A field that may have no value; in an array it must stand there all the same. -/
def optional {α : Type} (fields : Fields) (position : Nat) (name : String)
    (as? : Value → Option α) : Option (Option α) :=
  match fields.get? position name, fields with
  | some value, _ => (as? value).map some
  | none, named _ => some none
  | none, listed _ => none

end Fields

/-- The fields of a section of a document; none if it is left out. -/
def section? (document : Entries) (name : String) : Option Fields :=
  match document.lookup name with
  | some value => Fields.of? value
  | none => some (.named [])

/-- The settings of a document. -/
def ofDocument? (document : Entries) : Option Settings := do
  let general ← section? document "general"
  let network ← section? document "network"
  let data ← section? document "data"
  return {
    verbose := ← general.withStandard 0 "verbose" asBool? standard.verbose
    port := ← network.withStandard 0 "port" asPort? standard.port
    bindAddress := ← network.withStandard 1 "bind_address" asText? standard.bindAddress
    connectTimeout :=
      ← network.withStandard 2 "connect_timeout_ms" asDuration? standard.connectTimeout
    readTimeout := ← network.optional 3 "read_timeout_ms" asDuration?
    locations := ← data.optional 0 "locations" asText?
    routes := ← data.optional 1 "routes" asText? }

/-- The settings that a text writes. -/
def ofText? (text : String) : Option Settings := (document? text).bind ofDocument?

end RouteCosts.Settings
