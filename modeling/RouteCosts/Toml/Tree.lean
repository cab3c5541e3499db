import RouteCosts.Toml.Value

/-!
# Putting a document together

A document is a sequence of statements: a key is given a value, or a header names the table that the
keys after it belong to. No key is given a value twice and no table has two headers. A header may go
through any table or into the last of several, but not through other values; a dotted key goes
through tables that no header and no braces have closed, and ends in a table that only dotted keys
made.
-/

namespace RouteCosts.Toml

/-- One statement of a document. -/
inductive Statement where
  | pair (key : List String) (value : Value)
  | table (path : List String)
  | tables (path : List String)

/-- Keys may still be added to a table. -/
def Origin.isOpen : Origin → Bool
  | implied | dotted => true
  | header | inline => false

/-- Go down a path and change the table at its end; tables that are not there are made on the way.
A table of the origin given stands at the start. -/
def descend (byKey : Bool) (change : Origin → Entries → Option Entries) (origin : Origin) :
    List String → Entries → Option Entries
  | [], entries => change origin entries
  | key :: path, entries =>
    let made := if byKey then Origin.dotted else .implied
    match entries.lookup key with
    | none =>
      (descend byKey change made path []).map fun inner =>
        Assoc.insert key (.table made inner) entries
    | some (.table inside inner) =>
      if inside = .inline ∨ (byKey ∧ !inside.isOpen) then none
      else (descend byKey change inside path inner).map fun inner =>
        Assoc.insert key (.table inside inner) entries
    | some (.tables elements) =>
      match elements.getLast? with
      | none => none
      | some last =>
        (descend byKey change .header path last).map fun last =>
          Assoc.insert key (.tables (elements.dropLast ++ [last])) entries
    | some _ => none

/-- Give a key a value, in a table of the origin given. -/
def addPair (origin : Origin) (entries : Entries) (key : List String) (value : Value) :
    Option Entries :=
  match key.getLast? with
  | none => none
  | some name =>
    let path := key.dropLast
    descend true (fun reached inner =>
      if (reached = .dotted ↔ path = []) ∨ (inner.lookup name).isSome then none
      else some (inner ++ [(name, value)])) origin path entries

/-- The table of some pairs, of the origin given. -/
def ofPairs (origin : Origin) : Entries → List (List String × Value) → Option Entries
  | entries, [] => some entries
  | entries, (key, value) :: rest =>
    match addPair origin entries key value with
    | some entries => ofPairs origin entries rest
    | none => none

/-- The table at the end of a path that a header goes down. -/
def seek : List String → Entries → Option Entries
  | [], entries => some entries
  | key :: path, entries =>
    match entries.lookup key with
    | none => some []
    | some (.table .inline _) => none
    | some (.table _ inner) => seek path inner
    | some (.tables elements) =>
      match elements.getLast? with
      | some last => seek path last
      | none => none
    | some _ => none

/-- The table that statements are about. -/
inductive Place where
  | root
  | table (path : List String)
  | tables (path : List String)

/-- A document under way: what is finished, and the table that statements are about. -/
structure Draft where
  finished : Entries
  place : Place
  current : Entries

namespace Draft

/-- The document before its first statement. -/
def start : Draft := ⟨[], .root, []⟩

/-- Put a value at the end of a path, made from what stands there. -/
def put (entries : Entries) (path : List String) (value : Option Value → Option Value) :
    Option Entries :=
  match path.getLast? with
  | none => none
  | some name =>
    descend false (fun _ inner =>
      (value (inner.lookup name)).map fun v => Assoc.insert name v inner) .header path.dropLast
      entries

/-- One more table after those that stand there. -/
def append (element : Entries) : Option Value → Option Value
  | none => some (.tables [element])
  | some (.tables elements) => some (.tables (elements ++ [element]))
  | some _ => none

/-- Finish the table that statements are about. -/
def close (draft : Draft) : Option Entries :=
  match draft.place with
  | .root => some draft.current
  | .table path => put draft.finished path fun _ => some (.table .header draft.current)
  | .tables path => put draft.finished path (append draft.current)

/-- What stands at the end of a path, if a header may go there. -/
def standing (entries : Entries) (path : List String) : Option (Option Value) :=
  match path.getLast? with
  | none => none
  | some name => (seek path.dropLast entries).map fun inner => inner.lookup name

/-- The document after one more statement. -/
def step (draft : Draft) : Statement → Option Draft
  | .pair key value =>
    (addPair .header draft.current key value).map fun current => { draft with current := current }
  | .table path =>
    match draft.close with
    | none => none
    | some entries =>
      match standing entries path with
      | some none => some ⟨entries, .table path, []⟩
      | some (some (.table .implied inner)) => some ⟨entries, .table path, inner⟩
      | _ => none
  | .tables path =>
    match draft.close with
    | none => none
    | some entries =>
      match standing entries path with
      | some none => some ⟨entries, .tables path, []⟩
      | some (some (.tables _)) => some ⟨entries, .tables path, []⟩
      | _ => none

/-- The document after some statements. -/
def steps (draft : Draft) : List Statement → Option Draft
  | [] => some draft
  | statement :: rest =>
    match draft.step statement with
    | some draft => steps draft rest
    | none => none

end Draft

/-- The document that statements make. -/
def ofStatements (statements : List Statement) : Option Entries :=
  (Draft.start.steps statements).bind Draft.close

end RouteCosts.Toml
