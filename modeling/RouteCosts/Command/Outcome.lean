import RouteCosts.Files.Tree

/-!
# Outcomes

What a run of the program leaves behind: what it printed, how it ended, and the files.
-/

namespace RouteCosts

/-- How a run ends. -/
inductive Ending where
  | success
  | failure (message : String)
  /-- The line does not follow the rules. -/
  | misuse
  deriving DecidableEq

namespace Ending

/-- The number that a run reports. -/
def code : Ending → Nat
  | success => 0
  | failure _ => 1
  | misuse => 2

/-- What is reported about a failure. -/
def report? : Ending → Option String
  | failure message => some ("Error: " ++ message)
  | _ => none

end Ending

/-- What a run leaves behind. -/
structure Outcome where
  printed : String
  ending : Ending
  tree : FileTree

namespace Outcome

/-- A run that prints a text and succeeds. -/
def printing (tree : FileTree) (text : String) : Outcome := ⟨text, .success, tree⟩

/-- A run that fails after it printed a text. -/
def failing (tree : FileTree) (printed message : String) : Outcome :=
  ⟨printed, .failure message, tree⟩

end Outcome

end RouteCosts
