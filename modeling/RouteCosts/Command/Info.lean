import RouteCosts.Text.Column
import RouteCosts.Wire.Kind

/-!
# How messages look

The sizes of messages, in a table with a line for each kind.
-/

namespace RouteCosts.Command

/-- The line of a kind: its number, its name and the bytes of its messages. -/
def kindLine (kind : Kind) : String :=
  "  " ++ Text.alignRight 4 (toString kind.id.toNat) ++ "  " ++ Text.alignLeft 18 kind.name ++
    " " ++ Text.alignRight 4 (toString kind.length) ++ " bytes\n"

/-- What there is to know about messages. -/
def infoText : String :=
  "Waypoint Protocol Information\n=============================\n\n" ++
    s!"Default Port: {defaultPort.toNat}\n" ++
    s!"Header Size: {headerSize} bytes\n" ++
    s!"Max Message Size: {Kind.maxLength} bytes\n" ++
    "Byte Order: big-endian\n\nMessages:\n" ++ String.join (Kind.all.map kindLine)

end RouteCosts.Command
