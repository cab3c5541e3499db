import RouteCosts.Command.Line
import RouteCosts.Command.Outcome
import RouteCosts.Dialogue.Enquiry
import RouteCosts.Network.Client
import RouteCosts.Settings.Basic
import RouteCosts.Text.Column

/-!
# Asking a server

A client connects to a server, makes its enquiry and hangs up. What it learnt is printed as a
numbered list of the locations and the cost of the route, if there is one.
-/

namespace RouteCosts.ClientOptions

/-- What is printed before a client connects. -/
def announcement (options : ClientOptions) : String := s!"Connecting to {options.host}...\n"

/-- Make the enquiry, at a time given in the messages that are sent. -/
def enquire (network : Network) (now : Int64) (settings : Settings) (options : ClientOptions) :
    Except ClientError Enquiry :=
  match (Client.new (settings.endpoint options.port)).connect network options.host with
  | (.error error, _) => .error error
  | (.ok _, client) =>
    match client.run (Enquiry.answer now) (Enquiry.opening now) (.new options.route) with
    | (.error error, _, _) => .error error
    | (.ok (), client, enquiry) => client.disconnect.1.map fun _ => enquiry

/-- Numbered lines. -/
def numbered (number : Nat) : List String → String
  | [] => ""
  | name :: rest =>
    "  " ++ Text.alignRight 3 (toString number) ++ ". " ++ name ++ "\n" ++ numbered (number + 1) rest

/-- What is printed about an enquiry. -/
def findings (enquiry : Enquiry) : String :=
  "\nLocations:\n" ++ numbered 1 enquiry.locations ++
    match enquiry.cost with
    | some cost => s!"\nRoute cost: {cost.toNat}\n"
    | none => ""

/-- The outcome of an enquiry. -/
def outcome (tree : FileTree) (options : ClientOptions) : Except ClientError Enquiry → Outcome
  | .ok enquiry => .printing tree (options.announcement ++ findings enquiry)
  | .error error => .failing tree options.announcement error.message

end RouteCosts.ClientOptions
