/-!
# Columns of text

Text is filled up with spaces to the width of its column; text that is wider already stays as it is.
-/

namespace RouteCosts.Text

/-- Text set flush right in a column. -/
def alignRight (width : Nat) (text : String) : String :=
  String.ofList (List.replicate (width - text.length) ' ') ++ text

/-- Text set flush left in a column. -/
def alignLeft (width : Nat) (text : String) : String :=
  text ++ String.ofList (List.replicate (width - text.length) ' ')

end RouteCosts.Text
