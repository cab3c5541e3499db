/-!
# Decimal numerals

A whole number is read from ASCII digits, of which there must be one at least; leading zeros are
allowed. `unsigned?` allows a plus sign in front, `signed?` a plus or a minus sign. Written numbers
are those of `toString`, without sign or leading zeros.
-/

namespace RouteCosts.Text

/-- The value of a string of decimal digits read after `value`. -/
def digitsFrom (value : Nat) : List Char → Option Nat
  | [] => some value
  | c :: rest => if c.isDigit then digitsFrom (value * 10 + (c.toNat - '0'.toNat)) rest else none

/-- The value of a non-empty string of decimal digits. -/
def digits? : List Char → Option Nat
  | [] => none
  | text => digitsFrom 0 text

/-- A numeral without minus sign. -/
def unsigned? : List Char → Option Nat
  | '+' :: text => digits? text
  | text => digits? text

/-- A numeral with or without sign. -/
def signed? : List Char → Option Int
  | '-' :: text => (digits? text).map fun n => -(n : Int)
  | text => (unsigned? text).map fun n => (n : Int)

end RouteCosts.Text
