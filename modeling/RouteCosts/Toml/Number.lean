import RouteCosts.Network.Address
import RouteCosts.Text.Numeral
import RouteCosts.Text.Split
import RouteCosts.Toml.Value

/-!
# Values written as one word

Numbers, truth values and points in time are words: runs of letters, digits and a few signs. Digits
may be set apart by single underscores. Whole numbers are written in base ten, without leading
zeros, or in base sixteen, eight or two, and lie within 64 bits. A number with a fraction or an
exponent must not be too large for a double. Times of day and dates must exist.
-/

namespace RouteCosts.Toml

/-- A character may stand in a word. -/
def isWordChar (c : Char) : Bool :=
  c.isAlphanum || c == '_' || c == '+' || c == '-' || c == '.' || c == ':'

/-! ### Numbers -/

/-- The digits of a run in which single underscores may stand between digits. -/
def digitRun? (isDigit : Char → Bool) (text : List Char) : Option (List Char) :=
  let groups := Text.split '_' text
  if groups.all fun group => !group.isEmpty && group.all isDigit then some groups.flatten else none

/-- The number that digits write in a base. -/
def inBase (base : Nat) (digits : List Char) : Nat :=
  digits.foldl (fun n c => n * base + (HostAddress.hexDigit? c).getD 0) 0

/-- A sign in front of a number, and what follows it. -/
def sign : List Char → Bool × List Char
  | '+' :: rest => (false, rest)
  | '-' :: rest => (true, rest)
  | text => (false, text)

/-- Whole digits in base ten: a zero, or digits that do not begin with one. -/
def wholeDigits? (text : List Char) : Option (List Char) :=
  match text with
  | ['0'] => some text
  | '0' :: _ => none
  | _ => digitRun? Char.isDigit text

/-- A number within the range of 64 bits. -/
def within64 (n : Int) : Option Int :=
  if Int64.minValue.toInt ≤ n ∧ n ≤ Int64.maxValue.toInt then some n else none

/-- A whole number. -/
def integer? (word : List Char) : Option Int :=
  match word with
  | '0' :: 'x' :: rest =>
    (digitRun? (fun c => (HostAddress.hexDigit? c).isSome) rest).bind fun digits =>
      within64 (inBase 16 digits)
  | '0' :: 'o' :: rest =>
    (digitRun? (fun c => '0' ≤ c && c ≤ '7') rest).bind fun digits => within64 (inBase 8 digits)
  | '0' :: 'b' :: rest =>
    (digitRun? (fun c => c == '0' || c == '1') rest).bind fun digits => within64 (inBase 2 digits)
  | _ =>
    let (negative, rest) := sign word
    (wholeDigits? rest).bind fun digits =>
      let n : Int := inBase 10 digits
      within64 (if negative then -n else n)

/-- What begins the exponent of a number. -/
def isExponentMark (c : Char) : Bool := c == 'e' || c == 'E'

/-- The exponent after its mark, with its sign. -/
def exponent? (text : List Char) : Option Int :=
  let (negative, rest) := sign text
  (digitRun? Char.isDigit rest).map fun digits =>
    let n : Int := inBase 10 digits
    if negative then -n else n

/-- The least number too large for a double: half a step above the greatest one. -/
def tooLarge : Nat := Nat.pow 2 1024 - Nat.pow 2 970

/-- A number with the given digits and power of ten is too large for a double. -/
def overflows (digits : List Char) (power : Int) : Bool :=
  let digits := digits.dropWhile (· == '0')
  let size := power + digits.length
  if digits.isEmpty || size < 300 then false
  else if 400 < size then true
  else if 0 ≤ power then decide (tooLarge ≤ inBase 10 digits * Nat.pow 10 power.toNat)
  else decide (tooLarge * Nat.pow 10 (-power).toNat ≤ inBase 10 digits)

/-- The digits and the power of ten of a number that has a fraction, an exponent or both. -/
def decimal? (text : List Char) : Option (List Char × Int) :=
  let isPart := fun c => c != '.' && !isExponentMark c
  match wholeDigits? (text.takeWhile isPart), text.dropWhile isPart with
  | some whole, '.' :: rest =>
    let fraction := rest.takeWhile fun c => !isExponentMark c
    match digitRun? Char.isDigit fraction, rest.dropWhile fun c => !isExponentMark c with
    | some digits, [] => some (whole ++ digits, -digits.length)
    | some digits, _ :: power =>
      (exponent? power).map fun n => (whole ++ digits, n - digits.length)
    | none, _ => none
  | some whole, mark :: power =>
    if isExponentMark mark then (exponent? power).map fun n => (whole, n) else none
  | _, _ => none

/-- A word is a number with a fraction or an exponent, or stands for no number or an infinite one.
A negative number is never too large. -/
def isFloat (word : List Char) : Bool :=
  let (negative, rest) := sign word
  if rest == ['i', 'n', 'f'] || rest == ['n', 'a', 'n'] then true
  else match decimal? rest with
    | some (digits, power) => negative || !overflows digits power
    | none => false

/-! ### Points in time -/

/-- A number of exactly the digits given, within bounds. -/
def boundedNumber? (low high : Nat) (digits : List Char) : Option Nat :=
  match Text.digits? digits with
  | some n => if low ≤ n ∧ n ≤ high then some n else none
  | none => none

/-- The number of days of a month. -/
def daysIn (year month : Nat) : Nat :=
  if month = 2 then
    if year % 4 = 0 ∧ (year % 100 ≠ 0 ∨ year % 400 = 0) then 29 else 28
  else if month = 4 ∨ month = 6 ∨ month = 9 ∨ month = 11 then 30
  else 31

/-- A word is a date. -/
def isDate : List Char → Bool
  | [y₁, y₂, y₃, y₄, '-', m₁, m₂, '-', d₁, d₂] =>
    match Text.digits? [y₁, y₂, y₃, y₄], boundedNumber? 1 12 [m₁, m₂] with
    | some year, some month => (boundedNumber? 1 (daysIn year month) [d₁, d₂]).isSome
    | _, _ => false
  | _ => false

/-- The text after hours and minutes. -/
def clock? : List Char → Option (List Char)
  | h₁ :: h₂ :: ':' :: m₁ :: m₂ :: rest =>
    if (boundedNumber? 0 23 [h₁, h₂]).isSome && (boundedNumber? 0 59 [m₁, m₂]).isSome then some rest
    else none
  | _ => none

/-- The text after a fraction of a second, if there is one. -/
def afterFraction? : List Char → Option (List Char)
  | '.' :: c :: rest => if c.isDigit then some (rest.dropWhile Char.isDigit) else none
  | '.' :: [] => none
  | text => some text

/-- The text after a time of day. -/
def timeOfDay? (text : List Char) : Option (List Char) :=
  match clock? text with
  | some (':' :: s₁ :: s₂ :: rest) =>
    if (boundedNumber? 0 60 [s₁, s₂]).isSome then afterFraction? rest else none
  | _ => none

/-- A text is empty or the distance from universal time. -/
def isOffset : List Char → Bool
  | [] | ['Z'] | ['z'] => true
  | '+' :: rest | '-' :: rest => clock? rest == some []
  | _ => false

/-- A word is a time of day, with or without a distance from universal time. -/
def isZonedTime (word : List Char) : Bool :=
  match timeOfDay? word with
  | some rest => isOffset rest
  | none => false

/-- A word is a point in time: a date with or without a time of day, or a time of day. -/
def isMoment (word : List Char) : Bool :=
  isDate word || timeOfDay? word == some [] ||
    match word.drop 10 with
    | 'T' :: time | 't' :: time => isDate (word.take 10) && isZonedTime time
    | _ => false

/-! ### Words -/

/-- The value that a word stands for. -/
def wordValue? (word : List Char) : Option Value :=
  if word == ['t', 'r', 'u', 'e'] then some (.boolean true)
  else if word == ['f', 'a', 'l', 's', 'e'] then some (.boolean false)
  else if isMoment word then some .moment
  else match integer? word with
    | some n => some (.integer n)
    | none => if isFloat word then some .float else none

/-- A value written as one word, or as a date and a time of day with a space between them. -/
def wordReader : Reader Value := fun text =>
  let word := text.takeWhile isWordChar
  let rest := text.dropWhile isWordChar
  match isDate word, rest with
  | true, ' ' :: more =>
    let time := more.takeWhile isWordChar
    if time.isEmpty then some (.moment, rest)
    else if isZonedTime time then some (.moment, more.dropWhile isWordChar)
    else none
  | _, _ => (wordValue? word).map fun value => (value, rest)

end RouteCosts.Toml
