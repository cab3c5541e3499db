import RouteCosts.Text.Numeral
import RouteCosts.Text.Split

/-!
# Internet addresses

An address is written as four decimal octets, or as eight groups of hexadecimal digits, of which one
run of zeros may be left out (`::`) and the last two may be written as four octets. Written back,
groups are small and without leading zeros, the first of the longest runs of two or more zero groups
is left out, and an address of four octets inside one of eight groups shows them.
-/

namespace RouteCosts

/-- An address of a host. -/
inductive HostAddress where
  | v4 (octets : List UInt8)
  | v6 (groups : List UInt16)
  deriving DecidableEq

/-- An address of a host and a port on it. -/
structure SocketAddress where
  host : HostAddress
  port : UInt16
  deriving DecidableEq

namespace HostAddress

/-! ### Reading -/

/-- One octet, without superfluous zeros. -/
def octet? (text : List Char) : Option UInt8 :=
  match text with
  | '0' :: _ :: _ => none
  | _ =>
    if 3 < text.length then none
    else match Text.digits? text with
      | some n => if n < 256 then some (UInt8.ofNat n) else none
      | none => none

/-- Four octets with points between them. -/
def octets? (text : List Char) : Option (List UInt8) :=
  let parts := Text.split '.' text
  if parts.length = 4 then parts.mapM octet? else none

/-- The value of a hexadecimal digit. -/
def hexDigit? (c : Char) : Option Nat :=
  if c.isDigit then some (c.toNat - '0'.toNat)
  else if 'a' ≤ c ∧ c ≤ 'f' then some (c.toNat - 'a'.toNat + 10)
  else if 'A' ≤ c ∧ c ≤ 'F' then some (c.toNat - 'A'.toNat + 10)
  else none

/-- The value of some hexadecimal digits. -/
def hex? (text : List Char) : Option Nat :=
  (text.mapM hexDigit?).map fun digits => digits.foldl (fun n d => n * 16 + d) 0

/-- One group of at most four hexadecimal digits. -/
def group? (text : List Char) : Option UInt16 :=
  if text.isEmpty ∨ 4 < text.length then none else (hex? text).map UInt16.ofNat

/-- The two groups that four octets make. -/
def groupsOfOctets : List UInt8 → List UInt16
  | [a, b, c, d] =>
    [UInt16.ofNat (a.toNat * 256 + b.toNat), UInt16.ofNat (c.toNat * 256 + d.toNat)]
  | _ => []

/-- The groups of the parts between colons. Only the last part may be four octets. -/
def groupsOfParts? (octetsAllowed : Bool) : List (List Char) → Option (List UInt16)
  | [] => some []
  | [part] =>
    match group? part with
    | some group => some [group]
    | none => if octetsAllowed then (octets? part).map groupsOfOctets else none
  | part :: rest =>
    match group? part, groupsOfParts? octetsAllowed rest with
    | some group, some groups => some (group :: groups)
    | _, _ => none

/-- The groups of a text with colons between them; an empty text has none. -/
def groups? (octetsAllowed : Bool) (text : List Char) : Option (List UInt16) :=
  if text.isEmpty then some [] else groupsOfParts? octetsAllowed (Text.split ':' text)

/-- The parts of a text before and after its first pair of colons. -/
def splitAtGap : List Char → Option (List Char × List Char)
  | ':' :: ':' :: rest => some ([], rest)
  | c :: rest => (splitAtGap rest).map fun parts => (c :: parts.1, parts.2)
  | [] => none

/-- Eight groups, some zeros of which may have been left out. -/
def eightGroups? (text : List Char) : Option (List UInt16) :=
  match splitAtGap text with
  | none =>
    match groups? true text with
    | some groups => if groups.length = 8 then some groups else none
    | none => none
  | some (before, after) =>
    match groups? false before, groups? true after with
    | some front, some back =>
      if front.length + back.length < 8 then
        some (front ++ List.replicate (8 - front.length - back.length) 0 ++ back)
      else none
    | _, _ => none

/-- The address that a text writes. -/
def ofText? (text : String) : Option HostAddress :=
  match octets? text.toList with
  | some octets => some (v4 octets)
  | none => (eightGroups? text.toList).map v6

/-! ### Writing -/

/-- Four octets with points between them. -/
def octetsText (octets : List UInt8) : String :=
  ".".intercalate (octets.map fun o => toString o.toNat)

/-- Groups with colons between them. -/
def groupsText (groups : List UInt16) : String :=
  ":".intercalate (groups.map fun g => String.ofList (Nat.toDigits 16 g.toNat))

/-- The number of zeros at the front. -/
def zeroRun (groups : List UInt16) : Nat := (groups.takeWhile (· = 0)).length

/-- The start and the length of the longest run of zeros, the first of equals; positions are counted
from `index`. -/
def longestRun (index : Nat) : List UInt16 → Nat × Nat
  | [] => (index, 0)
  | group :: rest =>
    let here := zeroRun (group :: rest)
    let later := longestRun (index + 1) rest
    if later.2 ≤ here then (index, here) else later

/-- The octets that groups show, if they are an address of four octets in disguise. -/
def mappedOctets? : List UInt16 → Option (List UInt8)
  | [0, 0, 0, 0, 0, 0xFFFF, a, b] =>
    some [UInt8.ofNat (a.toNat / 256), UInt8.ofNat a.toNat, UInt8.ofNat (b.toNat / 256),
      UInt8.ofNat b.toNat]
  | _ => none

/-- The text of eight groups. -/
def eightGroupsText (groups : List UInt16) : String :=
  match mappedOctets? groups with
  | some octets => "::ffff:" ++ octetsText octets
  | none =>
    let (start, length) := longestRun 0 groups
    if length ≤ 1 then groupsText groups
    else groupsText (groups.take start) ++ "::" ++ groupsText (groups.drop (start + length))

end HostAddress

namespace SocketAddress

/-- The text of an address and a port. -/
def text (address : SocketAddress) : String :=
  match address.host with
  | .v4 octets => s!"{HostAddress.octetsText octets}:{address.port.toNat}"
  | .v6 groups => s!"[{HostAddress.eightGroupsText groups}]:{address.port.toNat}"

end SocketAddress

end RouteCosts
