/-!
# UTF-8

A text is a list of characters; its bytes are those of its characters in order (`encode`). Reading
goes character by character (`scan`): a lead byte fixes how many bytes follow and in which range
the first of them lies, and where the bytes stop being well formed, the longest part that could
still have begun a character is given up as one unit. `decode?` wants every unit to be a character;
`decodeLossy` puts U+FFFD for each unit that is none.
-/

namespace RouteCosts.Utf8

/-- The bytes of a text. -/
def encode (text : List Char) : List UInt8 := text.flatMap String.utf8EncodeChar

/-- The bytes of a string. -/
def bytes (s : String) : List UInt8 := encode s.toList

/-- How many bytes a string takes. -/
def size (s : String) : Nat := (bytes s).length

/-- What a lead byte announces: the bits it carries and the ranges of the bytes that follow. -/
structure Lead where
  bits : Nat
  ranges : List (UInt8 × UInt8)

/-- The range of a byte that continues a character. -/
def tail : UInt8 × UInt8 := (0x80, 0xBF)

/-- The lead bytes. Overlong forms, surrogates and values above U+10FFFF are kept out by the range
of the second byte. -/
def Lead.of? (byte : UInt8) : Option Lead :=
  if byte < 0x80 then some ⟨byte.toNat, []⟩
  else if byte < 0xC2 then none
  else if byte < 0xE0 then some ⟨byte.toNat - 0xC0, [tail]⟩
  else if byte = 0xE0 then some ⟨0x0, [(0xA0, 0xBF), tail]⟩
  else if byte = 0xED then some ⟨0xD, [(0x80, 0x9F), tail]⟩
  else if byte < 0xF0 then some ⟨byte.toNat - 0xE0, [tail, tail]⟩
  else if byte = 0xF0 then some ⟨0x0, [(0x90, 0xBF), tail, tail]⟩
  else if byte < 0xF4 then some ⟨byte.toNat - 0xF0, [tail, tail, tail]⟩
  else if byte = 0xF4 then some ⟨0x4, [(0x80, 0x8F), tail, tail]⟩
  else none

/-- Collect the bytes that continue a character. Stops at the first one out of its range. -/
def follow (bits : Nat) : List (UInt8 × UInt8) → List UInt8 → Option Char × List UInt8
  | [], rest => (some (Char.ofNat bits), rest)
  | _ :: _, [] => (none, [])
  | (low, high) :: ranges, byte :: rest =>
    if low ≤ byte ∧ byte ≤ high then follow (bits * 64 + byte.toNat % 64) ranges rest
    else (none, byte :: rest)

theorem length_follow_le (bits : Nat) (ranges : List (UInt8 × UInt8)) (bytes : List UInt8) :
    (follow bits ranges bytes).2.length ≤ bytes.length := by
  induction ranges generalizing bits bytes with
  | nil => simp [follow]
  | cons range ranges ih =>
    cases bytes with
    | nil => simp [follow]
    | cons byte rest =>
      obtain ⟨low, high⟩ := range
      rw [follow]
      split
      · exact Nat.le_succ_of_le (ih _ rest)
      · exact Nat.le_refl _

/-- The characters of a byte string, with `none` for every unit that is not one. -/
def scan : List UInt8 → List (Option Char)
  | [] => []
  | byte :: rest =>
    match Lead.of? byte with
    | none => none :: scan rest
    | some lead =>
      let unit := follow lead.bits lead.ranges rest
      unit.1 :: scan unit.2
termination_by bytes => bytes.length
decreasing_by
  · exact Nat.lt_succ_self _
  · exact Nat.lt_succ_of_le (length_follow_le _ _ _)

/-- The text of a byte string, if all of it is well formed. -/
def decode? (bytes : List UInt8) : Option String :=
  ((scan bytes).mapM id).map String.ofList

/-- The text of a byte string, with U+FFFD for every unit that is no character. -/
def decodeLossy (bytes : List UInt8) : String :=
  String.ofList ((scan bytes).map (·.getD '\uFFFD'))

end RouteCosts.Utf8
