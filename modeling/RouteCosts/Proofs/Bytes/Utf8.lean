import RouteCosts.Bytes.Utf8

/-!
# Texts read back

The bytes of a character are read as that character (`scan_encodeChar`), so that reading the bytes
of a text gives the text again, strictly (`decode?_bytes`) as well as leniently
(`decodeLossy_bytes`). Only an ASCII character has an ASCII byte (`mem_of_mem_encodeChar`): a
separator that is not in a text is not in its bytes either.
-/

namespace RouteCosts.Utf8

section Comparisons
variable {n : Nat} (h : n < 256)
include h

theorem ofNat_eq_iff (byte : UInt8) : UInt8.ofNat n = byte ↔ n = byte.toNat := by
  rw [← UInt8.toNat_inj, UInt8.toNat_ofNat_of_lt' h]

theorem Lead.of?_ofNat : of? (UInt8.ofNat n) =
    if n < 0x80 then some ⟨n, []⟩
    else if n < 0xC2 then none
    else if n < 0xE0 then some ⟨n - 0xC0, [tail]⟩
    else if n = 0xE0 then some ⟨0x0, [(0xA0, 0xBF), tail]⟩
    else if n = 0xED then some ⟨0xD, [(0x80, 0x9F), tail]⟩
    else if n < 0xF0 then some ⟨n - 0xE0, [tail, tail]⟩
    else if n = 0xF0 then some ⟨0x0, [(0x90, 0xBF), tail, tail]⟩
    else if n < 0xF4 then some ⟨n - 0xF0, [tail, tail, tail]⟩
    else if n = 0xF4 then some ⟨0x4, [(0x80, 0x8F), tail, tail]⟩
    else none := by
  unfold of?
  simp only [UInt8.ofNat_lt_iff h, ofNat_eq_iff h, UInt8.toNat_ofNat_of_lt' h]
  rfl

end Comparisons

/-- A byte that continues a character, in a range that has it. -/
theorem follow_cons {low high : UInt8} {m : Nat} (hl : low.toNat ≤ m % 64 + 0x80)
    (hh : m % 64 + 0x80 ≤ high.toNat) (bits : Nat) (ranges : List (UInt8 × UInt8))
    (rest : List UInt8) :
    follow bits ((low, high) :: ranges) (UInt8.ofNat (m % 64 + 0x80) :: rest) =
      follow (bits * 64 + m % 64) ranges rest := by
  have hn : m % 64 + 0x80 < 256 := by omega
  have hmod : (m % 64 + 0x80) % 64 = m % 64 := by omega
  rw [follow, UInt8.toNat_ofNat_of_lt' hn, hmod, if_pos]
  rw [UInt8.le_iff_toNat_le, UInt8.le_iff_toNat_le, UInt8.toNat_ofNat_of_lt' hn]
  exact ⟨hl, hh⟩

theorem follow_tail (m bits : Nat) (ranges : List (UInt8 × UInt8)) (rest : List UInt8) :
    follow bits (tail :: ranges) (UInt8.ofNat (m % 64 + 0x80) :: rest) =
      follow (bits * 64 + m % 64) ranges rest := by
  refine follow_cons (show 0x80 ≤ _ from ?_) (show _ ≤ 0xBF from ?_) bits ranges rest
  · omega
  · omega

theorem scan_cons {byte : UInt8} {bits : Nat} {ranges : List (UInt8 × UInt8)}
    (h : Lead.of? byte = some ⟨bits, ranges⟩) (rest : List UInt8) :
    scan (byte :: rest) =
      (follow bits ranges rest).1 :: scan (follow bits ranges rest).2 := by
  rw [scan, h]

section Lengths
variable {v bits : Nat} (rest : List UInt8)

theorem scan_one (h : v ≤ 0x7f) :
    scan (UInt8.ofNat v :: rest) = some (Char.ofNat v) :: scan rest := by
  have hlead := Lead.of?_ofNat (n := v) (by omega)
  rw [if_pos (by omega)] at hlead
  rw [scan_cons hlead, follow]

theorem read_bits (h : bits = v) :
    some (Char.ofNat bits) :: scan rest = some (Char.ofNat v) :: scan rest := by rw [h]

theorem scan_two (h : 0x80 ≤ v) (h' : v ≤ 0x7ff) :
    scan (UInt8.ofNat (v / 64 % 0x20 + 0xc0) :: UInt8.ofNat (v % 0x40 + 0x80) :: rest) =
      some (Char.ofNat v) :: scan rest := by
  have hlead := Lead.of?_ofNat (n := v / 64 % 0x20 + 0xc0) (by omega)
  rw [if_neg (by omega), if_neg (by omega), if_pos (by omega)] at hlead
  rw [scan_cons hlead, follow_tail, follow]
  exact read_bits rest (by omega)

/-- The range of the second byte keeps overlong forms and surrogates out. -/
theorem scan_three (h : 0x800 ≤ v) (h' : v ≤ 0xffff) (hv : v < 0xD800 ∨ 0xDFFF < v) :
    scan (UInt8.ofNat (v / 4096 % 0x10 + 0xe0) :: UInt8.ofNat (v / 64 % 0x40 + 0x80) ::
      UInt8.ofNat (v % 0x40 + 0x80) :: rest) = some (Char.ofNat v) :: scan rest := by
  have hlead := Lead.of?_ofNat (n := v / 4096 % 0x10 + 0xe0) (by omega)
  rw [if_neg (by omega), if_neg (by omega), if_neg (by omega)] at hlead
  by_cases h0 : v / 4096 % 0x10 = 0
  · rw [if_pos (by omega)] at hlead
    rw [scan_cons hlead, follow_cons (show 0xA0 ≤ _ by omega) (show _ ≤ 0xBF by omega),
      follow_tail, follow]
    exact read_bits rest (by omega)
  by_cases hd : v / 4096 % 0x10 = 13
  · rw [if_neg (by omega), if_pos (by omega)] at hlead
    rw [scan_cons hlead, follow_cons (show 0x80 ≤ _ by omega) (show _ ≤ 0x9F by omega),
      follow_tail, follow]
    exact read_bits rest (by omega)
  · rw [if_neg (by omega), if_neg (by omega), if_pos (by omega)] at hlead
    rw [scan_cons hlead, follow_tail, follow_tail, follow]
    exact read_bits rest (by omega)

/-- The range of the second byte keeps overlong forms and values above U+10FFFF out. -/
theorem scan_four (h : 0xffff < v) (h' : v < 0x110000) :
    scan (UInt8.ofNat (v / 262144 % 0x08 + 0xf0) :: UInt8.ofNat (v / 4096 % 0x40 + 0x80) ::
      UInt8.ofNat (v / 64 % 0x40 + 0x80) :: UInt8.ofNat (v % 0x40 + 0x80) :: rest) =
        some (Char.ofNat v) :: scan rest := by
  have hlead := Lead.of?_ofNat (n := v / 262144 % 0x08 + 0xf0) (by omega)
  rw [if_neg (by omega), if_neg (by omega), if_neg (by omega), if_neg (by omega),
    if_neg (by omega), if_neg (by omega)] at hlead
  by_cases h0 : v / 262144 % 0x08 = 0
  · rw [if_pos (by omega)] at hlead
    rw [scan_cons hlead, follow_cons (show 0x90 ≤ _ by omega) (show _ ≤ 0xBF by omega),
      follow_tail, follow_tail, follow]
    exact read_bits rest (by omega)
  by_cases h4 : v / 262144 % 0x08 = 4
  · rw [if_neg (by omega), if_neg (by omega), if_pos (by omega)] at hlead
    rw [scan_cons hlead, follow_cons (show 0x80 ≤ _ by omega) (show _ ≤ 0x8F by omega),
      follow_tail, follow_tail, follow]
    exact read_bits rest (by omega)
  · rw [if_neg (by omega), if_pos (by omega)] at hlead
    rw [scan_cons hlead, follow_tail, follow_tail, follow_tail, follow]
    exact read_bits rest (by omega)

end Lengths

/-- **A character is read back** from the front of any bytes. -/
theorem scan_encodeChar (c : Char) (rest : List UInt8) :
    scan (String.utf8EncodeChar c ++ rest) = some c :: scan rest := by
  have hc : Char.ofNat c.val.toNat = c := Char.ofNat_toNat c
  have hv : c.val.toNat < 0xD800 ∨ 0xDFFF < c.val.toNat ∧ c.val.toNat < 0x110000 := c.valid
  unfold String.utf8EncodeChar
  dsimp only
  generalize c.val.toNat = v at hc hv
  subst hc
  split
  · exact scan_one rest (by omega)
  split
  · exact scan_two rest (by omega) (by omega)
  split
  · exact scan_three rest (by omega) (by omega) (by omega)
  · exact scan_four rest (by omega) (by omega)

/-! ### Whole texts -/

theorem scan_encode (text : List Char) : scan (encode text) = text.map some := by
  induction text with
  | nil =>
    rw [encode, List.flatMap_nil, scan]
    rfl
  | cons c text ih =>
    rw [encode, List.flatMap_cons, scan_encodeChar, List.map_cons]
    exact congrArg _ ih

/-- **Reading the bytes of a string leniently** gives the string. -/
theorem decodeLossy_bytes (s : String) : decodeLossy (bytes s) = s := by
  have hmap : (s.toList.map some).map (·.getD '\uFFFD') = s.toList := by
    rw [List.map_map]
    exact List.map_id _
  rw [decodeLossy, bytes, scan_encode, hmap, String.ofList_toList]

/-- **Reading the bytes of a string strictly** gives the string. -/
theorem decode?_bytes (s : String) : decode? (bytes s) = some s := by
  have hmap (text : List Char) : (text.map some).mapM id = some text := by
    induction text with
    | nil => rfl
    | cons c text ih =>
      rw [List.map_cons, List.mapM_cons, ih]
      rfl
  rw [decode?, bytes, scan_encode, hmap, Option.map_some, String.ofList_toList]

/-- **An ASCII byte is an ASCII character.** All other characters have bytes from 0x80 on. -/
theorem mem_of_mem_encodeChar {c : Char} {byte : UInt8} (h : byte ∈ String.utf8EncodeChar c)
    (hb : byte.toNat < 0x80) : c.toNat = byte.toNat := by
  have high {n : Nat} (hl : 0x80 ≤ n) (hn : n < 256) : byte ≠ UInt8.ofNat n := by
    rintro rfl
    rw [UInt8.toNat_ofNat_of_lt' hn] at hb
    omega
  unfold String.utf8EncodeChar at h
  dsimp only at h
  split at h
  · obtain rfl := List.mem_singleton.1 h
    have hc : c.val.toNat < 256 := by omega
    exact (UInt8.toNat_ofNat_of_lt' hc).symm
  simp only [apply_ite (byte ∈ ·), List.mem_cons, List.not_mem_nil, or_false] at h
  split at h
  · rcases h with h | h <;> exact absurd h (high (by omega) (by omega))
  split at h
  · rcases h with h | h | h <;> exact absurd h (high (by omega) (by omega))
  · rcases h with h | h | h | h <;> exact absurd h (high (by omega) (by omega))

theorem encode_ne_nil {text : List Char} (h : text ≠ []) : encode text ≠ [] := by
  cases text with
  | nil => exact absurd rfl h
  | cons c text =>
    rw [encode, List.flatMap_cons]
    exact List.append_ne_nil_of_left_ne_nil String.utf8EncodeChar_ne_nil _

end RouteCosts.Utf8
