/-!
# Big-endian numbers of fixed width

A number is written in a fixed count of bytes, most significant first. `encode` drops what does not
fit, `decode` reads a whole byte string, and each undoes the other on the values of the width
(`decode_encode`, `encode_decode`).
-/

namespace RouteCosts.BigEndian

/-- How many numbers have the width. -/
def capacity : Nat → Nat
  | 0 => 1
  | width + 1 => capacity width * 256

theorem capacity_pos (width : Nat) : 0 < capacity width := by
  induction width with
  | zero => decide
  | succ width ih => exact Nat.mul_pos ih (by decide)

/-- The `width` low bytes of a number, most significant first. -/
def encode : Nat → Nat → List UInt8
  | 0, _ => []
  | width + 1, value => UInt8.ofNat (value / capacity width) :: encode width value

/-- The number whose bytes, most significant first, are given. -/
def decode : List UInt8 → Nat
  | [] => 0
  | byte :: rest => byte.toNat * capacity rest.length + decode rest

@[simp]
theorem length_encode (width value : Nat) : (encode width value).length = width := by
  induction width with
  | zero => rfl
  | succ width ih => simp [encode, ih]

theorem decode_encode_mod (width value : Nat) :
    decode (encode width value) = value % capacity width := by
  induction width with
  | zero => simp [encode, decode, capacity, Nat.mod_one]
  | succ width ih =>
    rw [encode, decode, length_encode, ih, UInt8.toNat_ofNat', capacity, Nat.mod_mul,
      Nat.mul_comm, Nat.add_comm]

/-- A value of the width reads back. -/
theorem decode_encode {width value : Nat} (h : value < capacity width) :
    decode (encode width value) = value := by
  rw [decode_encode_mod, Nat.mod_eq_of_lt h]

/-- What is read is a value of the width. -/
theorem decode_lt (bytes : List UInt8) : decode bytes < capacity bytes.length := by
  induction bytes with
  | nil => simp [decode, capacity]
  | cons byte rest ih =>
    have hb : byte.toNat + 1 ≤ 256 := byte.toNat_lt
    have := Nat.mul_le_mul_right (capacity rest.length) hb
    rw [decode, List.length_cons, capacity, Nat.mul_comm _ 256]
    rw [Nat.add_mul] at this
    omega

theorem encode_add_mul (width value high : Nat) :
    encode width (high * capacity width + value) = encode width value := by
  induction width generalizing high with
  | zero => rfl
  | succ width ih =>
    have h : high * capacity (width + 1) = high * 256 * capacity width := by
      rw [capacity, Nat.mul_assoc, Nat.mul_comm 256]
    rw [encode, encode, h, ih]
    congr 1
    apply UInt8.toNat_inj.1
    rw [UInt8.toNat_ofNat', UInt8.toNat_ofNat', Nat.add_comm,
      Nat.add_mul_div_right _ _ (capacity_pos width)]
    omega

/-- Writing what was read gives the bytes again. -/
theorem encode_decode (bytes : List UInt8) : encode bytes.length (decode bytes) = bytes := by
  induction bytes with
  | nil => rfl
  | cons byte rest ih =>
    have hr := decode_lt rest
    rw [List.length_cons, encode, decode, encode_add_mul, ih, Nat.add_comm,
      Nat.add_mul_div_right _ _ (capacity_pos _), Nat.div_eq_of_lt hr, Nat.zero_add,
      UInt8.ofNat_toNat]

end RouteCosts.BigEndian
