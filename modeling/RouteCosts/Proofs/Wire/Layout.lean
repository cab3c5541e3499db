import RouteCosts.Proofs.Wire.RoundTrip

/-! # The layout of a message

What a message looks like on the wire, said without the functions that write it: a number is spelled
in bytes of which each weighs 256 times the next (`Spells`), a header is three numbers, and a body
is its fields in order (`Header.LaidOut`, `Body.LaidOut`).

* `spells_encode`, `Spells.eq_encode`: numbers are spelled by `BigEndian.encode`, and not otherwise.
* `Header.laidOut_iff`, `Body.laidOut_iff`: so a layout leaves nothing open.
* `Message.encode_layout`: a message is written as its header, its body and zeros, cut to the length
  that the header declares, and is read back whenever nothing had to be cut off. -/

namespace RouteCosts

/-! ### Numbers -/

/-- **Bytes that spell a number** in a fixed width, the weightiest first. -/
def Spells (width value : Nat) (bytes : List UInt8) : Prop :=
  bytes.length = width ∧ bytes.foldl (fun sum byte => sum * 256 + byte.toNat) 0 = value

theorem foldl_eq_decode (bytes : List UInt8) (sum : Nat) :
    bytes.foldl (fun sum byte => sum * 256 + byte.toNat) sum =
      sum * BigEndian.capacity bytes.length + BigEndian.decode bytes := by
  induction bytes generalizing sum with
  | nil => simp [BigEndian.capacity, BigEndian.decode]
  | cons byte rest ih =>
    rw [List.foldl_cons, ih, List.length_cons, BigEndian.capacity, BigEndian.decode, Nat.add_mul,
      Nat.mul_assoc, Nat.mul_comm 256, Nat.add_assoc]

theorem spells_iff {width value : Nat} {bytes : List UInt8} :
    Spells width value bytes ↔ bytes.length = width ∧ BigEndian.decode bytes = value := by
  unfold Spells
  rw [foldl_eq_decode, Nat.zero_mul, Nat.zero_add]

theorem spells_encode {width value : Nat} (h : value < BigEndian.capacity width) :
    Spells width value (BigEndian.encode width value) :=
  spells_iff.2 ⟨BigEndian.length_encode _ _, BigEndian.decode_encode h⟩

theorem Spells.eq_encode {width value : Nat} {bytes : List UInt8} (h : Spells width value bytes) :
    bytes = BigEndian.encode width value := by
  obtain ⟨rfl, rfl⟩ := spells_iff.1 h
  exact (BigEndian.encode_decode bytes).symm

/-! ### Headers and bodies -/

/-- **The bytes of a header**: number and length in four bytes each, the time in eight. -/
inductive Header.LaidOut (header : Header) : List UInt8 → Prop where
  | fields {id length timestamp : List UInt8} (hi : Spells 4 header.id.toNat id)
    (hl : Spells 4 header.length.toNat length)
    (ht : Spells 8 header.timestamp.toUInt64.toNat timestamp) :
    LaidOut header (id ++ length ++ timestamp)

/-- **The bytes of a body**: its fields in order, numbers in eight bytes each. A page has its whole
buffer between the count and the mark, whatever the count is. -/
inductive Body.LaidOut : Body → List UInt8 → Prop where
  | header : LaidOut .header []
  | statusRequest : LaidOut .statusRequest []
  | statusResponse : LaidOut .statusResponse []
  | locationsRequest {start : UInt64} {bytes : List UInt8} (h : Spells 8 start.toNat bytes) :
    LaidOut (.locationsRequest start) bytes
  | locationsResponse {page : Page} {count : List UInt8} (h : Spells 8 page.count.toNat count) :
    LaidOut (.locationsResponse page) (count ++ page.buffer ++ [if page.paginated then 1 else 0])
  | routeRequest {start finish : UInt64} {first second : List UInt8}
    (hs : Spells 8 start.toNat first) (hf : Spells 8 finish.toNat second) :
    LaidOut (.routeRequest start finish) (first ++ second)
  | routeResponse {cost : UInt64} {bytes : List UInt8} (h : Spells 8 cost.toNat bytes) :
    LaidOut (.routeResponse cost) bytes

theorem Header.laidOut_iff {header : Header} {bytes : List UInt8} :
    header.LaidOut bytes ↔ bytes = header.encode := by
  constructor
  · rintro ⟨hi, hl, ht⟩
    rw [hi.eq_encode, hl.eq_encode, ht.eq_encode]
    rfl
  · rintro rfl
    exact .fields (spells_encode header.id.toNat_lt) (spells_encode header.length.toNat_lt)
      (spells_encode header.timestamp.toUInt64.toNat_lt)

theorem Body.laidOut_encode (body : Body) : body.LaidOut body.encode := by
  have field (n : UInt64) : Spells 8 n.toNat (BigEndian.encode 8 n.toNat) :=
    spells_encode n.toNat_lt
  cases body with
  | header => exact .header
  | statusRequest => exact .statusRequest
  | statusResponse => exact .statusResponse
  | locationsRequest start => exact .locationsRequest (field start)
  | locationsResponse page => exact .locationsResponse (field page.count)
  | routeRequest start finish => exact .routeRequest (field start) (field finish)
  | routeResponse cost => exact .routeResponse (field cost)

theorem Body.laidOut_iff {body : Body} {bytes : List UInt8} :
    body.LaidOut bytes ↔ bytes = body.encode := by
  constructor
  · intro h
    cases h with
    | header => rfl
    | statusRequest => rfl
    | statusResponse => rfl
    | locationsRequest h => exact h.eq_encode
    | locationsResponse h => rw [h.eq_encode]; rfl
    | routeRequest hs hf => rw [hs.eq_encode, hf.eq_encode]; rfl
    | routeResponse h => exact h.eq_encode
  · rintro rfl
    exact body.laidOut_encode

/-! ### Messages -/

namespace Message

theorem length_header_body (message : Message) :
    (message.header.encode ++ message.body.encode).length =
      headerSize + message.body.kind.bodySize := by
  rw [List.length_append, Header.length_encode, Body.length_encode]

/-- A message that has no room for its body is cut. -/
theorem encode_of_lt {message : Message}
    (h : message.length < headerSize + message.body.kind.bodySize) :
    message.encode = (message.header.encode ++ message.body.encode).take message.length := by
  have hl := message.length_header_body
  have hz : message.length - (headerSize + message.body.kind.bodySize) = 0 := by omega
  rw [encode, fit, hl, hz, List.replicate_zero, List.append_nil]

/-- **Messages on the wire.** There is one layout of header and body. The bytes of a message are as
many as its header declares: header, body and zeros if there is room, as there is in every message
made at some time, and otherwise as much of header and body as there is room for. Where there is
room, any message with a body of the same kind takes the whole message over from them. -/
theorem encode_layout (message : Message) :
    ∃ header body : List UInt8,
      (∀ bytes, message.header.LaidOut bytes ↔ bytes = header) ∧
      (∀ bytes, message.body.LaidOut bytes ↔ bytes = body) ∧
      header.length = headerSize ∧ body.length = message.body.kind.bodySize ∧
      message.encode.length = message.length ∧
      (message.IsStamped → message.length = headerSize + message.body.kind.bodySize) ∧
      (headerSize + message.body.kind.bodySize ≤ message.length →
        message.encode = header ++ body ++
          List.replicate (message.length - (headerSize + message.body.kind.bodySize)) 0 ∧
        ∀ other : Message, other.body.kind = message.body.kind →
          other.absorb message.encode =
            (message, if 0 < message.body.kind.bodySize then message.length else headerSize)) ∧
      (message.length < headerSize + message.body.kind.bodySize →
        message.encode = (header ++ body).take message.length) := by
  refine ⟨message.header.encode, message.body.encode, fun bytes => Header.laidOut_iff,
    fun bytes => Body.laidOut_iff, Header.length_encode _, Body.length_encode _, length_encode _,
    ?_, fun hroom => ⟨?_, fun other hk => absorb_encode message hroom hk⟩, encode_of_lt⟩
  · rintro ⟨now, body, rfl⟩
    exact length_stamped now body
  · rw [encode_eq message hroom, List.append_assoc]

/-- A page that counts far beyond its buffer, under a header of no kind that leaves room behind. -/
theorem absorb_foreign_header :
    let page : Page := ⟨18446744073709551615, List.replicate pageCapacity 255, true,
      List.length_replicate⟩
    let message : Message := ⟨⟨7, 130, -1⟩, .locationsResponse page⟩
    message.encode.length = 130 ∧
      (stamped 3 (.locationsResponse .empty)).absorb message.encode = (message, 130) := by
  intro page message
  obtain ⟨header, body, -, -, -, -, hlength, -, hroom, -⟩ := encode_layout message
  exact ⟨hlength, (hroom (by decide)).2 _ rfl⟩

end Message

end RouteCosts
