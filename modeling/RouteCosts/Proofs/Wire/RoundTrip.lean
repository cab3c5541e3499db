import RouteCosts.Proofs.Wire.Frame

/-!
# Messages read back

Writing a message and reading the bytes gives the message again: first for a header
(`Header.decode_encode`), a page (`Page.decode_encode`) and a body (`Body.decode_encode`), then for
a message whose header leaves room for its body (`Message.absorb_encode`). The bytes of a message
made at some time are a frame, and the frame stands for that message (`Frame.ofBody`,
`Frame.message_ofBody`).
-/

namespace RouteCosts

/-! ### Fields -/

theorem BigEndian.decode_take_encode {width value : Nat} (h : value < capacity width)
    (more : List UInt8) : decode ((encode width value ++ more).take width) = value := by
  have hl := length_encode width value
  rw [List.take_append_of_le_length (Nat.le_of_eq hl.symm),
    List.take_of_length_le (Nat.le_of_eq hl),
    decode_encode h]

theorem BigEndian.drop_encode (width value : Nat) (more : List UInt8) :
    (encode width value ++ more).drop width = more := by
  have hl := length_encode width value
  rw [List.drop_append_of_le_length (Nat.le_of_eq hl.symm),
    List.drop_of_length_le (Nat.le_of_eq hl),
    List.nil_append]

theorem Header.decode_encode (header : Header) (more : List UInt8) :
    Header.decode (header.encode ++ more) = header := by
  have h4 : (header.encode ++ more).drop 4 = BigEndian.encode 4 header.length.toNat ++
      (BigEndian.encode 8 header.timestamp.toUInt64.toNat ++ more) := by
    rw [encode, List.append_assoc, List.append_assoc, BigEndian.drop_encode]
  have h8 : (header.encode ++ more).drop 8 =
      BigEndian.encode 8 header.timestamp.toUInt64.toNat ++ more := by
    rw [show 8 = 4 + 4 from rfl, ← List.drop_drop, h4, BigEndian.drop_encode]
  unfold Header.decode
  rw [h4, h8, BigEndian.decode_take_encode header.length.toNat_lt,
    BigEndian.decode_take_encode header.timestamp.toUInt64.toNat_lt, encode, List.append_assoc,
    List.append_assoc, BigEndian.decode_take_encode header.id.toNat_lt, UInt32.ofNat_toNat,
    UInt32.ofNat_toNat, UInt64.ofNat_toNat, Int64.toInt64_toUInt64]

theorem Page.decode_encode (page : Page) : Page.decode page.encode = page := by
  have hb := page.length_buffer
  have h8 : page.encode.drop 8 = page.buffer ++ [if page.paginated then 1 else 0] := by
    rw [encode, List.append_assoc, BigEndian.drop_encode]
  have hcount : UInt64.ofNat (BigEndian.decode (page.encode.take 8)) = page.count := by
    rw [encode, List.append_assoc, BigEndian.decode_take_encode page.count.toNat_lt,
      UInt64.ofNat_toNat]
  have hbuffer : takeBuffer (page.encode.drop 8) = page.buffer := by
    rw [h8, takeBuffer, List.take_append_of_le_length (Nat.le_of_eq hb.symm),
      List.take_of_length_le (Nat.le_of_eq hb), List.length_append, hb]
    simp
  have hmark : (page.encode.drop (8 + pageCapacity)).head?.getD 0 =
      if page.paginated then 1 else 0 := by
    rw [← List.drop_drop, h8, List.drop_append_of_le_length (Nat.le_of_eq hb.symm),
      List.drop_of_length_le (Nat.le_of_eq hb)]
    rfl
  obtain ⟨count, buffer, paginated, hl⟩ := page
  unfold Page.decode
  simp only [hcount, hbuffer, hmark]
  cases paginated <;> rfl

theorem Body.decode_encode (body : Body) : Body.decode body.encode body.kind = body := by
  have field (n : UInt64) (more : List UInt8) :
      UInt64.ofNat (BigEndian.decode ((BigEndian.encode 8 n.toNat ++ more).take 8)) = n := by
    rw [BigEndian.decode_take_encode n.toNat_lt, UInt64.ofNat_toNat]
  cases body with
  | header => rfl
  | statusRequest => rfl
  | statusResponse => rfl
  | locationsRequest start =>
    have h := field start []
    rw [List.append_nil] at h
    rw [kind, encode, decode, h]
  | locationsResponse page => rw [kind, encode, decode, Page.decode_encode]
  | routeRequest start finish =>
    have h := field finish []
    rw [List.append_nil] at h
    rw [kind, encode, decode, field, BigEndian.drop_encode, h]
  | routeResponse cost =>
    have h := field cost []
    rw [List.append_nil] at h
    rw [kind, encode, decode, h]

theorem Body.eq_blank {body : Body} (h : body.kind.bodySize = 0) : body = blank body.kind := by
  cases body with
  | header => rfl
  | statusRequest => rfl
  | statusResponse => rfl
  | locationsRequest => cases h
  | locationsResponse => cases h
  | routeRequest => cases h
  | routeResponse => cases h

theorem Body.eq_of_bodySize_eq_zero {body other : Body} (h : body.kind.bodySize = 0)
    (hk : other.kind = body.kind) : other = body := by
  have ho : other = blank other.kind := eq_blank (by rw [hk, h])
  rw [ho, hk]
  exact (eq_blank h).symm

/-! ### Messages -/

namespace Message

/-- A message that has room for its body is written as header, body and zeros. -/
theorem encode_eq (message : Message)
    (h : headerSize + message.body.kind.bodySize ≤ message.length) :
    message.encode = message.header.encode ++ (message.body.encode ++
      List.replicate (message.length - (headerSize + message.body.kind.bodySize)) 0) := by
  have hl : (message.header.encode ++ message.body.encode).length =
      headerSize + message.body.kind.bodySize := by
    rw [List.length_append, Header.length_encode, Body.length_encode]
  rw [encode, fit, hl, List.take_of_length_le (by omega), List.append_assoc]

/-- **Reading undoes writing.** Any message whose body is of the kind takes the bytes over; the
count is the whole length, or the header alone when the body has no bytes. -/
theorem absorb_encode (message : Message) {other : Message}
    (h : headerSize + message.body.kind.bodySize ≤ message.length)
    (hk : other.body.kind = message.body.kind) :
    other.absorb message.encode =
      (message, if 0 < message.body.kind.bodySize then message.length else headerSize) := by
  have he := encode_eq message h
  have hl := length_encode message
  have hheader : Header.decode message.encode = message.header := by
    rw [he, Header.decode_encode]
  have hbody : Body.decode ((message.encode.drop headerSize).take message.body.kind.bodySize)
      message.body.kind = message.body := by
    rw [he, List.drop_append_of_le_length (Nat.le_of_eq (Header.length_encode _).symm),
      List.drop_of_length_le (Nat.le_of_eq (Header.length_encode _)), List.nil_append,
      List.take_append_of_le_length (Nat.le_of_eq (Body.length_encode _).symm),
      List.take_of_length_le (Nat.le_of_eq (Body.length_encode _)), Body.decode_encode]
  unfold absorb
  rw [if_neg (by omega), hk]
  dsimp only
  rw [hheader]
  by_cases hs : 0 < message.body.kind.bodySize
  · rw [if_pos ⟨hs, Nat.le_of_eq hl.symm, h⟩, if_pos hs, hbody]
    rfl
  · rw [if_neg fun hc => hs hc.1, if_neg hs]
    rw [Body.eq_of_bodySize_eq_zero (by omega) hk]

/-- A message that was made at some time from some body. -/
def IsStamped (message : Message) : Prop := ∃ now body, message = stamped now body

theorem length_stamped (now : Int64) (body : Body) :
    (stamped now body).length = body.kind.length := by
  show (UInt32.ofNat body.kind.length).toNat = _
  exact UInt32.toNat_ofNat_of_lt' body.kind.length_lt_capacity

theorem size_le_length_stamped (now : Int64) (body : Body) :
    headerSize + (stamped now body).body.kind.bodySize ≤ (stamped now body).length :=
  Nat.le_of_eq (length_stamped now body).symm

theorem decode_encode_stamped (now : Int64) (body : Body) :
    Header.decode (stamped now body).encode = (stamped now body).header := by
  rw [encode_eq _ (size_le_length_stamped now body), Header.decode_encode]

end Message

namespace Frame

/-- **The frame of a message** made at some time. -/
def ofBody (now : Int64) (body : Body) : Frame :=
  .ofHeader body.kind (Message.stamped now body).encode
    (by rw [Message.length_encode, Message.length_stamped])
    (by rw [Message.decode_encode_stamped]; rfl)
    (by rw [Message.decode_encode_stamped]; exact Message.length_stamped now body)

@[simp]
theorem bytes_ofBody (now : Int64) (body : Body) :
    (ofBody now body).bytes = (Message.stamped now body).encode := rfl

@[simp]
theorem message_ofBody (now : Int64) (body : Body) :
    (ofBody now body).message = Message.stamped now body := by
  have h := Message.absorb_encode (Message.stamped now body)
    (Message.size_le_length_stamped now body)
    (show (Message.stamped 0 (Body.blank body.kind)).body.kind = _ from Body.kind_blank _)
  exact congrArg Prod.fst h

/-- Messages made at some time are written as a row of frames that stand for them. -/
theorem exists_frames {messages : List Message}
    (h : ∀ message ∈ messages, message.IsStamped) :
    ∃ frames : List Frame, frames.map message = messages ∧
      frames.flatMap bytes = messages.flatMap Message.encode := by
  induction messages with
  | nil => exact ⟨[], rfl, rfl⟩
  | cons first messages ih =>
    obtain ⟨now, body, rfl⟩ := h first List.mem_cons_self
    obtain ⟨frames, hm, hb⟩ := ih fun message hmem => h message (List.mem_cons_of_mem _ hmem)
    refine ⟨ofBody now body :: frames, ?_, ?_⟩
    · rw [List.map_cons, message_ofBody, hm]
    · rw [List.flatMap_cons, List.flatMap_cons, bytes_ofBody, hb]

end Frame

end RouteCosts
