import RouteCosts.Proofs.Wire.Feeding
import RouteCosts.Proofs.Wire.RoundTrip

/-! # Writing what was received

Bytes that are accepted as one message (`Accepts`) are a frame (`accepts_iff`), and the message they
give is the one that would be written in that way: its header agrees with its body, and writing it
gives the bytes again. One byte alone is read more kindly than it is written, the mark of a page,
for which any number but 0 will do (`normalBytes`).

* `Header.encode_decode`, `Page.encode_decode`, `Body.encode_decode`: what is read from a field is
  written as that field.
* `Frame.message_eq`, `Frame.encode_message`: the message of a frame, and its bytes.
* `Frame.message_inj`: what the bytes of a message leave open of the frame.
* `accepts_iff_encode`: what is accepted, by what is written.
* `accepted_encode`: the whole of it, for bytes that were fed in any chunks. -/

namespace RouteCosts

/-! ### Fields -/

theorem BigEndian.encode_decode_of_length {width : Nat} {bytes : List UInt8}
    (h : bytes.length = width) : encode width (decode bytes) = bytes := by
  rw [← h, encode_decode]

/-- A field of eight bytes is written as it was read. -/
theorem encode_decode_uint64 {bytes : List UInt8} (h : bytes.length = 8) :
    BigEndian.encode 8 (UInt64.ofNat (BigEndian.decode bytes)).toNat = bytes := by
  have hlt : BigEndian.decode bytes < 2 ^ 64 := BigEndian.decode_lt_of_length h
  rw [UInt64.toNat_ofNat_of_lt' hlt, BigEndian.encode_decode_of_length h]

theorem encode_decode_uint32 {bytes : List UInt8} (h : bytes.length = 4) :
    BigEndian.encode 4 (UInt32.ofNat (BigEndian.decode bytes)).toNat = bytes := by
  have hlt : BigEndian.decode bytes < 2 ^ 32 := BigEndian.decode_lt_of_length h
  rw [UInt32.toNat_ofNat_of_lt' hlt, BigEndian.encode_decode_of_length h]

/-- Neighbouring fields are the part of the bytes that they cover together. -/
theorem take_append_take_drop (bytes : List UInt8) (first second : Nat) :
    bytes.take first ++ (bytes.drop first).take second = bytes.take (first + second) :=
  (List.take_add ..).symm

theorem Header.encode_decode {bytes : List UInt8} (h : headerSize ≤ bytes.length) :
    (Header.decode bytes).encode = bytes.take headerSize := by
  unfold headerSize at h
  have hid : (bytes.take 4).length = 4 := by rw [List.length_take]; omega
  have hlength : ((bytes.drop 4).take 4).length = 4 := by
    rw [List.length_take, List.length_drop]; omega
  have htime : ((bytes.drop 8).take 8).length = 8 := by
    rw [List.length_take, List.length_drop]; omega
  unfold encode Header.decode
  dsimp only
  rw [encode_decode_uint32 hid, encode_decode_uint32 hlength, UInt64.toUInt64_toInt64,
    encode_decode_uint64 htime, take_append_take_drop, take_append_take_drop]
  rfl

/-- The bytes of a page are its count, its buffer and its mark. -/
theorem Page.encode_decode {bytes : List UInt8} (h : bytes.length = 8 + pageCapacity + 1) :
    (Page.decode bytes).encode =
      bytes.dropLast ++ [if bytes.getLast? = some 0 then 0 else 1] := by
  obtain ⟨front, mark, rfl⟩ : ∃ front mark, bytes = front ++ [mark] := by
    rcases List.eq_nil_or_concat bytes with rfl | ⟨front, mark, rfl⟩
    · cases h
    · exact ⟨front, mark, List.concat_eq_append⟩
  rw [List.length_append, List.length_singleton] at h
  have hfront : front.length = 8 + pageCapacity := Nat.add_right_cancel h
  have hcount : ((front ++ [mark]).take 8).length = 8 := by
    rw [List.length_take, List.length_append]; omega
  have hbuffer : takeBuffer ((front ++ [mark]).drop 8) = front.drop 8 := by
    have hl : (front.drop 8).length = pageCapacity := by rw [List.length_drop]; omega
    rw [List.drop_append_of_le_length (by omega), takeBuffer, ← hl, List.take_left,
      List.length_append, Nat.sub_eq_zero_of_le (Nat.le_add_right _ _), List.replicate_zero,
      List.append_nil]
  have hmark : ((front ++ [mark]).drop (8 + pageCapacity)).head?.getD 0 = mark := by
    rw [← hfront, List.drop_left]
    rfl
  show BigEndian.encode 8 (UInt64.ofNat (BigEndian.decode ((front ++ [mark]).take 8))).toNat ++
    takeBuffer ((front ++ [mark]).drop 8) ++
    [if ((front ++ [mark]).drop (8 + pageCapacity)).head?.getD 0 != 0 then 1 else 0] = _
  rw [encode_decode_uint64 hcount, hbuffer, hmark, List.take_append_of_le_length (by omega),
    List.take_append_drop, List.dropLast_concat, List.getLast?_concat]
  by_cases hz : mark = 0
  · rw [hz]; rfl
  · rw [if_pos (bne_iff_ne.2 hz), if_neg fun h => hz (Option.some.inj h)]

theorem Body.encode_decode {kind : Kind} (hk : kind ≠ .locationsResponse) {bytes : List UInt8}
    (h : bytes.length = kind.bodySize) : (decode bytes kind).encode = bytes := by
  have whole (hl : bytes.length = 8) :
      BigEndian.encode 8 (UInt64.ofNat (BigEndian.decode (bytes.take 8))).toNat = bytes := by
    rw [List.take_of_length_le (Nat.le_of_eq hl), encode_decode_uint64 hl]
  cases kind with
  | header => exact (List.length_eq_zero_iff.1 h).symm
  | statusRequest => exact (List.length_eq_zero_iff.1 h).symm
  | statusResponse => exact (List.length_eq_zero_iff.1 h).symm
  | locationsRequest => exact whole h
  | locationsResponse => exact absurd rfl hk
  | routeRequest =>
    have hl : bytes.length = 16 := h
    have hfirst : (bytes.take 8).length = 8 := by rw [List.length_take]; omega
    have hsecond : ((bytes.drop 8).take 8).length = 8 := by
      rw [List.length_take, List.length_drop]; omega
    rw [decode, encode, encode_decode_uint64 hfirst, encode_decode_uint64 hsecond,
      take_append_take_drop, List.take_of_length_le (Nat.le_of_eq hl)]
  | routeResponse => exact whole h

/-! ### Frames -/

/-- **The bytes of a message as they are written**: those of a page end in 1, if they did not end
in 0, and all others are as they were. -/
def normalBytes (bytes : List UInt8) : List UInt8 :=
  if bytes.take 4 = BigEndian.encode 4 Kind.locationsResponse.id.toNat then
    bytes.dropLast ++ [if bytes.getLast? = some 0 then 0 else 1]
  else bytes

/-- Messages that were made at some time differ in their bytes. -/
theorem Message.eq_of_encode_eq {message other : Message} (h : message.IsStamped)
    (h' : other.IsStamped) (he : message.encode = other.encode) : message = other := by
  obtain ⟨now, body, rfl⟩ := h
  obtain ⟨now', body', rfl⟩ := h'
  have hframe : Frame.ofBody now body = Frame.ofBody now' body' := Frame.ext_bytes he
  rw [← Frame.message_ofBody now body, hframe, Frame.message_ofBody]

/-- The header of a message made at some time agrees with its body. -/
theorem Message.header_of_isStamped {message : Message} (h : message.IsStamped) :
    message.header.id = message.body.kind.id ∧ message.length = message.body.kind.length := by
  obtain ⟨now, body, rfl⟩ := h
  exact ⟨rfl, length_stamped now body⟩

theorem Message.encode_of_isStamped {message : Message} (h : message.IsStamped) :
    message.encode = message.header.encode ++ message.body.encode := by
  have hl : message.length = headerSize + message.body.kind.bodySize := (header_of_isStamped h).2
  rw [encode_eq _ (Nat.le_of_eq hl.symm), hl, Nat.sub_self, List.replicate_zero, List.append_nil]

namespace Frame
variable (frame : Frame)

theorem length_drop_bytes : (frame.bytes.drop headerSize).length = frame.kind.bodySize := by
  rw [List.length_drop, frame.length_bytes, Kind.length, Nat.add_sub_cancel_left]

/-- The message of a frame is read from its header and from all that follows. -/
theorem message_eq : frame.message =
    ⟨Header.decode frame.bytes, Body.decode (frame.bytes.drop headerSize) frame.kind⟩ := by
  have hlength := frame.length_bytes
  have hheader := frame.header_eq.2
  have hlt : ¬ frame.bytes.length < headerSize := Nat.not_lt.2 frame.headerSize_le
  unfold message Message.ofBytes Message.absorb
  dsimp only [Message.stamped]
  rw [if_neg hlt, Body.kind_blank]
  by_cases hs : 0 < frame.kind.bodySize
  · rw [if_pos ⟨hs, by omega, Nat.le_of_eq hheader.symm⟩]
    dsimp only
    rw [List.take_of_length_le (Nat.le_of_eq frame.length_drop_bytes)]
  · rw [if_neg fun hc => hs hc.1]
    have hzero : (Body.blank frame.kind).kind.bodySize = 0 := by
      rw [Body.kind_blank]
      exact Nat.eq_zero_of_not_pos hs
    have hbody : Body.decode (frame.bytes.drop headerSize) frame.kind = Body.blank frame.kind :=
      Body.eq_of_bodySize_eq_zero hzero (by rw [Body.kind_decode, Body.kind_blank])
    rw [hbody]

theorem isStamped_message : frame.message.IsStamped := by
  obtain ⟨hid, hlength⟩ := frame.header_eq
  refine ⟨(Header.decode frame.bytes).timestamp,
    Body.decode (frame.bytes.drop headerSize) frame.kind, ?_⟩
  rw [message_eq, Message.stamped, Header.stamped, Body.kind_decode, ← hid, ← hlength,
    UInt32.ofNat_toNat]

theorem kind_message : frame.message.body.kind = frame.kind :=
  Message.kind_ofBytes frame.kind frame.bytes

/-- **Writing undoes reading**, up to the mark of a page. -/
theorem encode_message : frame.message.encode = normalBytes frame.bytes := by
  have hsize := frame.length_drop_bytes
  rw [Message.encode_of_isStamped frame.isStamped_message, message_eq]
  dsimp only
  rw [Header.encode_decode frame.headerSize_le]
  by_cases hk : frame.kind = .locationsResponse
  · rw [hk] at hsize ⊢
    have hne : frame.bytes.drop headerSize ≠ [] :=
      List.ne_nil_of_length_pos (Nat.lt_of_lt_of_eq (by decide) hsize.symm)
    have hlast : (frame.bytes.drop headerSize).getLast? = frame.bytes.getLast? := by
      rw [List.getLast?_drop, if_neg]
      rw [frame.length_bytes, hk]
      decide
    have hfront : frame.bytes.take headerSize ++ (frame.bytes.drop headerSize).dropLast =
        frame.bytes.dropLast := by
      rw [← List.dropLast_append_of_ne_nil hne, List.take_append_drop]
    have hnumber : frame.bytes.take 4 = BigEndian.encode 4 Kind.locationsResponse.id.toNat := by
      rw [frame.number, hk]
    unfold normalBytes
    rw [if_pos hnumber, Body.decode, Body.encode, Page.encode_decode hsize, ← List.append_assoc,
      hfront, hlast]
  · have hnumber : ¬ frame.bytes.take 4 = BigEndian.encode 4 Kind.locationsResponse.id.toNat := by
      have hs := frame.headerSize_le
      unfold headerSize at hs
      rw [← Header.decode_id_eq_iff (by omega), frame.header_eq.1]
      exact fun h => hk (Kind.id_injective h)
    rw [Body.encode_decode hk hsize, List.take_append_drop, normalBytes, if_neg hnumber]

/-- Two frames are read as the same message if they differ at most in the mark of a page. -/
theorem message_inj {frame other : Frame} :
    frame.message = other.message ↔ normalBytes frame.bytes = normalBytes other.bytes := by
  rw [← encode_message, ← encode_message]
  exact ⟨congrArg _, Message.eq_of_encode_eq frame.isStamped_message other.isStamped_message⟩

end Frame

/-! ### Bytes that a framer accepts -/

/-- **Bytes that are accepted as one message.** They are fed in some chunks, with questions too
early among them; after the last chunk, all of which belongs to the message, it is there to be
taken. -/
def Accepts (bytes : List UInt8) (message : Message) : Prop :=
  ∃ (before : List Framer.Call) (chunk : List UInt8) (next : Framer),
    bytes = before.flatMap Framer.Call.bytes ++ chunk ∧
      (∀ reply ∈ (Framer.new.calls before).1, reply.IsWaiting) ∧
      ((Framer.new.calls before).2.feed chunk).1 = .complete chunk.length ∧
      ((Framer.new.calls before).2.feed chunk).2.take? = some (message, next)

/-- Bytes that are complete together with their last chunk are a frame. -/
theorem exists_frame_of_complete {fed chunk : List UInt8} (hu : Unfinished fed)
    (h : (FrameStage.ofBytes (fed ++ chunk)).status fed.length = .complete chunk.length) :
    ∃ frame : Frame, frame.bytes = fed ++ chunk := by
  rcases trichotomy (fed ++ chunk) with ⟨frame, rest, hb⟩ | hw | ⟨error, he⟩
  · rw [hb, FrameStage.ofBytes_append_frame] at h
    have hconsumed : frame.kind.length - fed.length = chunk.length := by
      rw [← frame.kind_message]
      exact FrameStatus.complete.inj h
    -- the frame is not over before the chunk, so it ends where the chunk does
    have hfed : fed.length < frame.bytes.length := by
      refine Nat.lt_of_not_le fun hle => ?_
      obtain ⟨more, rfl⟩ := List.prefix_of_prefix_length_le ⟨rest, hb.symm⟩
        (List.prefix_append fed chunk) hle
      exact hu.not_frame_append
    have hrest : rest = [] := by
      have hl : (fed ++ chunk).length = (frame.bytes ++ rest).length := congrArg _ hb
      rw [List.length_append, List.length_append] at hl
      rw [frame.length_bytes] at hl hfed
      exact List.eq_nil_of_length_eq_zero (by omega)
    exact ⟨frame, by rw [hb, hrest, List.append_nil]⟩
  · have ho := FrameStage.isOpen_ofBytes hw
    cases hs : FrameStage.ofBytes (fed ++ chunk) with
    | awaitingHeader => rw [hs] at h; cases h
    | awaitingBody kind => rw [hs] at h; cases h
    | complete message => rw [hs] at ho; exact ho.elim
    | rejected error => rw [hs] at ho; exact ho.elim
  · rw [FrameStage.ofBytes_of_badHeader he] at h
    cases h

/-- **What is accepted is a frame**, and the message is the one that it stands for. -/
theorem accepts_iff {bytes : List UInt8} {message : Message} :
    Accepts bytes message ↔ ∃ frame : Frame, frame.bytes = bytes ∧ frame.message = message := by
  have stage (frame : Frame) : FrameStage.ofBytes frame.bytes = .complete frame.message := by
    have h := FrameStage.ofBytes_append_frame frame []
    rwa [List.append_nil] at h
  constructor
  · rintro ⟨before, chunk, next, rfl, hwait, hcomplete, htake⟩
    obtain ⟨hframer, hu⟩ := Framer.calls_waiting unfinished_nil hwait
    rw [List.nil_append] at hframer hu
    rw [show Framer.new = Framer.holding [] from rfl, hframer, Framer.feed_holding hu]
      at hcomplete htake
    obtain ⟨frame, hb⟩ := exists_frame_of_complete hu hcomplete
    refine ⟨frame, hb, ?_⟩
    rw [← hb, Framer.take?, Framer.holding, stage] at htake
    exact congrArg Prod.fst (Option.some.inj htake)
  · rintro ⟨frame, rfl, rfl⟩
    have hfeed := Framer.feed_holding unfinished_nil frame.bytes
    rw [List.nil_append, stage] at hfeed
    have hconsumed : frame.message.body.kind.length - 0 = frame.bytes.length := by
      rw [frame.kind_message, Nat.sub_zero, frame.length_bytes]
    refine ⟨[], frame.bytes, .new, rfl, List.forall_mem_nil _, ?_, ?_⟩
    · show ((Framer.holding []).feed frame.bytes).1 = _
      rw [hfeed]
      exact congrArg _ hconsumed
    · show ((Framer.holding []).feed frame.bytes).2.take? = _
      rw [hfeed, Framer.take?, Framer.holding, stage]

/-- Bytes that are a frame but for the mark of a page are a frame. -/
theorem Frame.exists_of_normalBytes (frame : Frame) {bytes : List UInt8}
    (h : frame.bytes = normalBytes bytes) : ∃ other : Frame, other.bytes = bytes := by
  by_cases hn : bytes.take 4 = BigEndian.encode 4 Kind.locationsResponse.id.toNat
  · obtain ⟨front, mark, rfl⟩ : ∃ front mark, bytes = front ++ [mark] := by
      rcases List.eq_nil_or_concat bytes with rfl | ⟨front, mark, rfl⟩
      · cases hn
      · exact ⟨front, mark, List.concat_eq_append⟩
    unfold normalBytes at h
    rw [if_pos hn, List.dropLast_concat] at h
    have hsize := frame.headerSize_le
    unfold headerSize at hsize
    have hlength := frame.length_bytes
    have hnumber := frame.number
    have hdeclared := frame.declared
    rw [h, List.length_append, List.length_singleton] at hsize hlength
    -- the number and the length are in front of the mark, whatever that is
    rw [h, List.take_append_of_le_length (by omega)] at hnumber
    rw [h, take_drop_append (by omega)] at hdeclared
    refine ⟨⟨frame.kind, front ++ [mark], ?_, ?_, ?_⟩, rfl⟩
    · rw [List.length_append, List.length_singleton, hlength]
    · rw [List.take_append_of_le_length (by omega), hnumber]
    · rw [take_drop_append (by omega), hdeclared]
  · unfold normalBytes at h
    rw [if_neg hn] at h
    exact ⟨frame, h⟩

/-- **What is accepted, by what is written**: the bytes of a message that was made at some time, but
for the mark of a page. -/
theorem accepts_iff_encode {bytes : List UInt8} {message : Message} :
    Accepts bytes message ↔ message.IsStamped ∧ message.encode = normalBytes bytes := by
  constructor
  · intro h
    obtain ⟨frame, rfl, rfl⟩ := accepts_iff.1 h
    exact ⟨frame.isStamped_message, frame.encode_message⟩
  · rintro ⟨hstamped, hencode⟩
    obtain ⟨frame, rfl⟩ : ∃ frame : Frame, frame.bytes = bytes := by
      obtain ⟨now, body, rfl⟩ := hstamped
      exact (Frame.ofBody now body).exists_of_normalBytes hencode
    refine accepts_iff.2 ⟨frame, rfl, ?_⟩
    exact Message.eq_of_encode_eq frame.isStamped_message hstamped
      (frame.encode_message.trans hencode.symm)

/-- **What is written after reading is what was read.** Bytes that are accepted as one message, in
whatever chunks they came, give a message whose header has the number of its body's kind and the
length that header and body take together, which is that of the bytes. Writing it gives the bytes
again, but for the mark of a page, and the messages of two accepted byte strings are the same
exactly if the byte strings are, but for that mark. No others are accepted: all that is written of
a message made at some time is, whatever the mark. -/
theorem accepted_encode (bytes : List UInt8) (message : Message) :
    (Accepts bytes message →
      message.header.id = message.body.kind.id ∧
        message.length = headerSize + message.body.kind.bodySize ∧
        bytes.length = message.length ∧
        message.encode = normalBytes bytes ∧
        ∀ (other : List UInt8) (otherMessage : Message), Accepts other otherMessage →
          (message = otherMessage ↔ normalBytes bytes = normalBytes other)) ∧
      (message.IsStamped → message.encode = normalBytes bytes → Accepts bytes message) := by
  refine ⟨fun h => ?_, fun hstamped hencode => accepts_iff_encode.2 ⟨hstamped, hencode⟩⟩
  obtain ⟨hstamped, hencode⟩ := accepts_iff_encode.1 h
  obtain ⟨frame, rfl, rfl⟩ := accepts_iff.1 h
  obtain ⟨hid, hlength⟩ := Message.header_of_isStamped hstamped
  refine ⟨hid, hlength, ?_, hencode, fun other otherMessage ho => ?_⟩
  · rw [hlength, frame.kind_message, frame.length_bytes]
  · obtain ⟨frame', rfl, rfl⟩ := accepts_iff.1 ho
    exact Frame.message_inj

/-- A page with a count far beyond its buffer and the mark 7, in two chunks with a question too
early between them, is written with the mark 1, and is read like the page that has the mark 1. -/
theorem accepted_encode_marked_page :
    let page : Page := ⟨18446744073709551615, List.replicate pageCapacity 200, true,
      List.length_replicate⟩
    let message := Message.stamped 9 (.locationsResponse page)
    let bytes := message.encode.dropLast ++ [7]
    Accepts bytes message ∧ Accepts message.encode message ∧ message.encode = normalBytes bytes ∧
      message.encode ≠ bytes ∧ normalBytes bytes = normalBytes message.encode := by
  intro page message bytes
  have h : Accepts bytes message :=
    ⟨[.feed (bytes.take 40), .take], bytes.drop 40, .new, by decide +kernel, by decide +kernel,
      by decide +kernel, by decide +kernel⟩
  obtain ⟨-, -, -, hencode, hsame⟩ := (accepted_encode bytes message).1 h
  have hother : Accepts message.encode message :=
    (accepted_encode message.encode message).2 ⟨9, _, rfl⟩ (by decide +kernel)
  exact ⟨h, hother, hencode, by decide +kernel, (hsame _ _ hother).1 rfl⟩

end RouteCosts
