import RouteCosts.Wire.Framer

/-!
# Frames

A *frame* is a string of bytes that makes up one message: it begins with the number of a kind and
with the length of that kind's messages, and has exactly that length. What a stream of bytes holds
is said here without any framer: `Framing bytes` cuts a stream into frames and a rest that does not
begin with a frame. The rest is either `Unfinished`, the beginning of a frame at best, or it has a
header of which no message can come (`BadHeader`). Every stream has exactly one such cut.

* `Frame.eq_of_append_eq`: no two frames begin the same stream.
* `trichotomy`: a stream begins with a frame, or is unfinished, or has a bad header.
* `Framing.exists_framing`, `Framing.frames_eq`: the cut of a stream, and that there is no other.
* `FrameStage.advance_ofBytes`: the stage of a framer depends on its bytes, not on the chunks.
-/

namespace RouteCosts

/-! ### Numbers at the front of a header -/

theorem BigEndian.decode_lt_of_length {width : Nat} {bytes : List UInt8}
    (h : bytes.length = width) : decode bytes < capacity width :=
  h ▸ decode_lt bytes

theorem BigEndian.decode_eq_iff {width value : Nat} {bytes : List UInt8}
    (hb : bytes.length = width) (hv : value < capacity width) :
    decode bytes = value ↔ bytes = encode width value := by
  constructor
  · rintro rfl
    rw [← hb, encode_decode]
  · rintro rfl
    exact decode_encode hv

/-- A field at the front of some bytes is there whatever follows them. -/
theorem take_drop_append {start size : Nat} {bytes : List UInt8} (h : start + size ≤ bytes.length)
    (more : List UInt8) :
    ((bytes ++ more).drop start).take size = (bytes.drop start).take size := by
  rw [List.drop_append_of_le_length (by omega),
    List.take_append_of_le_length (by rw [List.length_drop]; omega)]

theorem Header.decode_id_eq_iff {bytes : List UInt8} (h : 4 ≤ bytes.length) (id : UInt32) :
    (Header.decode bytes).id = id ↔ bytes.take 4 = BigEndian.encode 4 id.toNat := by
  have hl : (bytes.take 4).length = 4 := by rw [List.length_take]; omega
  have hlt : BigEndian.decode (bytes.take 4) < 2 ^ 32 := BigEndian.decode_lt_of_length hl
  rw [← BigEndian.decode_eq_iff hl id.toNat_lt]
  show UInt32.ofNat _ = id ↔ _
  rw [← UInt32.toNat_inj, UInt32.toNat_ofNat_of_lt' hlt]

theorem Header.decode_length_eq_iff {bytes : List UInt8} (h : 8 ≤ bytes.length) {length : Nat}
    (hv : length < BigEndian.capacity 4) :
    (Header.decode bytes).length.toNat = length ↔
      (bytes.drop 4).take 4 = BigEndian.encode 4 length := by
  have hl : ((bytes.drop 4).take 4).length = 4 := by
    rw [List.length_take, List.length_drop]; omega
  have hlt : BigEndian.decode ((bytes.drop 4).take 4) < 2 ^ 32 := BigEndian.decode_lt_of_length hl
  rw [← BigEndian.decode_eq_iff hl hv]
  show (UInt32.ofNat _).toNat = length ↔ _
  rw [UInt32.toNat_ofNat_of_lt' hlt]

theorem Header.decode_append {bytes : List UInt8} (h : headerSize ≤ bytes.length)
    (more : List UInt8) : Header.decode (bytes ++ more) = Header.decode bytes := by
  unfold headerSize at h
  have h0 : (bytes ++ more).take 4 = bytes.take 4 := List.take_append_of_le_length (by omega)
  unfold Header.decode
  rw [h0, take_drop_append (by omega), take_drop_append (by omega)]

theorem Kind.length_lt_capacity (kind : Kind) : kind.length < BigEndian.capacity 4 := by
  cases kind <;> decide

theorem Kind.ofId?_eq_some_iff {number : UInt32} {kind : Kind} :
    Kind.ofId? number = some kind ↔ kind.id = number :=
  ⟨id_of_ofId?_eq_some, fun h => h ▸ ofId?_id kind⟩

theorem Kind.ofId?_eq_none_iff {number : UInt32} :
    Kind.ofId? number = none ↔ ∀ kind : Kind, kind.id ≠ number := by
  constructor
  · intro h kind hk
    rw [ofId?_eq_some_iff.2 hk] at h
    cases h
  · intro h
    cases ho : Kind.ofId? number with
    | none => rfl
    | some kind => exact absurd (id_of_ofId?_eq_some ho) (h kind)

/-! ### Frames -/

/-- **A frame**: the bytes of one message of some kind. -/
structure Frame where
  kind : Kind
  bytes : List UInt8
  length_bytes : bytes.length = kind.length
  /-- It begins with the number of its kind. -/
  number : bytes.take 4 = BigEndian.encode 4 kind.id.toNat
  /-- The length follows that the messages of its kind have. -/
  declared : (bytes.drop 4).take 4 = BigEndian.encode 4 kind.length

namespace Frame

/-- The message that a frame stands for. -/
def message (frame : Frame) : Message := .ofBytes frame.kind frame.bytes

theorem headerSize_le (frame : Frame) : headerSize ≤ frame.bytes.length :=
  frame.length_bytes ▸ frame.kind.headerSize_le_length

theorem bytes_ne_nil (frame : Frame) : frame.bytes ≠ [] := by
  have h := frame.headerSize_le
  rintro he
  rw [he] at h
  exact absurd h (by decide)

theorem length_le_flatMap_bytes (frames : List Frame) :
    frames.length ≤ (frames.flatMap Frame.bytes).length := by
  induction frames with
  | nil => exact Nat.le_refl 0
  | cons frame frames ih =>
    have := List.length_pos_iff.2 frame.bytes_ne_nil
    rw [List.flatMap_cons, List.length_append, List.length_cons]
    omega

theorem header_eq (frame : Frame) :
    (Header.decode frame.bytes).id = frame.kind.id ∧
      (Header.decode frame.bytes).length.toNat = frame.kind.length := by
  have h := frame.headerSize_le
  unfold headerSize at h
  exact ⟨(Header.decode_id_eq_iff (by omega) _).2 frame.number,
    (Header.decode_length_eq_iff (by omega) frame.kind.length_lt_capacity).2 frame.declared⟩

/-- Bytes with the header of a kind, and as many as its messages have. -/
def ofHeader (kind : Kind) (bytes : List UInt8) (hl : bytes.length = kind.length)
    (hi : (Header.decode bytes).id = kind.id)
    (hd : (Header.decode bytes).length.toNat = kind.length) : Frame where
  kind := kind
  bytes := bytes
  length_bytes := hl
  number := by
    have := kind.headerSize_le_length
    unfold headerSize at this
    exact (Header.decode_id_eq_iff (by omega) _).1 hi
  declared := by
    have := kind.headerSize_le_length
    unfold headerSize at this
    exact (Header.decode_length_eq_iff (by omega) kind.length_lt_capacity).1 hd

theorem ext_bytes {frame other : Frame} (h : frame.bytes = other.bytes) : frame = other := by
  have hk : frame.kind = other.kind :=
    Kind.id_injective (by rw [← frame.header_eq.1, ← other.header_eq.1, h])
  obtain ⟨kind, bytes, hl, hn, hd⟩ := frame
  obtain ⟨kind', bytes', hl', hn', hd'⟩ := other
  simp only at h hk
  subst h hk
  rfl

/-- **No two frames begin the same stream**, and so the bytes after a frame are determined too. -/
theorem eq_of_append_eq {frame other : Frame} {rest rest' : List UInt8}
    (h : frame.bytes ++ rest = other.bytes ++ rest') : frame = other ∧ rest = rest' := by
  have hd : Header.decode frame.bytes = Header.decode other.bytes := by
    rw [← Header.decode_append frame.headerSize_le rest, h,
      Header.decode_append other.headerSize_le rest']
  have hk : frame.kind = other.kind :=
    Kind.id_injective (by rw [← frame.header_eq.1, ← other.header_eq.1, hd])
  have hl : frame.bytes.length = other.bytes.length := by
    rw [frame.length_bytes, other.length_bytes, hk]
  obtain ⟨hb, hr⟩ := List.append_inj h hl
  exact ⟨ext_bytes hb, hr⟩

end Frame

/-! ### What does not begin with a frame -/

/-- **Unfinished bytes**: not even a header, or a part of a frame. -/
def Unfinished (bytes : List UInt8) : Prop :=
  bytes.length < headerSize ∨
    ∃ frame : Frame, bytes <+: frame.bytes ∧ bytes.length < frame.bytes.length

/-- **A bad header**: sixteen bytes with a number that no kind has, or with a length that is not the
one of the kind. -/
inductive BadHeader : List UInt8 → FrameError → Prop where
  | unknownKind {bytes : List UInt8} {id : UInt32} (size : headerSize ≤ bytes.length)
    (number : bytes.take 4 = BigEndian.encode 4 id.toNat) (unknown : ∀ kind : Kind, kind.id ≠ id) :
    BadHeader bytes (.unknownKind id)
  | lengthMismatch {bytes : List UInt8} {kind : Kind} {declared : UInt32}
    (size : headerSize ≤ bytes.length)
    (number : bytes.take 4 = BigEndian.encode 4 kind.id.toNat)
    (length : (bytes.drop 4).take 4 = BigEndian.encode 4 declared.toNat)
    (differs : declared.toNat ≠ kind.length) :
    BadHeader bytes (.lengthMismatch kind.id declared.toNat kind.length)

theorem unfinished_nil : Unfinished [] := Or.inl (by decide)

theorem BadHeader.headerSize_le {bytes : List UInt8} {error : FrameError}
    (h : BadHeader bytes error) : headerSize ≤ bytes.length := by
  cases h <;> assumption

theorem BadHeader.append {bytes : List UInt8} {error : FrameError} (h : BadHeader bytes error)
    (more : List UInt8) : BadHeader (bytes ++ more) error := by
  have hs := h.headerSize_le
  unfold headerSize at hs
  have h0 : (bytes ++ more).take 4 = bytes.take 4 := List.take_append_of_le_length (by omega)
  have h4 : ((bytes ++ more).drop 4).take 4 = (bytes.drop 4).take 4 := take_drop_append (by omega) _
  have hl : headerSize ≤ (bytes ++ more).length := by
    unfold headerSize
    rw [List.length_append]
    omega
  cases h with
  | unknownKind size number unknown => exact .unknownKind hl (h0.trans number) unknown
  | lengthMismatch size number length differs =>
    exact .lengthMismatch hl (h0.trans number) (h4.trans length) differs

/-- **A stream begins with a frame, or is unfinished, or has a bad header.** -/
theorem trichotomy (bytes : List UInt8) :
    (∃ (frame : Frame) (rest : List UInt8), bytes = frame.bytes ++ rest) ∨ Unfinished bytes ∨
      ∃ error, BadHeader bytes error := by
  by_cases hs : bytes.length < headerSize
  · exact Or.inr (Or.inl (Or.inl hs))
  have hs : headerSize ≤ bytes.length := Nat.le_of_not_lt hs
  have h8 : 8 ≤ bytes.length := Nat.le_trans (by decide) hs
  have hid := (Header.decode_id_eq_iff (by omega) (Header.decode bytes).id).1 rfl
  have hlen := (Header.decode_length_eq_iff h8 (Header.decode bytes).length.toNat_lt).1 rfl
  cases hk : Kind.ofId? (Header.decode bytes).id with
  | none =>
    exact Or.inr (Or.inr ⟨_, .unknownKind hs hid (Kind.ofId?_eq_none_iff.1 hk)⟩)
  | some kind =>
    have hki := Kind.id_of_ofId?_eq_some hk
    by_cases hd : (Header.decode bytes).length.toNat = kind.length
    · have hkl := kind.headerSize_le_length
      by_cases hl : bytes.length < kind.length
      · -- any bytes will do to fill the frame up
        have hpad : (bytes ++ List.replicate (kind.length - bytes.length) 0).length =
            kind.length := by
          rw [List.length_append, List.length_replicate]; omega
        have hdec := Header.decode_append hs (List.replicate (kind.length - bytes.length) 0)
        refine Or.inr (Or.inl (Or.inr ⟨.ofHeader kind _ hpad (by rw [hdec, hki]) (by rw [hdec, hd]),
          List.prefix_append _ _, ?_⟩))
        exact Nat.lt_of_lt_of_eq hl hpad.symm
      · have ht : (bytes.take kind.length).length = kind.length := by
          rw [List.length_take]; omega
        have hdec : Header.decode (bytes.take kind.length ++ bytes.drop kind.length) =
            Header.decode (bytes.take kind.length) := Header.decode_append (by omega) _
        rw [List.take_append_drop] at hdec
        exact Or.inl ⟨.ofHeader kind _ ht (by rw [← hdec, hki]) (by rw [← hdec, hd]),
          bytes.drop kind.length, (List.take_append_drop _ _).symm⟩
    · exact Or.inr (Or.inr ⟨_, .lengthMismatch hs (hki ▸ hid) hlen hd⟩)

/-! ### The stage of a framer -/

namespace FrameStage

/-- A stage that waits for more bytes. -/
def IsOpen : FrameStage → Prop
  | awaitingHeader | awaitingBody _ => True
  | _ => False

instance : (stage : FrameStage) → Decidable stage.IsOpen
  | awaitingHeader | awaitingBody _ => .isTrue trivial
  | complete _ | rejected _ => .isFalse id

theorem ofBytes_of_header {bytes : List UInt8} {kind : Kind} (hs : headerSize ≤ bytes.length)
    (hi : (Header.decode bytes).id = kind.id)
    (hd : (Header.decode bytes).length.toNat = kind.length) :
    ofBytes bytes = ofBody bytes kind := by
  unfold ofBytes
  rw [if_neg (Nat.not_lt.2 hs)]
  dsimp only
  rw [hi, Kind.ofId?_id]
  exact if_neg fun h => h hd

theorem ofBytes_append_frame (frame : Frame) (rest : List UInt8) :
    ofBytes (frame.bytes ++ rest) = complete frame.message := by
  have hl := frame.length_bytes
  have hs : headerSize ≤ (frame.bytes ++ rest).length := by
    have := frame.headerSize_le
    rw [List.length_append]; omega
  have hd := Header.decode_append frame.headerSize_le rest
  rw [ofBytes_of_header hs (hd ▸ frame.header_eq.1) (hd ▸ frame.header_eq.2), ofBody,
    if_neg (by rw [List.length_append]; omega), ← hl, List.take_left]
  rfl

theorem isOpen_ofBytes {bytes : List UInt8} (h : Unfinished bytes) : (ofBytes bytes).IsOpen := by
  by_cases hs : bytes.length < headerSize
  · unfold ofBytes
    rw [if_pos hs]
    trivial
  obtain ⟨frame, ⟨more, hm⟩, hl⟩ := h.resolve_left hs
  have hs : headerSize ≤ bytes.length := Nat.le_of_not_lt hs
  have hd := Header.decode_append hs more
  rw [hm] at hd
  rw [ofBytes_of_header hs (hd ▸ frame.header_eq.1) (hd ▸ frame.header_eq.2), ofBody,
    if_pos (frame.length_bytes ▸ hl)]
  trivial

theorem ofBytes_of_badHeader {bytes : List UInt8} {error : FrameError} (h : BadHeader bytes error) :
    ofBytes bytes = rejected error := by
  have hs := h.headerSize_le
  have h8 : 8 ≤ bytes.length := Nat.le_trans (by decide) hs
  unfold ofBytes
  rw [if_neg (Nat.not_lt.2 hs)]
  dsimp only
  cases h with
  | unknownKind size number unknown =>
    have hi := (Header.decode_id_eq_iff (by omega) _).2 number
    rw [hi, Kind.ofId?_eq_none_iff.2 unknown]
  | lengthMismatch size number length differs =>
    have hi := (Header.decode_id_eq_iff (by omega) _).2 number
    have hd := (Header.decode_length_eq_iff h8 (UInt32.toNat_lt _)).2 length
    rw [hi, Kind.ofId?_id, hd]
    exact if_pos differs

/-- **Chunks do not matter**: a framer that waits goes on as if all its bytes had come at once. -/
theorem advance_ofBytes {bytes : List UInt8} (h : (ofBytes bytes).IsOpen) (chunk : List UInt8) :
    (ofBytes bytes).advance (bytes ++ chunk) = ofBytes (bytes ++ chunk) := by
  by_cases hs : bytes.length < headerSize
  · have : ofBytes bytes = awaitingHeader := if_pos hs
    rw [this, advance]
  have hs : headerSize ≤ bytes.length := Nat.le_of_not_lt hs
  have hs' : headerSize ≤ (bytes ++ chunk).length := by rw [List.length_append]; omega
  rcases trichotomy bytes with ⟨frame, rest, rfl⟩ | hu | ⟨error, he⟩
  · rw [ofBytes_append_frame] at h
    exact h.elim
  · obtain ⟨frame, ⟨more, hm⟩, hl⟩ := hu.resolve_left (Nat.not_lt.2 hs)
    have hd := Header.decode_append hs more
    have hd' := Header.decode_append hs chunk
    rw [hm] at hd
    rw [ofBytes_of_header hs (hd ▸ frame.header_eq.1) (hd ▸ frame.header_eq.2),
      ofBytes_of_header hs' (by rw [hd', ← hd, frame.header_eq.1])
        (by rw [hd', ← hd, frame.header_eq.2]), ofBody, if_pos (frame.length_bytes ▸ hl), advance]
  · rw [ofBytes_of_badHeader he] at h
    exact h.elim

end FrameStage

/-! ### Cutting a stream -/

theorem Unfinished.not_frame_append {frame : Frame} {rest : List UInt8} :
    ¬ Unfinished (frame.bytes ++ rest) := by
  intro h
  have ho := FrameStage.isOpen_ofBytes h
  rw [FrameStage.ofBytes_append_frame] at ho
  exact ho

theorem BadHeader.not_frame_append {frame : Frame} {rest : List UInt8} {error : FrameError} :
    ¬ BadHeader (frame.bytes ++ rest) error := by
  intro h
  have ho := FrameStage.ofBytes_of_badHeader h
  rw [FrameStage.ofBytes_append_frame] at ho
  cases ho

theorem BadHeader.not_unfinished {bytes : List UInt8} {error : FrameError}
    (h : BadHeader bytes error) : ¬ Unfinished bytes := by
  intro hu
  have ho := FrameStage.isOpen_ofBytes hu
  rw [FrameStage.ofBytes_of_badHeader h] at ho
  exact ho

theorem BadHeader.unique {bytes : List UInt8} {error other : FrameError}
    (h : BadHeader bytes error) (h' : BadHeader bytes other) : error = other := by
  have ho := FrameStage.ofBytes_of_badHeader h
  rw [FrameStage.ofBytes_of_badHeader h'] at ho
  exact (FrameStage.rejected.inj ho).symm

/-- What is wrong with bytes that do not begin with a frame: nothing but that they are unfinished,
or their header. -/
inductive Leftover (bytes : List UInt8) : Option FrameError → Prop where
  | unfinished (h : Unfinished bytes) : Leftover bytes none
  | refused {error : FrameError} (h : BadHeader bytes error) : Leftover bytes (some error)

theorem Leftover.unique {bytes : List UInt8} {fault other : Option FrameError}
    (h : Leftover bytes fault) (h' : Leftover bytes other) : fault = other := by
  cases h with
  | unfinished h =>
    cases h' with
    | unfinished => rfl
    | refused h' => exact absurd h h'.not_unfinished
  | refused h =>
    cases h' with
    | unfinished h' => exact absurd h' h.not_unfinished
    | refused h' => rw [h.unique h']

theorem Leftover.not_frame_append {frame : Frame} {rest : List UInt8} {fault : Option FrameError} :
    ¬ Leftover (frame.bytes ++ rest) fault := by
  rintro (h | h)
  · exact Unfinished.not_frame_append h
  · exact BadHeader.not_frame_append h

/-- The start of a row of frames is a row of frames and something unfinished. -/
theorem exists_take_of_prefix {stream : List UInt8} {frames : List Frame}
    (h : stream <+: frames.flatMap Frame.bytes) :
    ∃ taken rest, taken <+: frames ∧ stream = taken.flatMap Frame.bytes ++ rest ∧
      Unfinished rest := by
  induction frames generalizing stream with
  | nil =>
    obtain rfl : stream = [] := List.prefix_nil.1 h
    exact ⟨[], [], List.prefix_rfl, rfl, unfinished_nil⟩
  | cons frame frames ih =>
    rw [List.flatMap_cons] at h
    by_cases hl : frame.bytes.length ≤ stream.length
    · obtain ⟨more, rfl⟩ := List.prefix_of_prefix_length_le (List.prefix_append _ _) h hl
      obtain ⟨taken, rest, ht, hm, hu⟩ := ih ((List.prefix_append_right_inj _).1 h)
      refine ⟨frame :: taken, rest, (List.prefix_cons_inj frame).2 ht, ?_, hu⟩
      rw [hm, List.flatMap_cons, List.append_assoc]
    · have hp := List.prefix_of_prefix_length_le h (List.prefix_append _ _) (by omega)
      exact ⟨[], stream, List.nil_prefix, rfl, Or.inr ⟨frame, hp, by omega⟩⟩

/-- **The cut of a stream** into frames and a rest that does not begin with one. -/
structure Framing (bytes : List UInt8) where
  frames : List Frame
  rest : List UInt8
  /-- What is wrong with the header of the rest, if it has one. -/
  fault : Option FrameError
  join : bytes = frames.flatMap Frame.bytes ++ rest
  leftover : Leftover rest fault

namespace Framing

/-- The cut of a stream whose cut after the first frame is known. -/
def cons (frame : Frame) {rest : List UInt8} (framing : Framing rest) :
    Framing (frame.bytes ++ rest) where
  frames := frame :: framing.frames
  rest := framing.rest
  fault := framing.fault
  join := by
    rw [List.flatMap_cons, List.append_assoc, ← framing.join]
  leftover := framing.leftover

theorem exists_framing (bytes : List UInt8) : Nonempty (Framing bytes) := by
  rcases trichotomy bytes with ⟨frame, rest, h⟩ | hu | ⟨error, he⟩
  · have : rest.length < bytes.length := by
      have := List.length_pos_iff.2 frame.bytes_ne_nil
      rw [h, List.length_append]; omega
    obtain ⟨framing⟩ := exists_framing rest
    exact ⟨h ▸ framing.cons frame⟩
  · exact ⟨⟨[], bytes, none, rfl, .unfinished hu⟩⟩
  · exact ⟨⟨[], bytes, some error, rfl, .refused he⟩⟩
termination_by bytes.length

theorem frames_eq {frames frames' : List Frame} {rest rest' : List UInt8}
    {fault fault' : Option FrameError}
    (h : frames.flatMap Frame.bytes ++ rest = frames'.flatMap Frame.bytes ++ rest')
    (hl : Leftover rest fault) (hl' : Leftover rest' fault') :
    frames = frames' ∧ rest = rest' := by
  induction frames generalizing frames' with
  | nil =>
    cases frames' with
    | nil => exact ⟨rfl, h⟩
    | cons frame more =>
      rw [List.flatMap_nil, List.nil_append, List.flatMap_cons, List.append_assoc] at h
      exact absurd (h ▸ hl) Leftover.not_frame_append
  | cons frame more ih =>
    cases frames' with
    | nil =>
      rw [List.flatMap_nil, List.nil_append, List.flatMap_cons, List.append_assoc] at h
      exact absurd (h ▸ hl') Leftover.not_frame_append
    | cons frame' more' =>
      rw [List.flatMap_cons, List.flatMap_cons, List.append_assoc, List.append_assoc] at h
      obtain ⟨rfl, hr⟩ := Frame.eq_of_append_eq h
      obtain ⟨rfl, rfl⟩ := ih hr
      exact ⟨rfl, rfl⟩

/-- **A stream has only one cut.** -/
instance (bytes : List UInt8) : Subsingleton (Framing bytes) where
  allEq a b := by
    obtain ⟨frames, rest, fault, join, leftover⟩ := a
    obtain ⟨frames', rest', fault', join', leftover'⟩ := b
    obtain ⟨rfl, rfl⟩ := frames_eq (join.symm.trans join') leftover leftover'
    obtain rfl := leftover.unique leftover'
    rfl

end Framing

end RouteCosts
