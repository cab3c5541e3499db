import RouteCosts.Proofs.Wire.Acceptance
import RouteCosts.Proofs.Wire.Layout

/-! # Reading in stages

A message may be read from the front of its bytes, and again when more of them are there. What one
reading takes over is said by the parts that the bytes are put together from (`Message.Absorbs`):
nothing from less than a header, the header alone, or the header and the body that stands behind it.
So every part that is read lies within the bytes. Whether the body is taken depends on the declared
length, the size of the body and the count of the bytes (`Header.Covers`); more bytes can only help
(`Header.Covers.mono`). So an earlier reading leaves no trace (`Message.absorb_absorb`). The main
statement is `Message.absorb_in_stages`. -/

namespace RouteCosts

/-! ### The bytes of a body -/

/-- **Bytes that a body is read from**: those that are laid out for it, but that the mark of a page
may be any number but 0 where it would be 1. -/
def Body.ReadFrom (body : Body) (bytes : List UInt8) : Prop :=
  body.LaidOut bytes ∨
    body.kind = .locationsResponse ∧ ∃ front mark, mark ≠ 0 ∧ bytes = front ++ [mark] ∧
      body.LaidOut (front ++ [1])

/-- Bodies of a kind differ in their bytes. -/
theorem Body.eq_of_encode_eq {body other : Body} (hk : body.kind = other.kind)
    (h : body.encode = other.encode) : body = other := by
  rw [← body.decode_encode, ← other.decode_encode, h, hk]

theorem Body.readFrom_decode {kind : Kind} {bytes : List UInt8} (h : bytes.length = kind.bodySize) :
    (decode bytes kind).ReadFrom bytes := by
  by_cases hk : kind = .locationsResponse
  · subst hk
    have hencode : (decode bytes .locationsResponse).encode =
        bytes.dropLast ++ [if bytes.getLast? = some 0 then 0 else 1] := Page.encode_decode h
    obtain ⟨front, mark, rfl⟩ : ∃ front mark, bytes = front ++ [mark] := by
      rcases List.eq_nil_or_concat bytes with rfl | ⟨front, mark, rfl⟩
      · cases h
      · exact ⟨front, mark, List.concat_eq_append⟩
    rw [List.dropLast_concat, List.getLast?_concat] at hencode
    by_cases hz : mark = 0
    · subst hz
      rw [if_pos rfl] at hencode
      exact Or.inl (laidOut_iff.2 hencode.symm)
    · rw [if_neg fun hm => hz (Option.some.inj hm)] at hencode
      exact Or.inr ⟨rfl, front, mark, hz, rfl, laidOut_iff.2 hencode.symm⟩
  · exact Or.inl (laidOut_iff.2 (encode_decode hk h).symm)

theorem Body.ReadFrom.length_eq {body : Body} {bytes : List UInt8} (h : body.ReadFrom bytes) :
    bytes.length = body.kind.bodySize := by
  rcases h with h | ⟨-, front, mark, -, rfl, h⟩
  · rw [laidOut_iff.1 h, length_encode]
  · have hl := congrArg List.length (laidOut_iff.1 h)
    rw [length_encode] at hl
    rw [← hl, List.length_append, List.length_append, List.length_singleton, List.length_singleton]

/-- **There is one body of a kind** to be read from some bytes. -/
theorem Body.eq_decode_iff {kind : Kind} {bytes : List UInt8} (h : bytes.length = kind.bodySize)
    {body : Body} : body = decode bytes kind ↔ body.kind = kind ∧ body.ReadFrom bytes := by
  constructor
  · rintro rfl
    exact ⟨kind_decode bytes kind, readFrom_decode h⟩
  · rintro ⟨rfl, hread⟩
    refine eq_of_encode_eq (kind_decode bytes body.kind).symm ?_
    rcases hread with hlaid | ⟨hk, front, mark, hz, rfl, hlaid⟩
    · obtain rfl := laidOut_iff.1 hlaid
      rw [decode_encode]
    · rw [hk] at h ⊢
      have hencode : (decode (front ++ [mark]) .locationsResponse).encode =
          (front ++ [mark]).dropLast ++ [if (front ++ [mark]).getLast? = some 0 then 0 else 1] :=
        Page.encode_decode h
      rw [hencode, List.dropLast_concat, List.getLast?_concat,
        if_neg fun hm => hz (Option.some.inj hm), laidOut_iff.1 hlaid]

/-! ### Whether the body is taken -/

/-- **A header covers a body** among some bytes: the body has a size, the declared length has room
for it, and as many bytes as declared are there. -/
def Header.Covers (header : Header) (kind : Kind) (available : Nat) : Prop :=
  0 < kind.bodySize ∧ header.length.toNat ≤ available ∧
    headerSize + kind.bodySize ≤ header.length.toNat

theorem Header.Covers.mono {header : Header} {kind : Kind} {available more : Nat}
    (h : header.Covers kind available) (hle : available ≤ more) : header.Covers kind more :=
  ⟨h.1, Nat.le_trans h.2.1 hle, h.2.2⟩

theorem Header.laidOut_take {bytes : List UInt8} (h : headerSize ≤ bytes.length) :
    (Header.decode bytes).LaidOut (bytes.take headerSize) :=
  Header.laidOut_iff.2 (Header.encode_decode h).symm

namespace Message

section Absorb
variable {message : Message} {bytes : List UInt8} (h : headerSize ≤ bytes.length)
include h

theorem absorb_of_covers (hc : (Header.decode bytes).Covers message.body.kind bytes.length) :
    message.absorb bytes = (⟨Header.decode bytes,
      Body.decode ((bytes.drop headerSize).take message.body.kind.bodySize) message.body.kind⟩,
      (Header.decode bytes).length.toNat) := by
  unfold absorb
  rw [if_neg (Nat.not_lt.2 h)]
  exact if_pos hc

theorem absorb_of_not_covers (hc : ¬ (Header.decode bytes).Covers message.body.kind bytes.length) :
    message.absorb bytes = (⟨Header.decode bytes, message.body⟩, headerSize) := by
  unfold absorb
  rw [if_neg (Nat.not_lt.2 h)]
  exact if_neg hc

end Absorb

/-- **An earlier reading leaves no trace.** -/
theorem absorb_absorb (message : Message) (part rest : List UInt8) :
    (message.absorb part).1.absorb (part ++ rest) = message.absorb (part ++ rest) := by
  by_cases hp : part.length < headerSize
  · rw [absorb_of_lt hp]
  have hpart : headerSize ≤ part.length := Nat.le_of_not_lt hp
  have hlength : part.length ≤ (part ++ rest).length := by
    rw [List.length_append]
    exact Nat.le_add_right _ _
  have hwhole : headerSize ≤ (part ++ rest).length := Nat.le_trans hpart hlength
  have hheader : Header.decode (part ++ rest) = Header.decode part :=
    Header.decode_append hpart rest
  have hkind : (message.absorb part).1.body.kind = message.body.kind := kind_absorb message part
  by_cases hc : (Header.decode (part ++ rest)).Covers message.body.kind (part ++ rest).length
  · -- the body is read anew, whatever it was
    rw [absorb_of_covers hwhole hc, absorb_of_covers hwhole (by rw [hkind]; exact hc), hkind]
  · -- the body was not read before, because it is not all there now
    have hcp : ¬ (Header.decode part).Covers message.body.kind part.length := fun hcov =>
      hc (hheader ▸ hcov.mono hlength)
    rw [absorb_of_not_covers hpart hcp]
    have hbody : (⟨Header.decode part, message.body⟩ : Message).body = message.body := rfl
    rw [absorb_of_not_covers hwhole hc, absorb_of_not_covers hwhole (by rw [hbody]; exact hc)]

/-! ### What is taken over -/

/-- **What a message takes over** from some bytes, and how many of them count. -/
inductive Absorbs (message : Message) (bytes : List UInt8) : Message → Nat → Prop where
  /-- Less than a header. -/
  | nothing (hlt : bytes.length < headerSize) : Absorbs message bytes message 0
  /-- The header alone. -/
  | header {header : Header} {front rest : List UInt8} (hb : bytes = front ++ rest)
    (hh : header.LaidOut front) (hc : ¬ header.Covers message.body.kind bytes.length) :
    Absorbs message bytes ⟨header, message.body⟩ headerSize
  /-- The header and a body behind it. -/
  | whole {header : Header} {body : Body} {front middle rest : List UInt8}
    (hb : bytes = front ++ middle ++ rest) (hh : header.LaidOut front)
    (hc : header.Covers message.body.kind bytes.length) (hk : body.kind = message.body.kind)
    (hr : body.ReadFrom middle) : Absorbs message bytes ⟨header, body⟩ header.length.toNat

theorem absorbs_absorb (message : Message) (bytes : List UInt8) :
    Absorbs message bytes (message.absorb bytes).1 (message.absorb bytes).2 := by
  by_cases hlt : bytes.length < headerSize
  · rw [absorb_of_lt hlt]
    exact .nothing hlt
  have h : headerSize ≤ bytes.length := Nat.le_of_not_lt hlt
  have hfront := Header.laidOut_take h
  by_cases hc : (Header.decode bytes).Covers message.body.kind bytes.length
  · have ⟨_, hthere, hroom⟩ := hc
    have hsize : ((bytes.drop headerSize).take message.body.kind.bodySize).length =
        message.body.kind.bodySize := by
      rw [List.length_take, List.length_drop]
      omega
    have hb : bytes = bytes.take headerSize ++
        (bytes.drop headerSize).take message.body.kind.bodySize ++
          (bytes.drop headerSize).drop message.body.kind.bodySize := by
      rw [List.append_assoc, List.take_append_drop, List.take_append_drop]
    rw [absorb_of_covers h hc]
    exact .whole hb hfront hc (Body.kind_decode _ _) (Body.readFrom_decode hsize)
  · rw [absorb_of_not_covers h hc]
    exact .header (List.take_append_drop headerSize bytes).symm hfront hc

theorem Absorbs.absorb_eq {message after : Message} {bytes : List UInt8} {count : Nat}
    (h : Absorbs message bytes after count) : message.absorb bytes = (after, count) := by
  cases h with
  | nothing hlt => exact absorb_of_lt hlt
  | @header header front rest hb hh hc =>
    obtain rfl := Header.laidOut_iff.1 hh
    have hheader : Header.decode bytes = header := hb ▸ Header.decode_encode header rest
    have hsize : headerSize ≤ bytes.length := by
      rw [hb, List.length_append, Header.length_encode]
      exact Nat.le_add_right _ _
    rw [absorb_of_not_covers hsize (by rw [hheader]; exact hc), hheader]
  | @whole header body front middle rest hb hh hc hk hr =>
    obtain rfl := Header.laidOut_iff.1 hh
    rw [List.append_assoc] at hb
    have hheader : Header.decode bytes = header := hb ▸ Header.decode_encode header _
    have hsize : headerSize ≤ bytes.length := by
      rw [hb, List.length_append, Header.length_encode]
      exact Nat.le_add_right _ _
    have hmiddle : middle.length = message.body.kind.bodySize := hk ▸ hr.length_eq
    have hslice : (bytes.drop headerSize).take message.body.kind.bodySize = middle := by
      rw [hb, ← Header.length_encode header, List.drop_left, ← hmiddle, List.take_left]
    have hbody : body = Body.decode middle message.body.kind :=
      (Body.eq_decode_iff hmiddle).2 ⟨hk, hr⟩
    rw [absorb_of_covers hsize (by rw [hheader]; exact hc), hheader, hslice, ← hbody]

/-- **One reading takes over just what there is to take.** -/
theorem absorb_eq_iff {message after : Message} {bytes : List UInt8} {count : Nat} :
    message.absorb bytes = (after, count) ↔ Absorbs message bytes after count := by
  constructor
  · intro h
    have habsorbs := absorbs_absorb message bytes
    rwa [h] at habsorbs
  · exact Absorbs.absorb_eq

theorem Absorbs.lt_of_count_eq_zero {message after : Message} {bytes : List UInt8} {count : Nat}
    (h : Absorbs message bytes after count) (hz : count = 0) : bytes.length < headerSize := by
  cases h with
  | nothing hlt => exact hlt
  | header hb hh hc => cases hz
  | whole hb hh hc hk hr =>
    obtain ⟨hpos, -, hroom⟩ := hc
    omega

/-- **Reading in stages.** However many fronts of some bytes a message has read before, reading the
bytes leaves the same message and the same count. From less than a header nothing is taken over, and
only then the count is 0 and the message as it was. Otherwise the bytes begin with those of the
header that is taken over. If that header covers a body of the message's kind, such a body is read
from the bytes behind it, and the count is the declared length; if not, the body stays, and the
count is the size of a header. -/
theorem absorb_in_stages (message : Message) (bytes : List UInt8) :
    (∀ parts : List (List UInt8), (∀ part ∈ parts, part <+: bytes) →
      (parts.foldl (fun message part => (message.absorb part).1) message).absorb bytes =
        message.absorb bytes) ∧
      ((message.absorb bytes).2 = 0 ↔ bytes.length < headerSize) ∧
      (message.absorb bytes = (message, 0) ↔ bytes.length < headerSize) ∧
      ∀ after count, message.absorb bytes = (after, count) ↔ Absorbs message bytes after count := by
  have hzero : (message.absorb bytes).2 = 0 → bytes.length < headerSize :=
    (absorbs_absorb message bytes).lt_of_count_eq_zero
  refine ⟨fun parts h => ?_, ⟨hzero, fun hlt => by rw [absorb_of_lt hlt]⟩,
    ⟨fun h => hzero (by rw [h]), absorb_of_lt⟩, fun after count => absorb_eq_iff⟩
  clear hzero
  induction parts generalizing message with
  | nil => rfl
  | cons part parts ih =>
    obtain ⟨⟨rest, rfl⟩, hparts⟩ := List.forall_mem_cons.1 h
    rw [List.foldl_cons, ih _ hparts, absorb_absorb]

/-- A page under a header that declares more than it needs: read from a front that ends in the
header, from one that ends in the page, and from all of it. -/
theorem absorb_in_stages_long_header :
    let page : Page := ⟨3, List.replicate pageCapacity 65, true, List.length_replicate⟩
    let message : Message := ⟨⟨9, 127, 5⟩, .locationsResponse page⟩
    let fresh := Message.stamped 0 (.locationsResponse .empty)
    let bytes := message.encode ++ [1, 2, 3]
    let half := (fresh.absorb (bytes.take 12)).1.absorb (bytes.take 126)
    half = (⟨message.header, .locationsResponse .empty⟩, 16) ∧
      half.1.absorb bytes = (message, 127) := by
  intro page message fresh bytes half
  obtain ⟨hstages, -⟩ := absorb_in_stages fresh bytes
  have hparts : ∀ part ∈ [bytes.take 12, bytes.take 126], part <+: bytes := by
    intro part hp
    simp only [List.mem_cons, List.not_mem_nil, or_false] at hp
    rcases hp with rfl | rfl
    · exact List.take_prefix _ _
    · exact List.take_prefix _ _
  refine ⟨by decide +kernel, (hstages _ hparts).trans ?_⟩
  decide +kernel

end Message

end RouteCosts
