import RouteCosts.Wire.Page

/-!
# Messages

A message is a header and a body. The header names a kind, the length of the whole message and the
time of creation; the body's fields are packed big-endian in a size fixed by its kind. `encode`
writes a message in exactly the length its header declares. `absorb` reads as much as some bytes
allow: nothing from less than a header, the header alone when the body is not all there, and both
when it is. A header that was absorbed may disagree with the body beside it.
-/

namespace RouteCosts

/-- The first sixteen bytes of a message. -/
structure Header where
  id : UInt32
  /-- The bytes of the whole message, header included. -/
  length : UInt32
  /-- Seconds since the epoch. -/
  timestamp : Int64
  deriving DecidableEq

namespace Header

/-- The header of a message of a given kind, made at a given time. -/
def stamped (now : Int64) (kind : Kind) : Header := ⟨kind.id, UInt32.ofNat kind.length, now⟩

/-- The bytes of a header. -/
def encode (header : Header) : List UInt8 :=
  BigEndian.encode 4 header.id.toNat ++ BigEndian.encode 4 header.length.toNat ++
    BigEndian.encode 8 header.timestamp.toUInt64.toNat

/-- The header at the front of some bytes. -/
def decode (bytes : List UInt8) : Header where
  id := UInt32.ofNat (BigEndian.decode (bytes.take 4))
  length := UInt32.ofNat (BigEndian.decode ((bytes.drop 4).take 4))
  timestamp := (UInt64.ofNat (BigEndian.decode ((bytes.drop 8).take 8))).toInt64

@[simp]
theorem length_encode (header : Header) : header.encode.length = headerSize := by
  simp [encode, headerSize]

end Header

/-- What a message says. -/
inductive Body where
  | header
  | statusRequest
  | statusResponse
  /-- Asks for the names from an index on. -/
  | locationsRequest (start : UInt64)
  | locationsResponse (page : Page)
  /-- Asks for the cost between two locations given by index. -/
  | routeRequest (start finish : UInt64)
  | routeResponse (cost : UInt64)
  deriving DecidableEq

namespace Body

/-- The kind of a body. -/
def kind : Body → Kind
  | header => .header
  | statusRequest => .statusRequest
  | statusResponse => .statusResponse
  | locationsRequest _ => .locationsRequest
  | locationsResponse _ => .locationsResponse
  | routeRequest _ _ => .routeRequest
  | routeResponse _ => .routeResponse

/-- The bytes of a body. -/
def encode : Body → List UInt8
  | header | statusRequest | statusResponse => []
  | locationsRequest start => BigEndian.encode 8 start.toNat
  | locationsResponse page => page.encode
  | routeRequest start finish => BigEndian.encode 8 start.toNat ++ BigEndian.encode 8 finish.toNat
  | routeResponse cost => BigEndian.encode 8 cost.toNat

/-- The body of a given kind at the front of some bytes. -/
def decode (bytes : List UInt8) : Kind → Body
  | .header => header
  | .statusRequest => statusRequest
  | .statusResponse => statusResponse
  | .locationsRequest => locationsRequest (UInt64.ofNat (BigEndian.decode (bytes.take 8)))
  | .locationsResponse => locationsResponse (Page.decode bytes)
  | .routeRequest =>
    routeRequest (UInt64.ofNat (BigEndian.decode (bytes.take 8)))
      (UInt64.ofNat (BigEndian.decode ((bytes.drop 8).take 8)))
  | .routeResponse => routeResponse (UInt64.ofNat (BigEndian.decode (bytes.take 8)))

/-- The body of a kind whose fields are all zero. -/
def blank : Kind → Body
  | .header => header
  | .statusRequest => statusRequest
  | .statusResponse => statusResponse
  | .locationsRequest => locationsRequest 0
  | .locationsResponse => locationsResponse .empty
  | .routeRequest => routeRequest 0 0
  | .routeResponse => routeResponse 0

@[simp]
theorem length_encode (body : Body) : body.encode.length = body.kind.bodySize := by
  cases body <;> simp [encode, kind, Kind.bodySize, Page.length_encode]

@[simp]
theorem kind_decode (bytes : List UInt8) (kind : Kind) : (decode bytes kind).kind = kind := by
  cases kind <;> rfl

@[simp]
theorem kind_blank (kind : Kind) : (blank kind).kind = kind := by cases kind <;> rfl

end Body

/-- A header and a body. -/
structure Message where
  header : Header
  body : Body
  deriving DecidableEq

namespace Message

/-- A message made at a given time. -/
def stamped (now : Int64) (body : Body) : Message := ⟨.stamped now body.kind, body⟩

/-- The length that the header declares. -/
def length (message : Message) : Nat := message.header.length.toNat

/-- Bytes cut, or filled up with zeros, to a length. -/
def fit (length : Nat) (bytes : List UInt8) : List UInt8 :=
  bytes.take length ++ List.replicate (length - bytes.length) 0

/-- The bytes of a message, as many as its header declares. -/
def encode (message : Message) : List UInt8 :=
  fit message.length (message.header.encode ++ message.body.encode)

/-- The message after reading some bytes, and how many of them belong to what was read. The body is
read only if it has a size, the declared length has room for it, and that many bytes are there. -/
def absorb (message : Message) (bytes : List UInt8) : Message × Nat :=
  if bytes.length < headerSize then (message, 0)
  else
    let header := Header.decode bytes
    let size := message.body.kind.bodySize
    let length := header.length.toNat
    if 0 < size ∧ length ≤ bytes.length ∧ headerSize + size ≤ length then
      (⟨header, Body.decode ((bytes.drop headerSize).take size) message.body.kind⟩, length)
    else (⟨header, message.body⟩, headerSize)

/-- The message of a kind that some bytes stand for. -/
def ofBytes (kind : Kind) (bytes : List UInt8) : Message :=
  (absorb (stamped 0 (Body.blank kind)) bytes).1

theorem length_fit (length : Nat) (bytes : List UInt8) : (fit length bytes).length = length := by
  simp only [fit, List.length_append, List.length_take, List.length_replicate]
  omega

@[simp]
theorem length_encode (message : Message) : message.encode.length = message.length :=
  length_fit _ _

theorem absorb_of_lt {message : Message} {bytes : List UInt8} (h : bytes.length < headerSize) :
    message.absorb bytes = (message, 0) := by
  simp [absorb, h]

@[simp]
theorem kind_absorb (message : Message) (bytes : List UInt8) :
    (message.absorb bytes).1.body.kind = message.body.kind := by
  unfold absorb
  split
  · rfl
  · dsimp only
    split <;> simp

end Message

end RouteCosts
