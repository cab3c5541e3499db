import RouteCosts.Bytes.BigEndian
import RouteCosts.Bytes.Utf8
import RouteCosts.Text.Split
import RouteCosts.Wire.Kind

/-!
# Pages of location names

A page carries names in a buffer of fixed capacity, each followed by a separator, with a count of
the bytes in use and a mark that says that more names remain. A name that does not fit sets the mark
and leaves the rest alone. A page that came over the wire may hold any count and any bytes, so the
count is capped where it is used (`used`), and the names are read leniently (`names`).
-/

namespace RouteCosts

/-- The byte after each name. -/
def nameSeparator : UInt8 := 10

/-- One page of names. -/
structure Page where
  /-- The count of bytes in use, as it stands on the wire. -/
  count : UInt64
  /-- The names, each with its separator, and unused bytes after them. -/
  buffer : List UInt8
  /-- More names remain. -/
  paginated : Bool
  length_buffer : buffer.length = pageCapacity
  deriving DecidableEq

namespace Page

/-- The page without names. -/
def empty : Page where
  count := 0
  buffer := List.replicate pageCapacity 0
  paginated := false
  length_buffer := List.length_replicate

/-- The bytes in use, never more than there are. -/
def used (page : Page) : Nat := min page.count.toNat pageCapacity

/-- The names of the page, in order. Empty ones are passed over. -/
def names (page : Page) : List String :=
  ((Text.split nameSeparator (page.buffer.take page.used)).filter fun piece => !piece.isEmpty).map
    Utf8.decodeLossy

/-- A name fits if it and its separator find room after the bytes in use. -/
def Fits (page : Page) (name : String) : Prop := page.used + Utf8.size name + 1 ≤ pageCapacity

instance (page : Page) (name : String) : Decidable (page.Fits name) :=
  inferInstanceAs (Decidable (_ ≤ _))

/-- The buffer with some bytes written over it from a position on. -/
def overwrite (buffer : List UInt8) (start : Nat) (bytes : List UInt8) : List UInt8 :=
  buffer.take start ++ bytes ++ buffer.drop (start + bytes.length)

theorem length_overwrite {buffer bytes : List UInt8} {start : Nat}
    (h : start + bytes.length ≤ buffer.length) :
    (overwrite buffer start bytes).length = buffer.length := by
  simp only [overwrite, List.length_append, List.length_take, List.length_drop]
  omega

/-- The page with a name added, or with the mark set if the name does not fit. -/
def add (page : Page) (name : String) : Page :=
  if h : page.Fits name then
    { count := UInt64.ofNat (page.used + Utf8.size name + 1)
      buffer := overwrite page.buffer page.used (Utf8.bytes name ++ [nameSeparator])
      paginated := page.paginated
      length_buffer := by
        have hb := page.length_buffer
        rw [length_overwrite, hb]
        simp only [Fits, Utf8.size] at h
        rw [hb, List.length_append, List.length_singleton]
        omega }
  else { page with paginated := true }

/-- The page with names added in order until one does not fit. -/
def addAll (page : Page) : List String → Page
  | [] => page
  | name :: rest => if page.Fits name then (page.add name).addAll rest else page.add name

/-- The bytes of a page: the count, the buffer, the mark. -/
def encode (page : Page) : List UInt8 :=
  BigEndian.encode 8 page.count.toNat ++ page.buffer ++ [if page.paginated then 1 else 0]

/-- The buffer of exactly the capacity at the front of some bytes. -/
def takeBuffer (bytes : List UInt8) : List UInt8 :=
  bytes.take pageCapacity ++ List.replicate (pageCapacity - bytes.length) 0

theorem length_takeBuffer (bytes : List UInt8) : (takeBuffer bytes).length = pageCapacity := by
  simp only [takeBuffer, List.length_append, List.length_take, List.length_replicate]
  omega

/-- The page that some bytes stand for. Any mark but 0 is set. -/
def decode (bytes : List UInt8) : Page where
  count := UInt64.ofNat (BigEndian.decode (bytes.take 8))
  buffer := takeBuffer (bytes.drop 8)
  paginated := (bytes.drop (8 + pageCapacity)).head?.getD 0 != 0
  length_buffer := length_takeBuffer _

theorem length_encode (page : Page) : page.encode.length = 8 + pageCapacity + 1 := by
  simp only [encode, List.length_append, BigEndian.length_encode, page.length_buffer,
    List.length_singleton]

theorem used_le (page : Page) : page.used ≤ pageCapacity := Nat.min_le_right _ _

theorem add_of_not_fits {page : Page} {name : String} (h : ¬ page.Fits name) :
    page.add name = { page with paginated := true } := by
  simp [add, h]

theorem paginated_add (page : Page) (name : String) :
    (page.add name).paginated = (page.paginated || !decide (page.Fits name)) := by
  unfold add
  split <;> simp_all

end Page

end RouteCosts
