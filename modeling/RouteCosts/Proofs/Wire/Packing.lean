import Mathlib.Algebra.GroupWithZero.Nat
import Mathlib.Order.Bounds.Defs
import RouteCosts.Proofs.Bytes.Utf8
import RouteCosts.Wire.Page

/-!
# Packing names on pages

What a page gives back is read from its bytes in use (`Page.readNames`), and bytes that end with the
separator are read on their own, whatever follows (`Page.readNames_append`). Adding a name that fits
writes it after the bytes in use (`Page.written_add`). So a page that was filled name by name
`Holds` these names, and adding names in order takes the longest run of them that fits
(`Holds.addAll`). Names without separator are read back from the page as they were
(`Holds.names_eq`). The page of the names from an index on is the longest that can be made of them
(`Page.LongestFrom`): it has as many of them as there is room for, it is marked if and only if names
are left, and it has one of them at least if they are short enough for a page.
-/

namespace RouteCosts

/-- A name that a page gives back as it was: it has a character, and no line feed. -/
structure IsName (name : String) : Prop where
  ne_nil : name.toList ≠ []
  no_feed : '\n' ∉ name.toList

/-! ### Reading names -/

/-- The pieces of a name between its line feeds, without the empty ones. -/
def namePieces (name : String) : List String :=
  ((Text.split '\n' name.toList).filter fun piece => !piece.isEmpty).map String.ofList

theorem IsName.namePieces_eq {name : String} (h : IsName name) : namePieces name = [name] := by
  have hne : name.toList.isEmpty = false := List.isEmpty_eq_false_iff.2 h.ne_nil
  simp only [namePieces, Text.split_of_not_mem h.no_feed, List.filter_cons, hne, Bool.not_false,
    if_true, List.filter_nil, List.map_cons, List.map_nil, String.ofList_toList]

theorem flatMap_namePieces {names : List String} (h : ∀ name ∈ names, IsName name) :
    names.flatMap namePieces = names := by
  induction names with
  | nil => rfl
  | cons name names ih =>
    rw [List.flatMap_cons, (h name List.mem_cons_self).namePieces_eq,
      ih fun other ho => h other (List.mem_cons_of_mem _ ho), List.singleton_append]

/-- Bytes are split at the separator where their characters are split at line feeds. -/
theorem split_encode (text : List Char) :
    Text.split nameSeparator (Utf8.encode text) = (Text.split '\n' text).map Utf8.encode := by
  induction text with
  | nil => rfl
  | cons c text ih =>
    have hcons : Utf8.encode (c :: text) = String.utf8EncodeChar c ++ Utf8.encode text :=
      List.flatMap_cons
    by_cases hc : c = '\n'
    · have hfeed : String.utf8EncodeChar '\n' = [nameSeparator] := by decide
      rw [hcons, hc, hfeed, List.singleton_append, Text.split, if_pos rfl, Text.split, if_pos rfl,
        ih, List.map_cons]
      rfl
    · obtain ⟨piece, pieces, hs, hsplit⟩ := Text.split_cons_of_ne hc text
      have hfree : nameSeparator ∉ String.utf8EncodeChar c := fun hm =>
        hc (Char.toNat_inj.1 (Utf8.mem_of_mem_encodeChar hm (by decide)))
      rw [hs] at ih
      rw [hcons, Text.split_append_of_not_mem hfree ih, hsplit]
      rfl

namespace Page

/-- The names that some bytes give. -/
def readNames (bytes : List UInt8) : List String :=
  ((Text.split nameSeparator bytes).filter fun piece => !piece.isEmpty).map Utf8.decodeLossy

theorem readNames_nil : readNames [] = [] := rfl

theorem readNames_append_cons (front rest : List UInt8) :
    readNames (front ++ nameSeparator :: rest) = readNames front ++ readNames rest := by
  rw [readNames, Text.split_append_cons, List.filter_append, List.map_append]
  rfl

/-- Bytes that are none or end with the separator. -/
def Ended (bytes : List UInt8) : Prop := bytes = [] ∨ ∃ front, bytes = front ++ [nameSeparator]

/-- **Ended bytes are read on their own**, whatever follows them. -/
theorem readNames_append {bytes : List UInt8} (h : Ended bytes) (rest : List UInt8) :
    readNames (bytes ++ rest) = readNames bytes ++ readNames rest := by
  rcases h with rfl | ⟨front, rfl⟩
  · rfl
  · have hone : readNames (front ++ [nameSeparator]) = readNames front := by
      rw [readNames_append_cons, readNames_nil, List.append_nil]
    rw [List.append_assoc, List.singleton_append, readNames_append_cons, hone]

/-- **The bytes of a name give its pieces.** -/
theorem readNames_bytes (name : String) :
    readNames (Utf8.bytes name ++ [nameSeparator]) = namePieces name := by
  have hempty : ((fun piece : List UInt8 => !piece.isEmpty) ∘ Utf8.encode) =
      fun piece : List Char => !piece.isEmpty := by
    funext piece
    cases piece with
    | nil => rfl
    | cons c piece =>
      show (!(Utf8.encode (c :: piece)).isEmpty) = true
      rw [List.isEmpty_eq_false_iff.2 (Utf8.encode_ne_nil (List.cons_ne_nil c piece))]
      rfl
  have hdecode (piece : List Char) : Utf8.decodeLossy (Utf8.encode piece) = String.ofList piece := by
    have := Utf8.decodeLossy_bytes (String.ofList piece)
    rwa [Utf8.bytes, String.toList_ofList] at this
  rw [readNames_append_cons, readNames_nil, List.append_nil, readNames, Utf8.bytes, split_encode,
    List.filter_map, hempty, List.map_map]
  exact List.map_congr_left fun piece _ => hdecode piece

end Page

/-! ### What a page holds -/

/-- The bytes of some names, each with its separator. -/
def packed (names : List String) : List UInt8 :=
  (names.map Utf8.bytes).flatMap (· ++ [nameSeparator])

theorem packed_append (names more : List String) :
    packed (names ++ more) = packed names ++ packed more := by
  rw [packed, List.map_append, List.flatMap_append]
  rfl

theorem packed_cons (name : String) (names : List String) :
    packed (name :: names) = Utf8.bytes name ++ [nameSeparator] ++ packed names :=
  List.flatMap_cons

theorem packed_singleton (name : String) : packed [name] = Utf8.bytes name ++ [nameSeparator] :=
  List.append_nil _

/-- The room that some names need on a page: for each its bytes and one for the separator. -/
def room (names : List String) : Nat := (names.map fun name => Utf8.size name + 1).sum

theorem room_cons (name : String) (names : List String) :
    room (name :: names) = Utf8.size name + 1 + room names := List.sum_cons

theorem room_append (names more : List String) : room (names ++ more) = room names + room more := by
  rw [room, List.map_append, List.sum_append]
  rfl

theorem room_le_of_prefix {names more : List String} (h : names <+: more) :
    room names ≤ room more := by
  obtain ⟨rest, rfl⟩ := h
  have := room_append names rest
  omega

theorem room_singleton (name : String) : room [name] = Utf8.size name + 1 := rfl

theorem length_packed (names : List String) : (packed names).length = room names := by
  induction names with
  | nil => rfl
  | cons name names ih =>
    rw [packed_cons, List.length_append, ih, List.length_append, room_cons]
    rfl

namespace Page

/-- The bytes in use. -/
def written (page : Page) : List UInt8 := page.buffer.take page.used

theorem used_le_length (page : Page) : page.used ≤ page.buffer.length := by
  rw [page.length_buffer]
  exact page.used_le

theorem length_written (page : Page) : page.written.length = page.used := by
  rw [written, List.length_take]
  exact Nat.min_eq_left page.used_le_length

section Fits
variable {page : Page} {name : String} (hf : page.Fits name)
include hf

theorem count_add : (page.add name).count.toNat = page.used + Utf8.size name + 1 := by
  unfold add
  rw [dif_pos hf]
  exact UInt64.toNat_ofNat_of_lt' (Nat.lt_of_le_of_lt hf (by decide))

theorem used_add : (page.add name).used = page.used + Utf8.size name + 1 := by
  rw [used, count_add hf]
  exact Nat.min_eq_left hf

theorem buffer_add : (page.add name).buffer =
    page.written ++ (Utf8.bytes name ++ [nameSeparator]) ++
      page.buffer.drop (page.used + Utf8.size name + 1) := by
  unfold add
  rw [dif_pos hf]
  show overwrite page.buffer page.used (Utf8.bytes name ++ [nameSeparator]) = _
  rw [overwrite, List.length_append]
  rfl

/-- **A name that fits is written after the bytes in use.** -/
theorem written_add :
    (page.add name).written = page.written ++ (Utf8.bytes name ++ [nameSeparator]) := by
  have hlength : (page.written ++ (Utf8.bytes name ++ [nameSeparator])).length =
      (page.add name).used := by
    rw [used_add hf, List.length_append, length_written, List.length_append]
    exact (Nat.add_assoc _ _ _).symm
  rw [written, buffer_add hf, ← hlength]
  exact List.take_left

end Fits

/-- **The page holds these names** and nothing else. -/
def Holds (page : Page) (names : List String) : Prop := page.written = packed names

theorem holds_empty : Holds empty [] := rfl

section Holds
variable {page : Page} {held : List String} (h : page.Holds held)
include h

theorem Holds.used_eq : page.used = room held := by
  rw [← page.length_written, h, length_packed]

theorem Holds.fits_iff (name : String) :
    page.Fits name ↔ room (held ++ [name]) ≤ pageCapacity := by
  rw [Fits, h.used_eq, room_append, room_singleton, Nat.add_assoc]

/-- **A name that fits is held next.** -/
theorem Holds.add {name : String} (hf : page.Fits name) :
    (page.add name).Holds (held ++ [name]) := by
  rw [Holds, written_add hf, h, packed_append, packed_singleton]

/-- **Names are taken in order until one does not fit**, and then the page is marked. -/
theorem Holds.addAll (names : List String) :
    ∃ taken rest, names = taken ++ rest ∧ (page.addAll names).Holds (held ++ taken) ∧
      (rest = [] → (page.addAll names).paginated = page.paginated) ∧
      ∀ name more, rest = name :: more → (page.addAll names).paginated = true ∧
        pageCapacity < room (held ++ taken ++ [name]) := by
  induction names generalizing page held with
  | nil => exact ⟨[], [], rfl, by rwa [List.append_nil], fun _ => rfl, nofun⟩
  | cons name names ih =>
    rw [Page.addAll]
    by_cases hf : page.Fits name
    · rw [if_pos hf]
      obtain ⟨taken, rest, rfl, hh, hu, hm⟩ := ih (h.add hf)
      rw [List.append_assoc] at hh
      refine ⟨name :: taken, rest, rfl, hh, fun hr => ?_, fun other more hr => ?_⟩
      · rw [hu hr, paginated_add, decide_eq_true hf]
        exact Bool.or_false _
      · rw [List.append_assoc held, List.singleton_append] at hm
        exact hm other more hr
    · rw [if_neg hf, add_of_not_fits hf]
      refine ⟨[], name :: names, rfl, ?_, nofun, fun other more hr => ⟨rfl, ?_⟩⟩
      · rw [List.append_nil]
        exact h
      · obtain ⟨rfl, rfl⟩ := List.cons.inj hr
        rw [List.append_nil]
        exact Nat.lt_of_not_le fun hle => hf ((h.fits_iff name).2 hle)

/-- **The names are read back.** -/
theorem Holds.names_eq (hn : ∀ name ∈ held, IsName name) : page.names = held := by
  have hread (names : List String) : readNames (packed names) = names.flatMap namePieces := by
    induction names with
    | nil => rfl
    | cons name names ih =>
      rw [packed_cons, readNames_append (Or.inr ⟨_, rfl⟩), readNames_bytes, ih, List.flatMap_cons]
  have hnames : page.names = readNames page.written := rfl
  rw [hnames, h, hread, flatMap_namePieces hn]

end Holds

/-- **A new page takes the longest run of names that fits.** It gives them back and uses the room
that they need; there is no room for the next name, if any remains, and then the page is marked; and
if every name has room on a page, there is one on it at least. -/
theorem addAll_empty {names : List String}
    (hgood : ∀ name ∈ names, IsName name ∧ Utf8.size name < pageCapacity) :
    ∃ taken rest, names = taken ++ rest ∧ (empty.addAll names).names = taken ∧
      (empty.addAll names).used = room taken ∧
      ((empty.addAll names).paginated = true ↔ rest ≠ []) ∧
      (∀ name more, rest = name :: more → pageCapacity < room (taken ++ [name])) ∧
      (names ≠ [] → taken ≠ []) := by
  obtain ⟨taken, rest, rfl, hh, hu, hm⟩ := holds_empty.addAll names
  rw [List.nil_append] at hh hm
  refine ⟨taken, rest, rfl, hh.names_eq fun name ht => (hgood name (List.mem_append_left _ ht)).1,
    hh.used_eq, ⟨fun hp hr => ?_, fun hr => ?_⟩, fun name more hr => (hm name more hr).2,
    fun hne ht => ?_⟩
  · rw [hu hr] at hp
    cases hp
  · obtain ⟨name, more, rfl⟩ := List.exists_cons_of_ne_nil hr
    exact (hm name more rfl).1
  · subst ht
    obtain ⟨name, more, rfl⟩ := List.exists_cons_of_ne_nil hne
    have hlt := (hm name more rfl).2
    have hsize := (hgood name List.mem_cons_self).2
    rw [List.nil_append, room_singleton] at hlt
    omega

/-- **A page is the longest from an index on**: no more of the names that follow find room on it. -/
structure LongestFrom (page : Page) (names : List String) (start taken : Nat) : Prop where
  longest : IsGreatest {count | start + count ≤ names.length ∧
    room ((names.drop start).take count) ≤ pageCapacity} taken
  names_eq : page.names = (names.drop start).take taken
  used_eq : page.used = room ((names.drop start).take taken)
  paginated_iff : page.paginated = true ↔ start + taken < names.length
  progress : start < names.length → 1 ≤ taken

theorem longestFrom_addAll {names : List String}
    (hgood : ∀ name ∈ names, IsName name ∧ Utf8.size name < pageCapacity) {start : Nat}
    (hstart : start ≤ names.length) :
    ∃ taken, (empty.addAll (names.drop start)).LongestFrom names start taken := by
  obtain ⟨taken, rest, hsplit, hnames, hused, hmark, hfull, hprogress⟩ :=
    addAll_empty fun name hm => hgood name (List.mem_of_mem_drop hm)
  have htake : (names.drop start).take taken.length = taken := by rw [hsplit, List.take_left]
  have hlength : start + taken.length + rest.length = names.length := by
    have := congrArg List.length hsplit
    rw [List.length_drop, List.length_append] at this
    omega
  refine ⟨taken.length, ⟨⟨?_, ?_⟩, fun count hcount => ?_⟩, ?_, ?_, ?_, fun hlt => ?_⟩
  · omega
  · rw [htake, ← hused]
    exact used_le _
  · obtain ⟨hbound, hroom⟩ := hcount
    -- the next name would be among these too
    refine Nat.le_of_not_lt fun hmore => ?_
    obtain ⟨name, more, hrest⟩ : ∃ name more, rest = name :: more :=
      List.exists_cons_of_length_pos (by omega)
    have hnext : (names.drop start).take (taken.length + 1) = taken ++ [name] := by
      rw [hsplit, hrest, List.take_length_add_append]
      rfl
    have hprefix : taken ++ [name] <+: (names.drop start).take count := by
      rw [← hnext]
      exact List.take_prefix_take_left (by omega)
    have := room_le_of_prefix hprefix
    have := hfull name more hrest
    omega
  · rw [htake, hnames]
  · rw [htake, hused]
  · rw [hmark, ← List.length_pos_iff]
    omega
  · have hne : names.drop start ≠ [] := by
      rw [Ne, List.drop_eq_nil_iff]
      omega
    exact List.length_pos_iff.2 (hprogress hne)

end Page

end RouteCosts
