import RouteCosts.Proofs.Wire.Packing

/-!
# Adding names to any page

Names may be added to any page, whatever its count and its bytes are, and some of them may find no
room (`Page.call`, `Page.afterCalls`, `Page.accepted`). A call for which there is room appends the
name and its separator and leaves all other bytes alone (`Page.Extended`); a call for which there is
none sets the mark. What the page gives back grows by the pieces of the names for which there was
room, as long as its bytes in use end with a separator (`Page.Grown`). The main statement is
`Page.calls_exact`.
-/

namespace RouteCosts.Page

/-- **A call that adds a name**: whether there was room for it, and the page after it. -/
def call (page : Page) (name : String) : Bool × Page := (decide (page.Fits name), page.add name)

/-- The page after a call for each of some names, whatever comes of it. -/
def afterCalls (page : Page) (names : List String) : Page :=
  names.foldl (fun page name => (page.call name).2) page

/-- The names for which there is room when their turn comes. -/
def accepted (page : Page) : List String → List String
  | [] => []
  | name :: rest =>
    if (page.call name).1 then name :: (page.call name).2.accepted rest
    else (page.call name).2.accepted rest

/-- The page with its mark set, and no other change. -/
def marked (page : Page) : Page := { page with paginated := true }

/-! ### One call -/

/-- **A page with one name more.** The name and its separator stand after the bytes in use, inside
the buffer, and are in use now; all other bytes, and the mark, are as they were. -/
structure Extended (page : Page) (name : String) (after : Page) : Prop where
  inside : page.used + Utf8.size name + 1 ≤ page.buffer.length
  count : after.count.toNat = page.used + Utf8.size name + 1
  appended : (after.buffer.drop page.used).take (Utf8.size name + 1) =
    Utf8.bytes name ++ [nameSeparator]
  kept : ∀ index, index < page.used ∨ page.used + Utf8.size name + 1 ≤ index →
    after.buffer[index]? = page.buffer[index]?
  paginated : after.paginated = page.paginated

section Call
variable {page : Page} {name : String}

theorem call_fst_iff : (page.call name).1 = true ↔ page.used + Utf8.size name + 1 ≤ pageCapacity :=
  decide_eq_true_iff

theorem call_of_not_fits (h : (page.call name).1 = false) :
    (page.call name).2 = page.marked :=
  add_of_not_fits (of_decide_eq_false h)

theorem extended_call (h : (page.call name).1 = true) :
    page.Extended name (page.call name).2 := by
  have hf : page.Fits name := of_decide_eq_true h
  have hroom : page.used + Utf8.size name + 1 ≤ page.buffer.length := by
    rw [page.length_buffer]
    exact hf
  have hwritten : page.written.length = page.used := page.length_written
  have hadded : (Utf8.bytes name ++ [nameSeparator]).length = Utf8.size name + 1 := by
    rw [List.length_append]
    rfl
  refine ⟨hroom, count_add hf, ?_, fun index hi => ?_, ?_⟩
  · show ((page.add name).buffer.drop page.used).take (Utf8.size name + 1) = _
    rw [buffer_add hf, List.append_assoc, ← hwritten, List.drop_left, ← hadded, List.take_left]
  · show (page.add name).buffer[index]? = _
    rw [buffer_add hf]
    rcases hi with hi | hi
    · rw [List.append_assoc, List.getElem?_append_left (by omega), written,
        List.getElem?_take_of_lt hi]
    · have hlength : (page.written ++ (Utf8.bytes name ++ [nameSeparator])).length =
          page.used + Utf8.size name + 1 := by
        rw [List.length_append, hwritten, hadded, Nat.add_assoc]
      rw [List.getElem?_append_right (by omega), hlength, List.getElem?_drop,
        Nat.add_sub_cancel' hi]
  · show (page.add name).paginated = page.paginated
    rw [paginated_add, decide_eq_true hf]
    exact Bool.or_false _

theorem written_call (h : (page.call name).1 = true) :
    (page.call name).2.written = page.written ++ Utf8.bytes name ++ [nameSeparator] := by
  rw [List.append_assoc]
  exact written_add (of_decide_eq_true h)

/-- **The pieces of the name are read back** after what was read before. -/
theorem names_call (he : Ended page.written) (h : (page.call name).1 = true) :
    (page.call name).2.names = page.names ++ namePieces name := by
  have hnames : (page.call name).2.names = readNames (page.call name).2.written := rfl
  rw [hnames, written_call h, List.append_assoc, readNames_append he, readNames_bytes]
  rfl

end Call

/-! ### Any calls -/

/-- **What a page has taken in**: some names more are in use, the mark stays once it is set, and
these names are read back after what was read before. -/
structure Grown (page : Page) (names : List String) (after : Page) : Prop where
  used_eq : after.used = page.used + room names
  stays : page.paginated = true → after.paginated = true
  ended : Ended page.written → Ended after.written
  names_eq : Ended page.written → after.names = page.names ++ names.flatMap namePieces

theorem Grown.refl (page : Page) : page.Grown [] page where
  used_eq := rfl
  stays := id
  ended := id
  names_eq _ := (List.append_nil _).symm

theorem Grown.trans {page next after : Page} {names more : List String}
    (h : page.Grown names next) (hm : next.Grown more after) :
    page.Grown (names ++ more) after where
  used_eq := by rw [hm.used_eq, h.used_eq, room_append, Nat.add_assoc]
  stays hp := hm.stays (h.stays hp)
  ended he := hm.ended (h.ended he)
  names_eq he := by
    rw [hm.names_eq (h.ended he), h.names_eq he, List.flatMap_append, List.append_assoc]

theorem grown_call {page : Page} {name : String} (h : (page.call name).1 = true) :
    page.Grown [name] (page.call name).2 where
  used_eq := by
    rw [room_singleton, ← Nat.add_assoc]
    exact used_add (of_decide_eq_true h)
  stays hp := by rw [(extended_call h).paginated, hp]
  ended _ := Or.inr ⟨_, written_call h⟩
  names_eq he := by rw [names_call he h, List.flatMap_singleton]

theorem grown_call_of_not_fits {page : Page} {name : String} (h : (page.call name).1 = false) :
    page.Grown [] (page.call name).2 := by
  rw [call_of_not_fits h]
  exact ⟨rfl, fun _ => rfl, id, (Grown.refl page).names_eq⟩

/-- **Calls take in the names for which there is room**: by induction on the names. -/
theorem grown_afterCalls (page : Page) (names : List String) :
    page.Grown (page.accepted names) (page.afterCalls names) := by
  induction names generalizing page with
  | nil => exact Grown.refl page
  | cons name names ih =>
    rw [afterCalls, List.foldl_cons, accepted]
    cases h : (page.call name).1 with
    | true => exact (grown_call h).trans (ih _)
    | false => exact (grown_call_of_not_fits h).trans (ih _)

theorem accepted_subset (page : Page) (names : List String) : page.accepted names ⊆ names := by
  induction names generalizing page with
  | nil => exact List.Subset.refl _
  | cons name names ih =>
    rw [accepted]
    split
    · exact List.cons_subset_cons name (ih _)
    · exact List.subset_cons_of_subset name (ih _)

/-- **Adding names is safe and exact on any page.** After any names, whatever the page was, the bytes
in use are inside the buffer, and the mark is still set if it was. The next name finds room if and
only if it fits with its separator. Then it is appended and nothing else changes, and if the bytes in
use were none or ended with a separator, the page gives back what it gave back before and then the
pieces of the name, and the bytes in use end with a separator. Otherwise only the mark is set. A page
that was empty gives back the names for which there was room, and uses the room that they need. -/
theorem calls_exact (page : Page) (names : List String) :
    let held := page.afterCalls names
    held.used ≤ held.buffer.length ∧ held.used ≤ pageCapacity ∧
      (page.paginated = true → held.paginated = true) ∧
      (∀ name,
        ((held.call name).1 = true ↔ held.used + Utf8.size name + 1 ≤ pageCapacity) ∧
        ((held.call name).1 = true → held.Extended name (held.call name).2 ∧
          (Ended held.written → (held.call name).2.names = held.names ++ namePieces name ∧
            ∃ front, (held.call name).2.written = front ++ [nameSeparator])) ∧
        ((held.call name).1 = false → (held.call name).2 = held.marked)) ∧
      (page = empty → (∀ name ∈ names, IsName name) →
        held.names = page.accepted names ∧ held.used = room (page.accepted names)) := by
  intro held
  have hgrown : page.Grown (page.accepted names) held := grown_afterCalls page names
  refine ⟨held.used_le_length, held.used_le, hgrown.stays, fun name => ⟨call_fst_iff, fun hc =>
    ⟨extended_call hc, fun he => ⟨names_call he hc, _, written_call hc⟩⟩, call_of_not_fits⟩, ?_⟩
  rintro rfl hn
  have haccepted : ∀ name ∈ empty.accepted names, IsName name := fun name hm =>
    hn name (accepted_subset empty names hm)
  constructor
  · rw [hgrown.names_eq (Or.inl rfl), flatMap_namePieces haccepted]
    rfl
  · rw [hgrown.used_eq]
    exact Nat.zero_add _

/-- After a name of 95 bytes there is no room for one of seven, and just enough for one of three. -/
theorem calls_exact_shorter_after_refused :
    let long := String.ofList (List.replicate 95 'a')
    let held := empty.afterCalls [long, "Zürich"]
    held.names = [long] ∧ held.used = 96 ∧ held.paginated = true ∧
      (held.call "Ulm").1 = true ∧ (held.call "Ulm").2.names = [long, "Ulm"] ∧
      (held.call "Ulm").2.count = 100 := by
  intro long held
  have hn : ∀ name ∈ [long, "Zürich"], IsName name := by
    intro name hm
    constructor <;> decide +revert +kernel
  have haccepted : empty.accepted [long, "Zürich"] = [long] := by decide +kernel
  obtain ⟨-, -, -, hcall, hempty⟩ := calls_exact empty [long, "Zürich"]
  obtain ⟨hnames, hused⟩ := hempty rfl hn
  obtain ⟨hfits, hadded, -⟩ := hcall "Ulm"
  rw [haccepted] at hnames hused
  have hulm : (held.call "Ulm").1 = true := hfits.2 (by rw [hused]; decide +kernel)
  obtain ⟨hextended, hread⟩ := hadded hulm
  have hended : Ended held.written := (grown_afterCalls empty _).ended (Or.inl rfl)
  refine ⟨hnames, hused.trans ?_, ?_, hulm, ?_, ?_⟩
  · decide +kernel
  · decide +kernel
  · rw [(hread hended).1, hnames]
    decide +kernel
  · decide +kernel

end RouteCosts.Page
