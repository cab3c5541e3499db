import RouteCosts.Listing.Locations
import RouteCosts.Proofs.Wire.Packing

/-!
# The names in a file of locations

The names that a text lists are all different, not empty, without line feed and shorter than a page
(`Listed`), and there is at least one (`listed_of_locations`). So a page always has room for the
next of them, and gives it back as it was.
-/

namespace RouteCosts

/-! ### Characters of a part -/

theorem Text.mem_of_mem_split {α : Type} [DecidableEq α] {separator x : α} {xs piece : List α}
    (hp : piece ∈ split separator xs) (hx : x ∈ piece) : x ∈ xs := by
  rw [← intercalate_split separator xs]
  generalize split separator xs = pieces at hp
  induction pieces with
  | nil => cases hp
  | cons first pieces ih =>
    cases pieces with
    | nil =>
      obtain rfl := List.mem_singleton.1 hp
      simpa [List.intercalate] using hx
    | cons second pieces =>
      have hi : [separator].intercalate (first :: second :: pieces) =
          first ++ separator :: [separator].intercalate (second :: pieces) := by
        simp [List.intercalate, List.intersperse]
      rw [hi]
      rcases List.mem_cons.1 hp with rfl | hp
      · exact List.mem_append_left _ hx
      · exact List.mem_append_right _ (List.mem_cons_of_mem _ (ih hp))

theorem Text.mem_of_mem_trim {c : Char} {text : List Char} (h : c ∈ trim text) : c ∈ text := by
  have start {text : List Char} (h : c ∈ trimStart text) : c ∈ text :=
    (List.dropWhile_suffix isBlank).subset h
  exact start (List.mem_reverse.1 (start (List.mem_reverse.1 h)))

namespace Listing

theorem no_feed_of_mem_dataLines {text : List Char} {line : Nat × List Char}
    (h : line ∈ dataLines text) : '\n' ∉ line.2 := by
  intro hc
  obtain ⟨⟨piece, number⟩, hp, rfl⟩ := List.mem_map.1 (List.mem_filter.1 h).1
  have hpiece := List.fst_mem_of_mem_zipIdx hp
  exact Text.not_mem_of_mem_split hpiece (Text.mem_of_mem_trim hc)

theorem mem_of_mem_fields {line field : List Char} {c : Char} (hf : field ∈ fields line)
    (hc : c ∈ field) : c ∈ line := by
  obtain ⟨piece, hp, rfl⟩ := List.mem_map.1 hf
  exact Text.mem_of_mem_split hp (Text.mem_of_mem_trim hc)

/-! ### Locations one by one -/

/-- **What is true of listed locations**: their names are all different, and good for a page. -/
structure Listed (locations : List Location) : Prop where
  isName : ∀ location ∈ locations, IsName location.name
  size_lt : ∀ location ∈ locations, Utf8.size location.name < pageCapacity
  nodup : (locations.map Location.name).Nodup

theorem listed_nil : Listed [] := ⟨nofun, nofun, List.nodup_nil⟩

/-- A listed name is good for a page. -/
theorem Listed.of_mem_names {locations : List Location} (hl : Listed locations) {name : String}
    (h : name ∈ locations.map Location.name) : IsName name ∧ Utf8.size name < pageCapacity := by
  obtain ⟨location, hlocation, rfl⟩ := List.mem_map.1 h
  exact ⟨hl.isName location hlocation, hl.size_lt location hlocation⟩

theorem locationOfLine_ok {earlier : List Location} {line : List Char} {location : Location}
    (h : locationOfLine earlier line = .ok location) :
    ∃ name ∈ fields line, location.name = String.ofList name ∧ name ≠ [] ∧
      Utf8.size location.name < pageCapacity ∧ location.name ∉ earlier.map Location.name := by
  unfold locationOfLine at h
  split at h
  case h_2 => cases h
  case h_1 name cost hfields =>
    dsimp only at h
    split at h
    · cases h
    next hne =>
    split at h
    · cases h
    next hsize =>
    split at h
    · cases h
    next hnew =>
    split at h
    case h_2 => cases h
    case h_1 value hcost =>
      obtain rfl := Except.ok.inj h
      refine ⟨name, hfields ▸ List.mem_cons_self, rfl, hne, Nat.lt_of_not_le hsize, fun hm => ?_⟩
      obtain ⟨other, ho, heq⟩ := List.mem_map.1 hm
      refine hnew (List.any_eq_true.2 ⟨other, ho, ?_⟩)
      exact beq_iff_eq.2 heq

theorem Listed.snoc {earlier : List Location} (hl : Listed earlier) {line : List Char}
    (hline : '\n' ∉ line) {location : Location} (h : locationOfLine earlier line = .ok location) :
    Listed (earlier ++ [location]) := by
  obtain ⟨name, hfield, hname, hne, hsize, hnew⟩ := locationOfLine_ok h
  have hlist : location.name.toList = name := by rw [hname, String.toList_ofList]
  refine ⟨fun other ho => ?_, fun other ho => ?_, ?_⟩
  · rcases List.mem_append.1 ho with ho | ho
    · exact hl.isName other ho
    · obtain rfl := List.mem_singleton.1 ho
      rw [← hlist] at hne hfield
      exact ⟨hne, fun hc => hline (mem_of_mem_fields hfield hc)⟩
  · rcases List.mem_append.1 ho with ho | ho
    · exact hl.size_lt other ho
    · obtain rfl := List.mem_singleton.1 ho
      exact hsize
  · rw [List.map_append]
    refine List.nodup_append.2 ⟨hl.nodup, (by simp), fun a ha b hb hab => ?_⟩
    obtain rfl := List.mem_singleton.1 hb
    exact hnew (hab ▸ ha)

/-- By induction on the lines: each of them adds a good location, or is refused. -/
theorem listed_of_lines {earlier locations : List Location} (hl : Listed earlier)
    {lines : List (Nat × List Char)} (hlines : ∀ line ∈ lines, '\n' ∉ line.2)
    (h : locationsOfLines earlier lines = .ok locations) :
    Listed locations ∧ locations.length = earlier.length + lines.length := by
  induction lines generalizing earlier with
  | nil =>
    obtain rfl := Except.ok.inj h
    exact ⟨hl, rfl⟩
  | cons line lines ih =>
    rw [locationsOfLines] at h
    split at h
    next location hlocation =>
      have hsnoc := hl.snoc (hlines line List.mem_cons_self) hlocation
      obtain ⟨hlisted, hlength⟩ :=
        ih hsnoc (fun other ho => hlines other (List.mem_cons_of_mem _ ho)) h
      refine ⟨hlisted, hlength.trans ?_⟩
      rw [List.length_append, List.length_singleton, List.length_cons]
      omega
    · cases h

/-- **The locations of a text that follows the grammar.** -/
theorem listed_of_locations {text : String} {places : List Location}
    (h : locations text = .ok places) : Listed places ∧ places ≠ [] := by
  unfold locations at h
  split at h
  · cases h
  next hne =>
    obtain ⟨hlisted, hlength⟩ := listed_of_lines listed_nil
      (fun line hline => no_feed_of_mem_dataLines hline) h
    refine ⟨hlisted, ?_⟩
    rintro rfl
    exact hne (List.length_eq_zero_iff.1 (by simpa using hlength.symm))

end Listing

end RouteCosts
