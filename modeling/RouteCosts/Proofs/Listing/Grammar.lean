import Mathlib.Data.List.Forall2
import Mathlib.Data.Nat.Digits.Defs
import Mathlib.Tactic.Ring
import RouteCosts.Proofs.Listing.Lines
import RouteCosts.Proofs.Listing.Names

/-!
# The grammar of the file of locations

A numeral, a good line and the first line that is not good are defined here for any text, without
the functions that read the file (`Text.IsNumeral`, `IsGood`, `FirstBad`). The lines are judged one
after the other, each with those before it (`judged_of_lines`). So the file is read just as its
grammar says, and a name in it may be written on a line again (`NameGood`). The main statement is
`locations_grammar`.
-/

namespace RouteCosts

namespace Text

/-! ### Numerals -/

/-- A text of decimal digits, at least one, perhaps after a plus sign, and its value. -/
def IsNumeral (text : List Char) (value : Nat) : Prop :=
  ∃ digits, (text = digits ∨ text = '+' :: digits) ∧ digits ≠ [] ∧
    (∀ c ∈ digits, '0' ≤ c ∧ c ≤ '9') ∧
    value = Nat.ofDigits 10 (digits.reverse.map fun c => c.toNat - '0'.toNat)

theorem isDigit_iff {c : Char} : c.isDigit = true ↔ '0' ≤ c ∧ c ≤ '9' := by
  rw [Char.isDigit, Bool.and_eq_true, decide_eq_true_eq, decide_eq_true_eq]
  rfl

theorem digitsFrom_eq_some_iff {value result : Nat} {text : List Char} :
    digitsFrom value text = some result ↔ (∀ c ∈ text, '0' ≤ c ∧ c ≤ '9') ∧
      result = Nat.ofDigits 10 (text.reverse.map fun c => c.toNat - '0'.toNat) +
        10 ^ text.length * value := by
  induction text generalizing value with
  | nil => simp [digitsFrom, eq_comm]
  | cons c text ih =>
    rw [digitsFrom, List.forall_mem_cons]
    by_cases hc : c.isDigit = true
    · have hvalue : 10 ^ text.length * (value * 10 + (c.toNat - '0'.toNat)) =
          10 ^ text.length * (c.toNat - '0'.toNat) + 10 ^ (text.length + 1) * value := by
        ring
      rw [if_pos hc, ih, List.reverse_cons, List.map_append, Nat.ofDigits_append, List.length_map,
        List.length_reverse, List.map_singleton, Nat.ofDigits_singleton, List.length_cons, hvalue,
        ← Nat.add_assoc]
      exact and_congr_left fun _ => (and_iff_right (isDigit_iff.1 hc)).symm
    · rw [if_neg hc]
      have hn : ¬ ('0' ≤ c ∧ c ≤ '9') := fun h => hc (isDigit_iff.2 h)
      simp [hn]

theorem digits?_eq_some_iff {value : Nat} {text : List Char} :
    digits? text = some value ↔ text ≠ [] ∧ (∀ c ∈ text, '0' ≤ c ∧ c ≤ '9') ∧
      value = Nat.ofDigits 10 (text.reverse.map fun c => c.toNat - '0'.toNat) := by
  cases text with
  | nil => simp [digits?]
  | cons c text =>
    rw [digits?, digitsFrom_eq_some_iff, Nat.mul_zero, Nat.add_zero]
    · simp
    · simp

theorem unsigned?_eq_some_iff {value : Nat} {text : List Char} :
    unsigned? text = some value ↔ IsNumeral text value := by
  have hplus : ¬ ('0' ≤ '+' ∧ '+' ≤ '9') := by decide
  by_cases hsign : ∃ digits, text = '+' :: digits
  · obtain ⟨digits, rfl⟩ := hsign
    rw [unsigned?, digits?_eq_some_iff]
    refine ⟨fun h => ⟨digits, Or.inr rfl, h⟩, fun ⟨others, ht, hne, hall, hv⟩ => ?_⟩
    rcases ht with rfl | ht
    · exact absurd (hall '+' List.mem_cons_self) hplus
    · obtain rfl := List.tail_eq_of_cons_eq ht
      exact ⟨hne, hall, hv⟩
  · have hdigits : unsigned? text = digits? text := by
      rw [unsigned?]
      exact fun digits h => hsign ⟨digits, h⟩
    rw [hdigits, digits?_eq_some_iff]
    refine ⟨fun h => ⟨text, Or.inl rfl, h⟩, fun ⟨others, ht, h⟩ => ?_⟩
    rcases ht with rfl | ht
    · exact h
    · exact absurd ⟨others, ht⟩ hsign

end Text

namespace Listing

theorem cost?_eq_some_iff {field : List Char} {cost : UInt32} :
    cost? field = some cost ↔ Text.IsNumeral field cost.toNat := by
  rw [← Text.unsigned?_eq_some_iff, cost?]
  cases Text.unsigned? field with
  | none => exact ⟨nofun, nofun⟩
  | some n =>
    dsimp only
    rw [Option.some_inj]
    split
    · next hlt =>
      rw [Option.some_inj]
      refine ⟨fun h => ?_, fun h => ?_⟩
      · rw [← h, UInt32.toNat_ofNat_of_lt' hlt]
      · rw [h, UInt32.ofNat_toNat]
    · next hge => exact ⟨nofun, fun h => absurd (h ▸ cost.toNat_lt) hge⟩

/-! ### Good lines -/

/-- **What a good line says**: the name and the cost of a location from which nothing can be reached
yet. The name has from 1 to 99 bytes; the cost is a numeral whose value is that of 32 bits. -/
structure Describes (line : List Char) (location : Location) : Prop where
  entry : ∃ cost, IsEntry line location.name.toList cost ∧
    Text.IsNumeral cost location.cost.toNat
  size_pos : 1 ≤ Utf8.size location.name
  size_le : Utf8.size location.name ≤ 99
  destinations : location.destinations = []

theorem Describes.unique {line : List Char} {location other : Location}
    (h : Describes line location) (h' : Describes line other) : location = other := by
  obtain ⟨field, hentry, hcost⟩ := h.entry
  obtain ⟨field', hentry', hcost'⟩ := h'.entry
  obtain ⟨hname, rfl⟩ := hentry.unique hentry'
  rw [← cost?_eq_some_iff] at hcost'
  have hvalue : location.cost = other.cost :=
    Option.some.inj ((cost?_eq_some_iff.2 hcost).symm.trans hcost')
  obtain ⟨name, cost, destinations⟩ := location
  obtain ⟨name', cost', destinations'⟩ := other
  obtain rfl : name = name' := String.toList_inj.1 hname
  obtain rfl : cost = cost' := hvalue
  obtain rfl : destinations = [] := h.destinations
  obtain rfl : destinations' = [] := h'.destinations
  rfl

/-- A data line is good after others if it describes a location by a name that none of them has. -/
def IsGood (earlier : List (Nat × List Char)) (line : List Char) : Prop :=
  ∃ location, Describes line location ∧
    ∀ other ∈ earlier, ∀ name cost, IsEntry other.2 name cost → name ≠ location.name.toList

/-- Each of some data lines is good after those before it. -/
def AllGood (lines : List (Nat × List Char)) : Prop :=
  ∀ before line after, lines = before ++ line :: after → IsGood before line.2

/-- The first data line that is not good has this number. -/
def FirstBad (lines : List (Nat × List Char)) (number : Nat) : Prop :=
  ∃ before line after, lines = before ++ (number, line) :: after ∧ AllGood before ∧
    ¬ IsGood before line

theorem one_le_size_iff {name : String} : 1 ≤ Utf8.size name ↔ name.toList ≠ [] := by
  rw [Nat.one_le_iff_ne_zero, Utf8.size, Ne, List.length_eq_zero_iff]
  refine ⟨fun h he => h ?_, Utf8.encode_ne_nil⟩
  rw [Utf8.bytes, he]
  rfl

theorem any_name_iff {earlier : List Location} {name : String} :
    (earlier.any fun location => location.name == name) = true ↔
      name ∈ earlier.map Location.name := by
  rw [List.any_eq_true, List.mem_map]
  exact exists_congr fun location => and_congr_right fun _ => beq_iff_eq

/-- **A line gives a location** just when it describes it and the name is new. -/
theorem locationOfLine_eq_ok_iff {earlier : List Location} {line : List Char}
    {location : Location} :
    locationOfLine earlier line = .ok location ↔
      Describes line location ∧ location.name ∉ earlier.map Location.name := by
  constructor
  · intro h
    unfold locationOfLine at h
    split at h
    case h_2 => cases h
    case h_1 name field hfields =>
      dsimp only at h
      split at h
      · cases h
      next hne =>
      split at h
      · cases h
      next hsize =>
      split at h
      · cases h
      next hnew =>
      split at h
      case h_2 => cases h
      case h_1 value hcost =>
        obtain rfl := Except.ok.inj h
        have hlist : (String.ofList name).toList = name := String.toList_ofList
        refine ⟨⟨⟨field, ?_, cost?_eq_some_iff.1 hcost⟩, ?_, ?_, rfl⟩, fun hm => ?_⟩
        · rw [Location.isolated, hlist]
          exact fields_eq_pair_iff.1 hfields
        · exact one_le_size_iff.2 (hlist.symm ▸ hne)
        · exact Nat.le_of_lt_succ (Nat.lt_of_not_le hsize)
        · exact hnew (any_name_iff.2 hm)
  · rintro ⟨hdescribes, hnew⟩
    obtain ⟨field, hentry, hcost⟩ := hdescribes.entry
    have hne := one_le_size_iff.1 hdescribes.size_pos
    have hsize : ¬ pageCapacity ≤ Utf8.size location.name :=
      Nat.not_le_of_lt (Nat.lt_succ_of_le hdescribes.size_le)
    have hisolated : Location.isolated location.name location.cost = location := by
      rw [Location.isolated, ← hdescribes.destinations]
    unfold locationOfLine
    rw [fields_eq_pair_iff.2 hentry]
    dsimp only
    rw [if_neg hne, String.ofList_toList, if_neg hsize, if_neg fun h => hnew (any_name_iff.1 h),
      cost?_eq_some_iff.2 hcost]
    exact congrArg Except.ok hisolated

/-! ### One line after the other -/

theorem allGood_nil : AllGood [] := fun before line after h => by
  cases before <;> cases h

theorem AllGood.concat {lines : List (Nat × List Char)} (h : AllGood lines)
    {line : Nat × List Char} (hl : IsGood lines line.2) : AllGood (lines ++ [line]) := by
  intro before other after heq
  rcases List.eq_nil_or_concat after with rfl | ⟨front, last, rfl⟩
  · obtain ⟨rfl, hlast⟩ := List.append_inj' heq rfl
    obtain rfl := List.singleton_inj.1 hlast
    exact hl
  · rw [List.concat_eq_append, ← List.cons_append, ← List.append_assoc] at heq
    exact h before other front (List.append_inj' heq rfl).1

/-- One location for each of some lines, in order. -/
abbrev Given (lines : List (Nat × List Char)) (places : List Location) : Prop :=
  List.Forall₂ (fun line place => Describes line.2 place) lines places

theorem Describes.name_iff {line : List Char} {place : Location} (h : Describes line place)
    {name : String} : (∃ cost, IsEntry line name.toList cost) ↔ name = place.name := by
  obtain ⟨field, hentry, -⟩ := h.entry
  refine ⟨fun ⟨cost, h'⟩ => String.toList_inj.1 (h'.unique hentry).1, ?_⟩
  rintro rfl
  exact ⟨field, hentry⟩

theorem Given.mem_names_iff {lines : List (Nat × List Char)} {places : List Location}
    (h : Given lines places) {name : String} :
    name ∈ places.map Location.name ↔ ∃ line ∈ lines, ∃ cost, IsEntry line.2 name.toList cost := by
  induction h with
  | nil => simp
  | @cons line place lines places hd h ih =>
    rw [List.map_cons, List.mem_cons, ih, List.exists_mem_cons_iff, hd.name_iff]

/-- **What is made of data lines**: one location for each of them, if they are all good, or the
number of the first that is not. -/
inductive Judged (lines : List (Nat × List Char)) : Except ListingError (List Location) → Prop
  | accepted {places : List Location} (hg : AllGood lines) (hp : Given lines places) :
    Judged lines (.ok places)
  | blamed {number : Nat} {reason : LineError} (h : FirstBad lines number) :
    Judged lines (.error (.malformed number reason))

/-- **The lines are judged one after the other**, by induction on those to come. -/
theorem judged_of_lines {before : List (Nat × List Char)} {earlier : List Location}
    (hg : AllGood before) (hp : Given before earlier) (lines : List (Nat × List Char)) :
    Judged (before ++ lines) (locationsOfLines earlier lines) := by
  induction lines generalizing before earlier with
  | nil =>
    rw [List.append_nil]
    exact .accepted hg hp
  | cons line lines ih =>
    obtain ⟨number, line⟩ := line
    rw [locationsOfLines]
    cases hline : locationOfLine earlier line with
    | ok place =>
      obtain ⟨hd, hnew⟩ := locationOfLine_eq_ok_iff.1 hline
      rw [hp.mem_names_iff] at hnew
      have hgood : IsGood before line := ⟨place, hd, fun other ho name cost hentry heq =>
        hnew ⟨other, ho, cost, heq ▸ hentry⟩⟩
      rw [← List.singleton_append, ← List.append_assoc]
      exact ih (hg.concat hgood) (List.rel_append hp (.cons hd .nil))
    | error reason =>
      refine .blamed ⟨before, line, lines, rfl, hg, ?_⟩
      rintro ⟨place, hd, hnew⟩
      have hnone : place.name ∉ earlier.map Location.name := by
        rw [hp.mem_names_iff]
        rintro ⟨other, ho, cost, hentry⟩
        exact hnew other ho _ cost hentry rfl
      cases hline.symm.trans (locationOfLine_eq_ok_iff.2 ⟨hd, hnone⟩)

/-! ### The whole text -/

theorem FirstBad.unique {lines : List (Nat × List Char)} {number other : Nat}
    (h : FirstBad lines number) (h' : FirstBad lines other) : number = other := by
  obtain ⟨before, line, after, rfl, hg, hb⟩ := h
  obtain ⟨before', line', after', heq, hg', hb'⟩ := h'
  rcases append_cons_cases heq with ⟨-, hline⟩ | ⟨more, rfl⟩ | ⟨more, rfl⟩
  · exact (Prod.mk.inj hline).1
  · exact absurd (hg' before _ more rfl) hb
  · exact absurd (hg before' _ more rfl) hb'

theorem FirstBad.not_allGood {lines : List (Nat × List Char)} {number : Nat}
    (h : FirstBad lines number) : ¬ AllGood lines := by
  obtain ⟨before, line, after, heq, -, hbad⟩ := h
  exact fun hg => hbad (hg before _ after heq)

theorem Given.unique {lines : List (Nat × List Char)} {places others : List Location}
    (h : Given lines places) (h' : Given lines others) : places = others := by
  have hunique : Relator.RightUnique fun (line : Nat × List Char) place => Describes line.2 place :=
    fun _ _ _ => Describes.unique
  exact List.right_unique_forall₂' hunique h h'

theorem FirstBad.ne_nil {lines : List (Nat × List Char)} {number : Nat}
    (h : FirstBad lines number) : lines ≠ [] := by
  obtain ⟨before, line, after, rfl, -⟩ := h
  exact List.append_ne_nil_of_right_ne_nil _ (List.cons_ne_nil _ _)

section Judged
variable {lines : List (Nat × List Char)} {result : Except ListingError (List Location)}
  (h : Judged lines result)
include h

theorem Judged.ne_empty : result ≠ .error .empty := by
  cases h with
  | accepted hg hp => nofun
  | blamed hb => nofun

theorem Judged.malformed_iff (number : Nat) :
    (∃ reason, result = .error (.malformed number reason)) ↔ FirstBad lines number := by
  cases h with
  | accepted hg hp => exact ⟨fun ⟨_, he⟩ => (nomatch he), fun hb => absurd hg hb.not_allGood⟩
  | @blamed other reason hb =>
    refine ⟨fun ⟨_, he⟩ => ?_, fun hb' => ⟨reason, by rw [hb.unique hb']⟩⟩
    cases he
    exact hb

theorem Judged.ok_iff (places : List Location) :
    result = .ok places ↔ AllGood lines ∧ Given lines places := by
  cases h with
  | accepted hg hp =>
    exact ⟨fun he => ⟨hg, Except.ok.inj he ▸ hp⟩, fun hp' => by rw [hp.unique hp'.2]⟩
  | blamed hb => exact ⟨nofun, fun hg => absurd hg.1 hb.not_allGood⟩

end Judged

theorem judged_locations (text : String) :
    (dataLines text.toList = [] ∧ locations text = .error .empty) ∨
      (dataLines text.toList ≠ [] ∧ Judged (dataLines text.toList) (locations text)) := by
  have hjudged := judged_of_lines allGood_nil .nil (dataLines text.toList)
  unfold locations
  generalize dataLines text.toList = lines at hjudged ⊢
  cases lines with
  | nil => exact Or.inl ⟨rfl, rfl⟩
  | cons line lines => exact Or.inr ⟨List.cons_ne_nil _ _, hjudged⟩

/-! ### The names -/

/-- **What a name may be** in a file of locations. -/
structure NameGood (name : List Char) : Prop where
  ne_nil : name ≠ []
  trimmed : Text.Trims name name
  no_comma : ',' ∉ name
  no_feed : '\n' ∉ name
  no_comment : name.head? ≠ some '#'

theorem nameGood_of_entry {text line name cost : List Char} {number : Nat}
    (hl : IsDataLine text number line) (he : IsEntry line name cost) (hne : name ≠ []) :
    NameGood name := by
  obtain ⟨raw, ⟨-, -, -, hfeed, -⟩, ⟨⟨start, finish, -, -, hraw⟩, hhead, -⟩, -, hcomment⟩ := hl
  obtain ⟨left, right, hline, hcomma, -, ⟨⟨front, back, hf, -, hleft⟩, htop, hlast⟩, -⟩ := he
  obtain ⟨c, rest, rfl⟩ := List.exists_cons_of_ne_nil hne
  -- a blank before the name would be the first character of the line
  have hfront : front = [] := by
    rcases front with _ | ⟨d, front⟩
    · rfl
    · have hd : d ∈ line.head? := by
        rw [hline, hleft]
        rfl
      exact absurd (hf d List.mem_cons_self) (Bool.eq_false_iff.1 (hhead d hd))
  have hmem : ∀ d ∈ c :: rest, d ∈ left := fun d hd => by
    rw [hleft]
    exact List.mem_append_left _ (List.mem_append_right _ hd)
  refine ⟨hne, ⟨⟨[], [], nofun, nofun, by simp⟩, htop, hlast⟩, fun h => hcomma (hmem _ h),
    fun h => hfeed ?_, fun h => hcomment ?_⟩
  · rw [hraw, hline]
    exact List.mem_append_left _ (List.mem_append_right _ (List.mem_append_left _ (hmem _ h)))
  · rw [hline, hleft, hfront]
    exact h

theorem Given.exists_line {lines : List (Nat × List Char)} {places : List Location}
    (h : Given lines places) {place : Location} (hp : place ∈ places) :
    ∃ line ∈ lines, Describes line.2 place := by
  induction h with
  | nil => cases hp
  | @cons line first lines places hd h ih =>
    rcases List.mem_cons.1 hp with rfl | hp
    · exact ⟨line, List.mem_cons_self, hd⟩
    · obtain ⟨other, ho, hd'⟩ := ih hp
      exact ⟨other, List.mem_cons_of_mem _ ho, hd'⟩

/-- **The file of locations follows its grammar.** Without data lines it is empty; if one of them is
not good, the first such line is blamed; and otherwise there is one location for each of them, in
order. Then the names are all different, and good. -/
theorem locations_grammar (text : String) :
    ∃ lines, Enumerates text.toList lines ∧
      (locations text = .error .empty ↔ lines = []) ∧
      (∀ number, (∃ reason, locations text = .error (.malformed number reason)) ↔
        FirstBad lines number) ∧
      (∀ places, locations text = .ok places ↔
        lines ≠ [] ∧ AllGood lines ∧ Given lines places) ∧
      ∀ places, locations text = .ok places →
        (places.map Location.name).Nodup ∧
          ∀ place ∈ places, NameGood place.name.toList ∧ Utf8.size place.name < 100 := by
  have hlines := enumerates_dataLines text.toList
  refine ⟨dataLines text.toList, hlines, ?_⟩
  rcases judged_locations text with ⟨hnil, hempty⟩ | ⟨hne, hjudged⟩
  · rw [hempty, hnil]
    exact ⟨⟨fun _ => rfl, fun _ => rfl⟩,
      fun number => ⟨fun ⟨_, he⟩ => (nomatch he), fun hb => absurd rfl hb.ne_nil⟩,
      fun places => ⟨nofun, fun h => absurd rfl h.1⟩, nofun⟩
  · refine ⟨⟨fun h => absurd h hjudged.ne_empty, fun h => absurd h hne⟩, hjudged.malformed_iff,
      fun places => (hjudged.ok_iff places).trans (and_iff_right hne).symm, fun places h => ?_⟩
    obtain ⟨-, hgiven⟩ := (hjudged.ok_iff places).1 h
    obtain ⟨hlisted, -⟩ := listed_of_locations h
    refine ⟨hlisted.nodup, fun place hm => ?_⟩
    obtain ⟨⟨number, line⟩, hline, hd⟩ := hgiven.exists_line hm
    obtain ⟨cost, hentry, -⟩ := hd.entry
    exact ⟨nameGood_of_entry ((hlines.mem_iff _ _).1 hline) hentry
      (one_le_size_iff.1 hd.size_pos), Nat.lt_succ_of_le hd.size_le⟩

/-- A file with a comment, a blank line, blanks and a sign; and one whose third line is bad. -/
example : locations "# places\nLondon, 5\n\n  Glasgow ,+3\r\n" =
      .ok [.isolated "London" 5, .isolated "Glasgow" 3] ∧
    locations "London, 5\n\nLondon, 4" = .error (.malformed 3 (.duplicate "London")) := by
  decide

end Listing

end RouteCosts
