import RouteCosts.Listing.Lines
import RouteCosts.Proofs.Wire.Packing

/-!
# The data lines of a text

What a line of a text is, what is left of it when its blanks are taken off, and which lines carry
data, is said here without the functions that find them: in `IsLine`, `Trims` and `IsDataLine`. The
functions find just these (`getElem?_split_iff`, `trim_eq_iff`, `mem_dataLines_iff`), and the data
lines come in the order of their numbers (`enumerates_dataLines`).
-/

namespace RouteCosts

/-- Two places in a list are the same, or one of them comes before the other. -/
theorem append_cons_cases {α : Type} {before before' after after' : List α} {x x' : α}
    (h : before ++ x :: after = before' ++ x' :: after') :
    (before = before' ∧ x = x') ∨ (∃ more, before' = before ++ x :: more) ∨
      ∃ more, before = before' ++ x' :: more := by
  rcases List.append_eq_append_iff.1 h with ⟨_ | ⟨next, more⟩, hm, hrest⟩ |
      ⟨_ | ⟨next, more⟩, hm, hrest⟩
  · exact Or.inl ⟨by rw [hm, List.append_nil], (List.cons.inj hrest).1⟩
  · obtain rfl := (List.cons.inj hrest).1
    exact Or.inr (Or.inl ⟨more, hm⟩)
  · exact Or.inl ⟨by rw [hm, List.append_nil], (List.cons.inj hrest).1.symm⟩
  · obtain rfl := (List.cons.inj hrest).1
    exact Or.inr (Or.inr ⟨more, hm⟩)

namespace Text

/-! ### Blanks at the ends -/

/-- What is left of a text when the blanks at its ends are taken off, all of them. -/
structure Trims (text rest : List Char) : Prop where
  exists_blanks : ∃ left right, (∀ c ∈ left, isBlank c = true) ∧ (∀ c ∈ right, isBlank c = true) ∧
    text = left ++ rest ++ right
  head : ∀ c ∈ rest.head?, isBlank c = false
  last : ∀ c ∈ rest.getLast?, isBlank c = false

theorem trimStart_append {left : List Char} (hl : ∀ c ∈ left, isBlank c = true) {rest : List Char}
    (hr : ∀ c ∈ rest.head?, isBlank c = false) : trimStart (left ++ rest) = rest := by
  rw [trimStart, List.dropWhile_append_of_pos hl]
  cases rest with
  | nil => rfl
  | cons c rest => exact List.dropWhile_cons_of_neg (Bool.eq_false_iff.1 (hr c rfl))

theorem exists_trimStart (text : List Char) :
    ∃ left, (∀ c ∈ left, isBlank c = true) ∧ text = left ++ trimStart text ∧
      ∀ c ∈ (trimStart text).head?, isBlank c = false := by
  induction text with
  | nil => exact ⟨[], nofun, rfl, nofun⟩
  | cons c text ih =>
    cases hc : isBlank c with
    | true =>
      have hstart : trimStart (c :: text) = trimStart text := List.dropWhile_cons_of_pos hc
      obtain ⟨left, hl, ht, hh⟩ := ih
      rw [hstart]
      exact ⟨c :: left, List.forall_mem_cons.2 ⟨hc, hl⟩, congrArg (c :: ·) ht, hh⟩
    | false =>
      have hstart : trimStart (c :: text) = c :: text :=
        List.dropWhile_cons_of_neg (Bool.eq_false_iff.1 hc)
      rw [hstart]
      exact ⟨[], nofun, rfl, fun d hd => Option.some.inj hd ▸ hc⟩

/-- Trimming at the end is trimming at the start of the text read backwards. -/
theorem exists_trimEnd (text : List Char) :
    ∃ right, (∀ c ∈ right, isBlank c = true) ∧ text = trimEnd text ++ right ∧
      ∀ c ∈ (trimEnd text).getLast?, isBlank c = false := by
  obtain ⟨left, hl, ht, hh⟩ := exists_trimStart text.reverse
  refine ⟨left.reverse, fun c hc => hl c (List.mem_reverse.1 hc), ?_, fun c hc => ?_⟩
  · rw [trimEnd, ← List.reverse_append, ← ht, List.reverse_reverse]
  · rw [trimEnd, List.getLast?_reverse] at hc
    exact hh c hc

theorem trims_trim (text : List Char) : Trims text (trim text) := by
  obtain ⟨left, hl, ht, hh⟩ := exists_trimStart text
  obtain ⟨right, hr, hs, hg⟩ := exists_trimEnd (trimStart text)
  refine ⟨⟨left, right, hl, hr, ?_⟩, fun c hc => hh c ?_, hg⟩
  · rw [List.append_assoc, trim, ← hs, ← ht]
  · rw [trim] at hc
    rw [hs, List.head?_append, Option.mem_def.1 hc]
    rfl

/-- **Trimming takes off the blanks at the ends**, and nothing else. -/
theorem trim_eq_iff {text rest : List Char} : trim text = rest ↔ Trims text rest := by
  refine ⟨fun h => h ▸ trims_trim text, fun ⟨⟨left, right, hl, hr, ht⟩, hh, hg⟩ => ?_⟩
  cases rest with
  | nil =>
    have hall : ∀ c ∈ left ++ right, isBlank c = true := fun c hc =>
      (List.mem_append.1 hc).elim (hl c) (hr c)
    have hstart : trimStart (left ++ right ++ []) = [] := trimStart_append hall nofun
    rw [List.append_nil] at ht hstart
    rw [trim, ht, hstart]
    rfl
  | cons c rest =>
    have hstart : trimStart text = c :: rest ++ right := by
      rw [ht, List.append_assoc]
      exact trimStart_append hl fun d hd => hh d hd
    have hend : trimStart (c :: rest ++ right).reverse = (c :: rest).reverse := by
      rw [List.reverse_append]
      refine trimStart_append (fun d hd => hr d (List.mem_reverse.1 hd)) fun d hd => hg d ?_
      rwa [List.head?_reverse] at hd
    rw [trim, hstart, trimEnd, hend, List.reverse_reverse]

/-! ### Pieces between separators -/

section Split
variable {α : Type} [DecidableEq α] {separator : α}

theorem length_split (text : List α) :
    (split separator text).length = text.count separator + 1 := by
  induction text with
  | nil => rfl
  | cons x rest ih =>
    by_cases hx : x = separator
    · subst hx
      rw [split, if_pos rfl, List.length_cons, ih, List.count_cons_self]
    · obtain ⟨piece, pieces, hs, hc⟩ := split_cons_of_ne hx rest
      rw [hs] at ih
      rw [hc, List.count_cons_of_ne hx]
      exact ih

/-- A piece stands between separators or the ends of the text, by induction on the text. -/
theorem exists_of_getElem?_split {text piece : List α} {place : Nat}
    (h : (split separator text)[place]? = some piece) :
    ∃ before after, text = before ++ piece ++ after ∧
      (before = [] ∨ before.getLast? = some separator) ∧
      (after = [] ∨ after.head? = some separator) ∧ before.count separator = place := by
  induction text generalizing place piece with
  | nil =>
    obtain ⟨rfl, rfl⟩ : place = 0 ∧ piece = [] := by
      cases place with
      | zero => exact ⟨rfl, (Option.some.inj h).symm⟩
      | succ place => cases h
    exact ⟨[], [], rfl, Or.inl rfl, Or.inl rfl, rfl⟩
  | cons x rest ih =>
    by_cases hx : x = separator
    · subst hx
      rw [split, if_pos rfl] at h
      cases place with
      | zero =>
        obtain rfl := Option.some.inj h
        exact ⟨[], x :: rest, rfl, Or.inl rfl, Or.inr rfl, rfl⟩
      | succ place =>
        obtain ⟨before, after, rfl, hb, ha, hc⟩ := ih h
        refine ⟨x :: before, after, rfl, Or.inr ?_, ha, ?_⟩
        · rcases hb with rfl | hb
          · rfl
          · rw [List.getLast?_cons, hb, Option.getD_some]
        · rw [List.count_cons_self, hc]
    · obtain ⟨first, pieces, hs, hsplit⟩ := split_cons_of_ne hx rest
      rw [hsplit] at h
      rw [hs] at ih
      cases place with
      | zero =>
        obtain rfl := Option.some.inj h
        have hfirst : (first :: pieces)[0]? = some first := rfl
        obtain ⟨before, after, rfl, hb, ha, hc⟩ := ih hfirst
        obtain rfl : before = [] := hb.resolve_right fun hl =>
          List.count_eq_zero.1 hc (List.mem_of_getLast? hl)
        exact ⟨[], after, rfl, Or.inl rfl, ha, rfl⟩
      | succ place =>
        have hpiece : (first :: pieces)[place + 1]? = some piece := h
        obtain ⟨before, after, rfl, hb, ha, hc⟩ := ih hpiece
        have hl : before.getLast? = some separator := hb.resolve_left fun hn => by
          rw [hn, List.count_nil] at hc
          cases hc
        refine ⟨x :: before, after, rfl, Or.inr ?_, ha, ?_⟩
        · rw [List.getLast?_cons, hl, Option.getD_some]
        · rw [List.count_cons_of_ne hx, hc]

/-- **The pieces by their places**: a piece stands between separators or the ends of the text, and
there are as many separators before it as its place says. -/
theorem getElem?_split_iff {text piece : List α} {place : Nat} :
    (split separator text)[place]? = some piece ↔
      ∃ before after, text = before ++ piece ++ after ∧ separator ∉ piece ∧
        (before = [] ∨ before.getLast? = some separator) ∧
        (after = [] ∨ after.head? = some separator) ∧ before.count separator = place := by
  constructor
  · intro h
    obtain ⟨before, after, ht, hb, ha, hc⟩ := exists_of_getElem?_split h
    exact ⟨before, after, ht, not_mem_of_mem_split (List.mem_of_getElem? h), hb, ha, hc⟩
  · rintro ⟨before, after, rfl, hp, hb, ha, rfl⟩
    have hfirst : ∃ pieces, split separator (piece ++ after) = piece :: pieces := by
      rcases ha with rfl | ha
      · rw [List.append_nil]
        exact ⟨[], split_of_not_mem hp⟩
      · obtain ⟨rest, rfl⟩ := List.head?_eq_some_iff.1 ha
        rw [split_append_cons, split_of_not_mem hp]
        exact ⟨split separator rest, rfl⟩
    obtain ⟨pieces, hpieces⟩ := hfirst
    rw [List.append_assoc]
    rcases hb with rfl | hb
    · rw [List.nil_append, hpieces]
      rfl
    · obtain ⟨front, rfl⟩ := List.getLast?_eq_some_iff.1 hb
      have hcount : (front ++ [separator]).count separator = (split separator front).length := by
        rw [length_split, List.count_append, List.count_singleton_self]
      rw [List.append_assoc, List.singleton_append, split_append_cons, hcount, hpieces,
        List.getElem?_append_right (Nat.le_refl _), Nat.sub_self]
      rfl

end Split

end Text

namespace Listing

/-! ### Data lines -/

/-- A line of a text and its number: it stands between line feeds or the ends of the text, and the
line feeds before it are counted from 1. -/
def IsLine (text : List Char) (number : Nat) (line : List Char) : Prop :=
  ∃ before after, text = before ++ line ++ after ∧ '\n' ∉ line ∧
    (before = [] ∨ before.getLast? = some '\n') ∧ (after = [] ∨ after.head? = some '\n') ∧
    number = before.count '\n' + 1

/-- What a data line holds, and its number: a line without its blanks, if it is then neither empty
nor a comment. -/
def IsDataLine (text : List Char) (number : Nat) (line : List Char) : Prop :=
  ∃ raw, IsLine text number raw ∧ Text.Trims raw line ∧ line ≠ [] ∧ line.head? ≠ some '#'

/-- **The data lines of a text**, in their order. -/
structure Enumerates (text : List Char) (lines : List (Nat × List Char)) : Prop where
  ordered : lines.Pairwise (·.1 < ·.1)
  mem_iff : ∀ number line, (number, line) ∈ lines ↔ IsDataLine text number line

theorem isLine_iff {text line : List Char} {number : Nat} :
    IsLine text number line ↔ (line, number) ∈ (Text.split '\n' text).zipIdx 1 := by
  rw [List.mk_mem_zipIdx_iff_le_and_getElem?_sub, Text.getElem?_split_iff]
  constructor
  · rintro ⟨before, after, ht, hl, hb, ha, rfl⟩
    exact ⟨Nat.le_add_left _ _, before, after, ht, hl, hb, ha, (Nat.add_sub_cancel _ _).symm⟩
  · rintro ⟨hle, before, after, ht, hl, hb, ha, hc⟩
    exact ⟨before, after, ht, hl, hb, ha, by rw [hc, Nat.sub_add_cancel hle]⟩

theorem isData_iff {line : List Char} : isData line = true ↔ line ≠ [] ∧ line.head? ≠ some '#' := by
  cases line with
  | nil => simp [isData]
  | cons c rest => simp [isData]

theorem mem_dataLines_iff {text line : List Char} {number : Nat} :
    (number, line) ∈ dataLines text ↔ IsDataLine text number line := by
  rw [dataLines, List.mem_filter, isData_iff, numbered, List.mem_map]
  constructor
  · rintro ⟨⟨⟨raw, count⟩, hm, heq⟩, hdata⟩
    obtain ⟨rfl, htrim⟩ := Prod.mk.inj heq
    exact ⟨raw, isLine_iff.2 hm, Text.trim_eq_iff.1 htrim, hdata⟩
  · rintro ⟨raw, hline, htrim, hdata⟩
    exact ⟨⟨(raw, number), isLine_iff.1 hline,
      Prod.ext rfl (Text.trim_eq_iff.2 htrim)⟩, hdata⟩

/-- **The lines found are the data lines**, in their order. -/
theorem enumerates_dataLines (text : List Char) : Enumerates text (dataLines text) where
  ordered := by
    have hnumbers : (((Text.split '\n' text).zipIdx 1).map Prod.snd).Pairwise (· < ·) := by
      rw [List.zipIdx_map_snd]
      exact List.pairwise_lt_range' 1
    refine List.Pairwise.filter _ ?_
    rw [numbered, List.pairwise_map]
    exact List.pairwise_map.1 hnumbers
  mem_iff _ _ := mem_dataLines_iff

/-! ### Fields -/

/-- A line with exactly one comma, and its two fields. -/
def IsEntry (line name cost : List Char) : Prop :=
  ∃ left right, line = left ++ ',' :: right ∧ ',' ∉ left ∧ ',' ∉ right ∧
    Text.Trims left name ∧ Text.Trims right cost

theorem fields_eq_pair_iff {line name cost : List Char} :
    fields line = [name, cost] ↔ IsEntry line name cost := by
  constructor
  · intro h
    obtain ⟨left, rest, hsplit, hleft, hrest⟩ := List.map_eq_cons_iff.1 h
    obtain ⟨right, last, rfl, hright, hlast⟩ := List.map_eq_cons_iff.1 hrest
    obtain rfl := List.map_eq_nil_iff.1 hlast
    have hpieces : ∀ piece ∈ [left, right], ',' ∉ piece := fun piece hp =>
      Text.not_mem_of_mem_split (hsplit ▸ hp)
    refine ⟨left, right, ?_, hpieces left (by simp), hpieces right (by simp),
      Text.trim_eq_iff.1 hleft, Text.trim_eq_iff.1 hright⟩
    rw [← Text.intercalate_split ',' line, hsplit]
    simp [List.intercalate]
  · rintro ⟨left, right, rfl, hl, hr, hname, hcost⟩
    rw [fields, Text.split_append_cons, Text.split_of_not_mem hl, Text.split_of_not_mem hr]
    rw [← Text.trim_eq_iff] at hname hcost
    rw [← hname, ← hcost]
    rfl

theorem IsEntry.unique {line name cost name' cost' : List Char} (h : IsEntry line name cost)
    (h' : IsEntry line name' cost') : name = name' ∧ cost = cost' := by
  have hfields := (fields_eq_pair_iff.2 h).symm.trans (fields_eq_pair_iff.2 h')
  obtain ⟨hname, hrest⟩ := List.cons.inj hfields
  exact ⟨hname, (List.cons.inj hrest).1⟩

end Listing

end RouteCosts
