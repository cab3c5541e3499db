import Mathlib.Data.List.Forall2
import Mathlib.Data.List.ReduceOption
import Mathlib.Tactic.MkIffOfInductiveProp
import RouteCosts.Listing.Routes
import RouteCosts.Proofs.Listing.Lines

/-!
# Rows of any number of fields

The fields of a line and what a line of routes says are defined here by concatenation alone
(`IsRow`, `Says`); the functions that read them find just these (`fields_eq_iff`,
`routesOfLine_eq_ok_iff`). The other way round, a row is written with any blanks around its fields,
on a line of its own among blank lines and comments (`WritesRow`, `IsIdle`), and such a text has the
rows that were written for its data lines (`rows_dataLines`).
-/

namespace RouteCosts

namespace Text

/-! ### Pieces put together -/

section Split
variable {α : Type} [DecidableEq α] {separator : α}

theorem split_intercalate {pieces : List (List α)} (hne : pieces ≠ [])
    (h : ∀ piece ∈ pieces, separator ∉ piece) :
    split separator ([separator].intercalate pieces) = pieces := by
  induction pieces with
  | nil => exact absurd rfl hne
  | cons first pieces ih =>
    have hfirst : separator ∉ first := h first List.mem_cons_self
    have hrest : ∀ piece ∈ pieces, separator ∉ piece := fun piece hp =>
      h piece (List.mem_cons_of_mem _ hp)
    cases pieces with
    | nil => simpa [List.intercalate] using split_of_not_mem hfirst
    | cons second pieces =>
      have hcons : [separator].intercalate (first :: second :: pieces) =
          first ++ separator :: [separator].intercalate (second :: pieces) := by
        simp [List.intercalate, List.intersperse]
      rw [hcons, split_append_cons, split_of_not_mem hfirst, ih (List.cons_ne_nil _ _) hrest]
      rfl

/-- What is put behind a text belongs to its last piece. -/
theorem exists_split_append {back : List α} (h : separator ∉ back) (text : List α) :
    ∃ front last, split separator text = front ++ [last] ∧
      split separator (text ++ back) = front ++ [last ++ back] := by
  induction text with
  | nil => exact ⟨[], [], rfl, split_of_not_mem h⟩
  | cons x text ih =>
    obtain ⟨front, last, htext, hback⟩ := ih
    by_cases hx : x = separator
    · refine ⟨[] :: front, last, ?_, ?_⟩
      · rw [split, if_pos hx, htext, List.cons_append]
      · rw [List.cons_append, split, if_pos hx, hback, List.cons_append]
    · have hfree : separator ∉ [x] := by
        simpa using Ne.symm hx
      cases front with
      | nil =>
        exact ⟨[], x :: last, split_append_of_not_mem hfree htext,
          split_append_of_not_mem hfree hback⟩
      | cons first front =>
        exact ⟨(x :: first) :: front, last, split_append_of_not_mem hfree htext,
          split_append_of_not_mem hfree hback⟩

end Split

/-! ### Blanks around a text -/

section Blanks
variable {left right : List Char} (hl : ∀ c ∈ left, isBlank c = true)
  (hr : ∀ c ∈ right, isBlank c = true)
include hl hr

theorem Trims.pad {text rest : List Char} (h : Trims text rest) :
    Trims (left ++ text ++ right) rest := by
  obtain ⟨⟨front, back, hf, hb, rfl⟩, hhead, hlast⟩ := h
  refine ⟨⟨left ++ front, back ++ right, fun c hc => ?_, fun c hc => ?_, ?_⟩, hhead, hlast⟩
  · exact (List.mem_append.1 hc).elim (hl c) (hf c)
  · exact (List.mem_append.1 hc).elim (hb c) (hr c)
  · simp only [List.append_assoc]

theorem trim_pad (text : List Char) : trim (left ++ text ++ right) = trim text :=
  trim_eq_iff.2 ((trims_trim text).pad hl hr)

omit hr in
/-- A text begins with its first character that is no blank. -/
theorem head?_trim {c : Char} (hc : isBlank c = false) (rest : List Char) :
    (trim (left ++ c :: rest)).head? = some c := by
  have hstart : trimStart (left ++ c :: rest) = c :: rest := by
    refine trimStart_append hl fun d hd => ?_
    obtain rfl : c = d := by simpa using hd
    exact hc
  obtain ⟨back, hback, hrest, -⟩ := exists_trimEnd (c :: rest)
  rw [trim, hstart]
  cases hend : trimEnd (c :: rest) with
  | nil =>
    rw [hend, List.nil_append] at hrest
    have hblank := hback c (hrest ▸ List.mem_cons_self)
    rw [hc] at hblank
    cases hblank
  | cons d more =>
    rw [hend] at hrest
    exact congrArg some (List.cons.inj hrest).1.symm

end Blanks

end Text

namespace Listing

/-! ### The fields of a line -/

/-- **The fields of a line**: what stands between its commas, without the blanks at its ends. -/
def IsRow (line : List Char) (row : List (List Char)) : Prop :=
  ∃ pieces : List (List Char), pieces ≠ [] ∧ (∀ piece ∈ pieces, ',' ∉ piece) ∧
    line = [','].intercalate pieces ∧ List.Forall₂ Text.Trims pieces row

theorem map_trim_eq_iff {pieces row : List (List Char)} :
    pieces.map Text.trim = row ↔ List.Forall₂ Text.Trims pieces row := by
  have htrims (piece field : List Char) : Text.Trims piece field ↔ Text.trim piece = field :=
    Text.trim_eq_iff.symm
  rw [← List.forall₂_eq_eq_eq, List.forall₂_map_left_iff]
  simp only [funext fun piece => funext fun field => propext (htrims piece field)]

theorem fields_eq_iff {line : List Char} {row : List (List Char)} :
    fields line = row ↔ IsRow line row := by
  constructor
  · intro h
    exact ⟨Text.split ',' line, Text.split_ne_nil _ _, fun piece hp => Text.not_mem_of_mem_split hp,
      (Text.intercalate_split ',' line).symm, map_trim_eq_iff.1 h⟩
  · rintro ⟨pieces, hne, hfree, rfl, hrow⟩
    rw [fields, Text.split_intercalate hne hfree]
    exact map_trim_eq_iff.2 hrow

/-- Blanks around a line are blanks around its fields. -/
theorem fields_pad {left right : List Char} (hl : ∀ c ∈ left, Text.isBlank c = true)
    (hr : ∀ c ∈ right, Text.isBlank c = true) (line : List Char) :
    fields (left ++ line ++ right) = fields line := by
  have hnone : ∀ c ∈ ([] : List Char), Text.isBlank c = true := nofun
  have hcomma : Text.isBlank ',' = false := by decide
  have hfront : fields (left ++ line) = fields line := by
    cases hsplit : Text.split ',' line with
    | nil => exact absurd hsplit (Text.split_ne_nil _ _)
    | cons piece pieces =>
      have htrim : Text.trim (left ++ piece) = Text.trim piece := by
        simpa using Text.trim_pad hl hnone piece
      rw [fields, fields, hsplit,
        Text.split_append_of_not_mem (Text.not_mem_of_forall hl hcomma) hsplit, List.map_cons,
        List.map_cons, htrim]
  obtain ⟨front, last, hsplit, hback⟩ :=
    Text.exists_split_append (Text.not_mem_of_forall hr hcomma) (left ++ line)
  have htrim : Text.trim (last ++ right) = Text.trim last := by
    simpa using Text.trim_pad hnone hr last
  rw [← hfront, fields, fields, hback, hsplit, List.map_append, List.map_append,
    List.map_singleton, List.map_singleton, htrim]

theorem fields_trim (line : List Char) : fields (Text.trim line) = fields line := by
  obtain ⟨⟨left, right, hl, hr, hline⟩, -, -⟩ := Text.trims_trim line
  have hpad := fields_pad hl hr (Text.trim line)
  rw [← hline] at hpad
  exact hpad.symm

/-! ### What a line of routes says -/

/-- A start and destinations from it. -/
abbrev Row := String × List String

/-- **What a line of routes says**: its first field is the start, which is not empty, and those of
its further fields that are not empty are the destinations. -/
def Says (line : List Char) (row : Row) : Prop :=
  ∃ further, IsRow line (row.1.toList :: further) ∧ row.1.toList ≠ [] ∧
    row.2.map String.toList = further.filter (· ≠ [])

/-- A line whose first field is empty. -/
def NoStart (line : List Char) : Prop := ∃ further, IsRow line ([] :: further)

theorem toList_comp_ofList : String.toList ∘ String.ofList = id :=
  funext fun _ => String.toList_ofList

theorem map_toList_eq_iff {names : List String} {texts : List (List Char)} :
    names.map String.toList = texts ↔ names = texts.map String.ofList := by
  constructor
  · rintro rfl
    simp
  · rintro rfl
    rw [List.map_map, toList_comp_ofList, List.map_id]

theorem routesOfLine_eq_ok_iff {line : List Char} {row : Row} :
    routesOfLine line = .ok row ↔ Says line row := by
  obtain ⟨start, destinations⟩ := row
  have hfilter (further : List (List Char)) :
      (further.filter fun field => !field.isEmpty) = further.filter (· ≠ []) :=
    List.filter_congr fun field _ => by cases field <;> simp
  constructor
  · intro h
    unfold routesOfLine at h
    split at h
    · cases h
    · cases h
    next first further hne hfields =>
      obtain ⟨rfl, rfl⟩ := Prod.mk.inj (Except.ok.inj h)
      refine ⟨further, ?_, ?_, ?_⟩
      · rw [String.toList_ofList]
        exact fields_eq_iff.1 hfields
      · rw [String.toList_ofList]
        exact hne
      · rw [← hfilter, map_toList_eq_iff]
  · rintro ⟨further, hrow, hne, hdestinations⟩
    rw [← hfilter, map_toList_eq_iff] at hdestinations
    unfold routesOfLine
    rw [fields_eq_iff.2 hrow]
    split
    next h => cases h
    next h => exact absurd (List.cons.inj h).1 hne
    next first more _ h =>
      obtain ⟨rfl, rfl⟩ := List.cons.inj h
      rw [String.ofList_toList, ← hdestinations]

theorem routesOfLine_eq_error_iff {line : List Char} {reason : LineError} :
    routesOfLine line = .error reason ↔ NoStart line ∧ reason = .emptyStart := by
  constructor
  · intro h
    unfold routesOfLine at h
    split at h
    next hfields => exact absurd hfields (fields_ne_nil line)
    next further hfields => exact ⟨⟨further, fields_eq_iff.1 hfields⟩, (Except.error.inj h).symm⟩
    · cases h
  · rintro ⟨⟨further, hrow⟩, rfl⟩
    unfold routesOfLine
    rw [fields_eq_iff.2 hrow]

theorem Says.unique {line : List Char} {row other : Row} (h : Says line row)
    (h' : Says line other) : row = other :=
  Except.ok.inj ((routesOfLine_eq_ok_iff.2 h).symm.trans (routesOfLine_eq_ok_iff.2 h'))

theorem Says.not_noStart {line : List Char} {row : Row} (h : Says line row) : ¬ NoStart line :=
  fun hn => nomatch (routesOfLine_eq_ok_iff.2 h).symm.trans
    (routesOfLine_eq_error_iff.2 ⟨hn, rfl⟩)

/-! ### Written lines -/

/-- **What a name in a file of routes may be.** -/
@[mk_iff]
structure FieldGood (name : List Char) : Prop where
  ne_nil : name ≠ []
  trimmed : Text.Trims name name
  no_comma : ',' ∉ name
  no_feed : '\n' ∉ name

/-- **What a row may be** to be written: good names, of which the start does not look like a
comment. -/
@[mk_iff]
structure RowGood (row : Row) : Prop where
  start : FieldGood row.1.toList
  no_comment : row.1.toList.head? ≠ some '#'
  destinations : ∀ name ∈ row.2, FieldGood name.toList

instance (text rest : List Char) : Decidable (Text.Trims text rest) :=
  decidable_of_iff _ Text.trim_eq_iff

instance (name : List Char) : Decidable (FieldGood name) :=
  decidable_of_iff' _ (fieldGood_iff name)

instance (row : Row) : Decidable (RowGood row) := decidable_of_iff' _ (rowGood_iff row)

/-- A name with blanks around it. -/
def Pads (piece : List Char) (name : String) : Prop :=
  ∃ left right, (∀ c ∈ left, Text.isBlank c = true) ∧ (∀ c ∈ right, Text.isBlank c = true) ∧
    piece = left ++ name.toList ++ right

/-- **A row as it is written**: the start and the destinations with commas between them, and any
blanks around them. -/
def WritesRow (raw : List Char) (row : Row) : Prop :=
  ∃ pieces, raw = [','].intercalate pieces ∧ List.Forall₂ Pads pieces (row.1 :: row.2)

/-- **A line without data**: blanks alone, or a comment with blanks before it. -/
def IsIdle (raw : List Char) : Prop :=
  (∀ c ∈ raw, Text.isBlank c = true) ∨
    ∃ blanks comment, raw = blanks ++ '#' :: comment ∧ ∀ c ∈ blanks, Text.isBlank c = true

/-- A line that writes a row, or none. -/
def WritesLine (raw : List Char) : Option Row → Prop
  | some row => WritesRow raw row
  | none => IsIdle raw

/-- **A text that writes rows**, each on a line of its own, with lines without data among them. -/
def Writes (text : List Char) (items : List (Option Row)) : Prop :=
  ∃ raws : List (List Char), raws ≠ [] ∧ (∀ raw ∈ raws, '\n' ∉ raw) ∧
    text = ['\n'].intercalate raws ∧ List.Forall₂ WritesLine raws items

theorem isData_trim_of_isIdle {raw : List Char} (h : IsIdle raw) :
    isData (Text.trim raw) = false := by
  rcases h with hall | ⟨blanks, comment, rfl, hblanks⟩
  · have htrim : Text.trim raw = [] :=
      Text.trim_eq_iff.2 ⟨⟨raw, [], hall, nofun, by simp⟩, nofun, nofun⟩
    rw [htrim]
    rfl
  · have hhead := Text.head?_trim hblanks (by decide : Text.isBlank '#' = false) comment
    refine Bool.eq_false_iff.2 fun hdata => ?_
    exact (isData_iff.1 hdata).2 hhead

theorem Pads.trims {piece : List Char} {name : String} (h : Pads piece name)
    (hg : FieldGood name.toList) : Text.Trims piece name.toList := by
  obtain ⟨left, right, hl, hr, rfl⟩ := h
  exact hg.trimmed.pad hl hr

theorem Pads.no_comma {piece : List Char} {name : String} (h : Pads piece name)
    (hg : FieldGood name.toList) : ',' ∉ piece := by
  obtain ⟨left, right, hl, hr, rfl⟩ := h
  have hcomma : Text.isBlank ',' = false := by decide
  simp only [List.mem_append, not_or]
  exact ⟨⟨Text.not_mem_of_forall hl hcomma, hg.no_comma⟩, Text.not_mem_of_forall hr hcomma⟩

/-- Names with blanks around them and commas between them are the fields. -/
theorem isRow_of_pads {pieces : List (List Char)} {names : List String} (hne : names ≠ [])
    (h : List.Forall₂ Pads pieces names) (hg : ∀ name ∈ names, FieldGood name.toList) :
    IsRow ([','].intercalate pieces) (names.map String.toList) := by
  have hpieces : (∀ piece ∈ pieces, ',' ∉ piece) ∧
      List.Forall₂ Text.Trims pieces (names.map String.toList) := by
    clear hne
    induction h with
    | nil => exact ⟨nofun, .nil⟩
    | @cons piece name pieces names hp h ih =>
      obtain ⟨hname, hnames⟩ := List.forall_mem_cons.1 hg
      obtain ⟨hfree, htrims⟩ := ih hnames
      exact ⟨List.forall_mem_cons.2 ⟨hp.no_comma hname, hfree⟩, .cons (hp.trims hname) htrims⟩
  refine ⟨pieces, ?_, hpieces.1, rfl, hpieces.2⟩
  rintro rfl
  cases h
  exact hne rfl

section Row
variable {raw : List Char} {row : Row} (h : WritesRow raw row) (hg : RowGood row)
include h hg

/-- A written row is a line of data. -/
theorem WritesRow.isData_trim : isData (Text.trim raw) = true := by
  obtain ⟨pieces, rfl, hpieces⟩ := h
  obtain ⟨piece, rest, ⟨left, right, hl, -, hpiece⟩, -, rfl⟩ :=
    List.forall₂_cons_right_iff.1 hpieces
  obtain ⟨c, name, hname⟩ := List.exists_cons_of_ne_nil hg.start.ne_nil
  have hc : Text.isBlank c = false := hg.start.trimmed.head c (by rw [hname]; rfl)
  obtain ⟨more, hmore⟩ : ∃ more, [','].intercalate (piece :: rest) = left ++ c :: more := by
    rw [hpiece, hname]
    cases rest with
    | nil => exact ⟨name ++ right, by simp [List.intercalate]⟩
    | cons second rest =>
      exact ⟨name ++ right ++ ',' :: [','].intercalate (second :: rest), by
        simp [List.intercalate, List.intersperse]⟩
  have hhead := Text.head?_trim hl hc more
  rw [hmore, isData_iff, hhead]
  refine ⟨fun hnil => ?_, fun hcomment => ?_⟩
  · rw [hnil] at hhead
    cases hhead
  · refine hg.no_comment ?_
    rw [hname]
    exact hcomment

/-- **A written row is what its line says.** -/
theorem WritesRow.read : Says (Text.trim raw) row := by
  obtain ⟨pieces, rfl, hpieces⟩ := h
  have hgood : ∀ name ∈ row.1 :: row.2, FieldGood name.toList :=
    List.forall_mem_cons.2 ⟨hg.start, hg.destinations⟩
  have hrow := isRow_of_pads (List.cons_ne_nil _ _) hpieces hgood
  rw [← fields_eq_iff, ← fields_trim, fields_eq_iff, List.map_cons] at hrow
  have hall : ∀ field ∈ row.2.map String.toList, decide (field ≠ []) = true := by
    intro field hf
    obtain ⟨name, hname, rfl⟩ := List.mem_map.1 hf
    exact decide_eq_true (hg.destinations name hname).ne_nil
  exact ⟨row.2.map String.toList, hrow, hg.start.ne_nil, (List.filter_eq_self.2 hall).symm⟩

end Row

/-- The rows of some lines, in order. -/
abbrev Rows (lines : List (Nat × List Char)) (rows : List Row) : Prop :=
  List.Forall₂ (fun line row => Says line.2 row) lines rows

/-- **A text that writes rows says these rows**, by induction on its lines. -/
theorem rows_dataLines {text : List Char} {items : List (Option Row)} (h : Writes text items)
    (hg : ∀ row ∈ items.reduceOption, RowGood row) :
    Rows (dataLines text) (items.reduceOption) := by
  obtain ⟨raws, hne, hfree, rfl, hraws⟩ := h
  rw [dataLines, numbered, Text.split_intercalate hne hfree]
  clear hne hfree
  generalize 1 = first
  induction hraws generalizing first with
  | nil => exact .nil
  | @cons raw item raws items hraw hraws ih =>
    rw [List.zipIdx_cons, List.map_cons, List.filter_cons]
    dsimp only
    cases item with
    | none =>
      rw [List.reduceOption_cons_of_none] at hg ⊢
      rw [if_neg (Bool.eq_false_iff.1 (isData_trim_of_isIdle hraw))]
      exact ih hg (first + 1)
    | some row =>
      rw [List.reduceOption_cons_of_some] at hg ⊢
      obtain ⟨hrow, hrows⟩ := List.forall_mem_cons.1 hg
      rw [if_pos (WritesRow.isData_trim hraw hrow)]
      exact .cons (WritesRow.read hraw hrow) (ih hrows (first + 1))

end Listing

end RouteCosts
