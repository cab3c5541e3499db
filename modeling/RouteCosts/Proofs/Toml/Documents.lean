import RouteCosts.Proofs.Toml.Reading
import RouteCosts.Toml.Writer

/-!
# Documents read back

A document of sections can be written unless a number in it is too great
(`documentText?_eq_none_iff`). What is written says the header and the pairs of each section in turn
(`says_document`). If all names are bare and none comes twice, these statements make a document in
which every section is a table (`ofStatements_sections`). So the document is read back as it was
written: `document?_documentText?`.
-/

namespace RouteCosts.Toml

/-! ### What can be written -/

theorem Scalar.written?_eq_none_iff {scalar : Scalar} :
    scalar.written? = none ↔ ∃ n, scalar = .integer n ∧ maxInteger < n := by
  constructor
  · intro h
    cases scalar with
    | text s => cases h
    | boolean b => cases h
    | integer n =>
      rw [written?] at h
      split at h
      · cases h
      · next hn => exact ⟨n, rfl, Nat.not_le.1 hn⟩
  · rintro ⟨n, rfl, hlt⟩
    exact if_neg (Nat.not_le.2 hlt)

theorem pairsText?_eq_none_iff {pairs : List (String × Scalar)} :
    pairsText? pairs = none ↔ ∃ pair ∈ pairs, pair.2.written? = none := by
  induction pairs with
  | nil => exact ⟨nofun, fun ⟨_, h, _⟩ => nomatch h⟩
  | cons pair rest ih =>
    rw [pairsText?, List.exists_mem_cons_iff, ← ih]
    cases pair.2.written? <;> cases pairsText? rest <;> simp

theorem mapM_sectionText?_eq_none_iff {parts : List Section} :
    parts.mapM sectionText? = none ↔ ∃ part ∈ parts, sectionText? part = none := by
  induction parts with
  | nil => exact ⟨nofun, fun ⟨_, h, _⟩ => nomatch h⟩
  | cons part rest ih =>
    rw [List.mapM_cons, List.exists_mem_cons_iff, ← ih]
    cases sectionText? part <;> cases rest.mapM sectionText? <;> simp

theorem mapM_sectionText?_cons {part : Section} {rest : List Section} {texts : List String}
    (h : (part :: rest).mapM sectionText? = some texts) :
    ∃ first more, sectionText? part = some first ∧ rest.mapM sectionText? = some more ∧
      texts = first :: more := by
  simp only [List.mapM_cons, Option.bind_eq_bind, Option.bind_eq_some_iff, Option.pure_def,
    Option.some.injEq] at h
  obtain ⟨first, hfirst, more, hmore, rfl⟩ := h
  exact ⟨first, more, hfirst, hmore, rfl⟩

/-- **A document cannot be written** exactly if one of its numbers is too great. -/
theorem documentText?_eq_none_iff {parts : List Section} :
    documentText? parts = none ↔
      ∃ part ∈ parts, ∃ pair ∈ part.2, ∃ n, pair.2 = .integer n ∧ maxInteger < n := by
  rw [documentText?, Option.map_eq_none_iff, mapM_sectionText?_eq_none_iff]
  simp only [sectionText?, Option.map_eq_none_iff, pairsText?_eq_none_iff,
    Scalar.written?_eq_none_iff]

/-! ### What is said by sections -/

/-- The entries of the table that a section makes. -/
def Section.entries (part : Section) : Entries :=
  part.2.map fun (key, scalar) => (key, scalar.value)

/-- The statements of a section: its header and its pairs. -/
def Section.statements (part : Section) : List Statement :=
  .table [part.1] :: part.entries.map fun (key, value) => .pair [key] value

/-- **A section is well named**: all names are bare, and no key comes twice. -/
structure Section.WellNamed (part : Section) : Prop where
  name : IsBare part.1
  keys : ∀ key ∈ part.2.map Prod.fst, IsBare key
  nodup : (part.2.map Prod.fst).Nodup

theorem says_pairs {pairs : List (String × Scalar)} {text : String}
    (hk : ∀ key ∈ pairs.map Prod.fst, IsBare key) (h : pairsText? pairs = some text) :
    Says text.toList (pairs.map fun (key, scalar) => .pair [key] scalar.value) := by
  induction pairs generalizing text with
  | nil =>
    obtain rfl := Option.some.inj h
    exact says_nil
  | cons pair rest ih =>
    obtain ⟨key, scalar⟩ := pair
    rw [List.map_cons, List.forall_mem_cons] at hk
    rw [pairsText?] at h
    split at h
    · next written more hwritten hmore =>
      obtain rfl := Option.some.inj h
      have hsaid := (says_pair hk.1 (Scalar.writes hwritten)).append (ih hk.2 hmore)
      simpa using hsaid
    · cases h

theorem says_section {part : Section} {text : String} (hp : part.WellNamed)
    (h : sectionText? part = some text) : Says text.toList part.statements := by
  obtain ⟨pairs, hpairs, rfl⟩ := Option.map_eq_some_iff.1 h
  have hsaid := (says_header hp.name).append (says_pairs hp.keys hpairs)
  simpa [Section.statements, Section.entries, Function.comp_def] using hsaid

theorem says_document {parts : List Section} {text : String}
    (hp : ∀ part ∈ parts, part.WellNamed) (h : documentText? parts = some text) :
    Says text.toList (parts.flatMap Section.statements) := by
  obtain ⟨texts, htexts, rfl⟩ := Option.map_eq_some_iff.1 h
  clear h
  induction parts generalizing texts with
  | nil =>
    obtain rfl := Option.some.inj htexts
    exact says_nil
  | cons part rest ih =>
    rw [List.forall_mem_cons] at hp
    obtain ⟨first, more, hfirst, hmore, rfl⟩ := mapM_sectionText?_cons htexts
    have hsaid := says_section hp.1 hfirst
    have hrest := ih hp.2 more hmore
    cases more with
    | nil => simpa using hsaid.append hrest
    | cons next more =>
      rw [String.intercalate_cons_cons]
      simpa using (hsaid.append says_newline).append hrest

/-! ### The table of a document -/

/-- What a section is in a document. -/
def Section.entry (part : Section) : String × Value := (part.1, .table .header part.entries)

theorem lookup_eq_none_of_nodup {before after : Entries} {key : String} {value : Value}
    (h : ((before ++ (key, value) :: after).map Prod.fst).Nodup) : before.lookup key = none := by
  rw [List.lookup_eq_none_iff]
  rintro ⟨other, old⟩ hm
  rw [List.map_append, List.map_cons] at h
  have hne := (List.nodup_append.1 h).2.2 other (List.mem_map.2 ⟨_, hm, rfl⟩) key
    List.mem_cons_self
  exact bne_iff_ne.2 (Ne.symm hne)

namespace Draft

theorem steps_append (draft : Draft) (first second : List Statement) :
    draft.steps (first ++ second) = (draft.steps first).bind fun draft => draft.steps second := by
  induction first generalizing draft with
  | nil => rfl
  | cons statement rest ih =>
    rw [List.cons_append, steps, steps]
    cases draft.step statement with
    | none => rfl
    | some draft => exact ih draft

/-- Pairs with new keys come last in the table that they are about. -/
theorem steps_pairs {draft : Draft} {entries : Entries}
    (h : ((draft.current ++ entries).map Prod.fst).Nodup) :
    draft.steps (entries.map fun (key, value) => .pair [key] value) =
      some { draft with current := draft.current ++ entries } := by
  induction entries generalizing draft with
  | nil => simp [steps]
  | cons entry rest ih =>
    obtain ⟨key, value⟩ := entry
    have hnew : draft.current.lookup key = none := lookup_eq_none_of_nodup h
    have hstep : draft.step (.pair [key] value) =
        some { draft with current := draft.current ++ [(key, value)] } := by
      simp [step, addPair, descend, hnew]
    rw [List.map_cons, steps, hstep]
    have hrest := @ih { draft with current := draft.current ++ [(key, value)] }
      (by simpa using h)
    simpa using hrest

/-- A section with a new name comes last in what is finished, by induction on the sections. -/
theorem close_steps_sections {draft : Draft} {finished : Entries} {parts : List Section}
    (hk : ∀ part ∈ parts, (part.2.map Prod.fst).Nodup) (hc : draft.close = some finished)
    (h : ((finished ++ parts.map Section.entry).map Prod.fst).Nodup) :
    (draft.steps (parts.flatMap Section.statements)).bind close =
      some (finished ++ parts.map Section.entry) := by
  induction parts generalizing draft finished with
  | nil => simpa [steps] using hc
  | cons part rest ih =>
    rw [List.forall_mem_cons] at hk
    have hnew : finished.lookup part.1 = none := lookup_eq_none_of_nodup h
    have hstep : draft.step (.table [part.1]) = some ⟨finished, .table [part.1], []⟩ := by
      simp [step, hc, standing, seek, hnew]
    have hkeys : part.entries.map Prod.fst = part.2.map Prod.fst := by
      rw [Section.entries, List.map_map]
      rfl
    have hpairs : (⟨finished, .table [part.1], []⟩ : Draft).steps
        (part.entries.map fun (key, value) => .pair [key] value) =
          some ⟨finished, .table [part.1], part.entries⟩ :=
      steps_pairs (by rw [List.nil_append, hkeys]; exact hk.1)
    have hclose : (⟨finished, .table [part.1], part.entries⟩ : Draft).close =
        some (finished ++ [part.entry]) := by
      simp [close, put, descend, Assoc.insert_of_lookup_eq_none hnew, Section.entry]
    rw [List.flatMap_cons, Section.statements, List.cons_append, steps, hstep]
    simp only [steps_append, hpairs, Option.bind_some]
    rw [ih hk.2 hclose (by simpa using h)]
    simp

end Draft

theorem ofStatements_sections {parts : List Section} (hp : ∀ part ∈ parts, part.WellNamed)
    (hn : (parts.map Prod.fst).Nodup) :
    ofStatements (parts.flatMap Section.statements) = some (parts.map Section.entry) := by
  have hnames : ((parts.map Section.entry).map Prod.fst) = parts.map Prod.fst := by
    rw [List.map_map]
    rfl
  have hstart : Draft.start.close = some [] := rfl
  exact Draft.close_steps_sections (fun part hm => (hp part hm).nodup) hstart (hnames.symm ▸ hn)

/-- A document that is not empty begins with a header. -/
theorem eq_of_mem_head?_documentText? {parts : List Section} {text : String}
    (h : documentText? parts = some text) : ∀ c ∈ text.toList.head?, c = '[' := by
  obtain ⟨texts, htexts, rfl⟩ := Option.map_eq_some_iff.1 h
  cases parts with
  | nil =>
    obtain rfl := Option.some.inj htexts
    nofun
  | cons part rest =>
    obtain ⟨first, more, hfirst, -, rfl⟩ := mapM_sectionText?_cons htexts
    obtain ⟨pairs, -, rfl⟩ := Option.map_eq_some_iff.1 hfirst
    cases more <;> simp [String.intercalate_cons_cons]

/-- **A document is read back as it was written.** -/
theorem document?_documentText? {parts : List Section} (hp : ∀ part ∈ parts, part.WellNamed)
    (hn : (parts.map Prod.fst).Nodup) {text : String} (h : documentText? parts = some text) :
    document? text = some (parts.map Section.entry) := by
  have hmark : afterMark text.toList = text.toList := by
    have hhead := eq_of_mem_head?_documentText? h
    unfold afterMark
    split
    · next rest htext => exact absurd (hhead '\uFEFF' (by rw [htext]; rfl)) (by decide)
    · rfl
  rw [document?, hmark, (says_document hp h).statements_eq]
  exact ofStatements_sections hp hn

end RouteCosts.Toml
