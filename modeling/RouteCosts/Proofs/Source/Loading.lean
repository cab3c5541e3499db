import RouteCosts.Source.File

/-! # One load of a file

A load finds the stamp that it remembers, or takes over what the file gives, or fails
(`FileSource.load_cases`), and in the first case and the last it leaves the source as it was
(`FileSource.load_of_unchanged`). What a file gives (`FileSource.Gives`) is said without reading it
step by step. -/

namespace RouteCosts

namespace FileSource

variable {α : Type} {grammar : String → Except ListingError α}

/-- **What a file gives**: it is a file, all of it is text, and the text follows the grammar. -/
def Gives (grammar : String → Except ListingError α) (file : FileState) (data : α) : Prop :=
  ∃ contents modified text, file = .file contents modified ∧
    Utf8.decode? contents = some text ∧ grammar text = .ok data

theorem parse_eq_ok_iff {file : FileState} {data : α} :
    parse grammar file = .ok data ↔ Gives grammar file data := by
  constructor
  · intro h
    cases file with
    | file contents modified =>
      unfold parse FileState.read at h
      cases ht : Utf8.decode? contents with
      | none => simp only [ht] at h; cases h
      | some text =>
        cases hg : grammar text with
        | error error => simp only [ht, hg] at h; cases h
        | ok parsed =>
          simp only [ht, hg] at h
          obtain rfl := Except.ok.inj h
          exact ⟨contents, modified, text, rfl, ht, hg⟩
    | directory stamp => cases h
    | absent reason => cases h
  · rintro ⟨contents, modified, text, rfl, ht, hg⟩
    unfold parse FileState.read
    simp only [ht, hg]

theorem Gives.stamp?_isSome {file : FileState} {data : α} (h : Gives grammar file data) :
    file.stamp?.isSome := by
  obtain ⟨contents, modified, text, rfl, -⟩ := h
  rfl

theorem Gives.of_contents? {file other : FileState} {data : α} (h : Gives grammar file data)
    (hc : file.contents? = other.contents?) : Gives grammar other data := by
  obtain ⟨contents, modified, text, rfl, ht, hg⟩ := h
  cases other with
  | file contents' modified' =>
    obtain rfl : contents = contents' := Option.some.inj hc
    exact ⟨contents, modified', text, rfl, ht, hg⟩
  | directory stamp => cases hc
  | absent reason => cases hc

/-- **A load** finds the stamp it remembers, or takes the data of the file over, or fails. -/
theorem load_cases (grammar : String → Except ListingError α) (source : FileSource α)
    (file : FileState) :
    (∃ stamp, file.stamp? = some stamp ∧ source.loaded = some stamp ∧
      source.load grammar file = (.ok false, source)) ∨
    (∀ stamp, file.stamp? = some stamp → source.loaded ≠ some stamp) ∧
      ((∃ data, Gives grammar file data ∧
        source.load grammar file = (.ok true, ⟨data, file.stamp?⟩)) ∨
      (∃ error, (∀ data, ¬ Gives grammar file data) ∧
        source.load grammar file = (.error error, source))) := by
  by_cases hs : file.stamp?.isSome ∧ file.stamp? = source.loaded
  · obtain ⟨stamp, hstamp⟩ := Option.isSome_iff_exists.1 hs.1
    exact Or.inl ⟨stamp, hstamp, hs.2 ▸ hstamp, if_pos hs⟩
  · refine Or.inr ⟨fun stamp hf hl => hs ⟨by rw [hf]; rfl, hf.trans hl.symm⟩, ?_⟩
    unfold load
    rw [if_neg hs]
    cases hp : parse grammar file with
    | ok data => exact Or.inl ⟨data, parse_eq_ok_iff.1 hp, rfl⟩
    | error error =>
      refine Or.inr ⟨error, fun data hg => ?_, rfl⟩
      rw [parse_eq_ok_iff.2 hg] at hp
      cases hp

/-- A load that reports no change, or fails, leaves the source as it was. -/
theorem load_of_unchanged {source : FileSource α} {file : FileState}
    (h : changed (source.load grammar file).1 = false) :
    (source.load grammar file).2 = source := by
  rcases load_cases grammar source file with
    ⟨stamp, -, -, hload⟩ | ⟨-, ⟨data, -, hload⟩ | ⟨error, -, hload⟩⟩
  · rw [hload]
  · rw [hload] at h; cases h
  · rw [hload]

/-- **The second load of a file reports no change.** -/
theorem changed_load_load (grammar : String → Except ListingError α) (source : FileSource α)
    (file : FileState) : changed ((source.load grammar file).2.load grammar file).1 = false := by
  rcases load_cases grammar source file with
    ⟨stamp, -, -, hload⟩ | ⟨-, ⟨data, hg, hload⟩ | ⟨error, -, hload⟩⟩
  · rw [hload, hload]
    rfl
  · have hagain : load grammar ⟨data, file.stamp?⟩ file = (.ok false, ⟨data, file.stamp?⟩) :=
      if_pos ⟨hg.stamp?_isSome, rfl⟩
    rw [hload, hagain]
    rfl
  · rw [hload, hload]
    rfl

/-- What a source that was not loaded before makes of a file. -/
theorem load_new (grammar : String → Except ListingError α) (data : α) (file : FileState) :
    load grammar ⟨data, none⟩ file =
      match parse grammar file with
      | .ok parsed => (.ok true, ⟨parsed, file.stamp?⟩)
      | .error error => (.error error, ⟨data, none⟩) := by
  refine if_neg ?_
  rintro ⟨hsome, hnone⟩
  rw [hnone] at hsome
  cases hsome

end FileSource

namespace LocationFile

variable {grammar : String → Except ListingError (List Location)} {source : LocationFile}
  {file : FileState}

theorem load_of_unchanged (h : changed (source.load grammar file).1 = false) :
    (source.load grammar file).2 = source := by
  have hsame : (source.toFileSource.load grammar file).2 = source.toFileSource :=
    FileSource.load_of_unchanged h
  have hindex : (source.load grammar file).2.index = source.index :=
    if_neg (Bool.not_eq_true _ ▸ h)
  exact congr (congrArg LocationFile.mk hsame) hindex

theorem changed_load_load : changed ((source.load grammar file).2.load grammar file).1 = false :=
  FileSource.changed_load_load grammar source.toFileSource file

end LocationFile

end RouteCosts
