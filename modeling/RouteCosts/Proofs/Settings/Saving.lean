import RouteCosts.Proofs.Bytes.Utf8
import RouteCosts.Proofs.Toml.Documents
import RouteCosts.Settings.Store

/-!
# Settings that are saved

Settings are written field by field, and what is not set is left out; so their document gives the
same settings (`ofDocument?_sections`). They have no text exactly if a span of time does not fit
(`text?_eq_none_iff`), and then saving them changes nothing. Otherwise loading what was saved gives
them back, whatever the texts in them are made of. The main statement is `Settings.load_saved`.
-/

namespace RouteCosts.Settings

open Toml

/-! ### The sections -/

/-- The pairs about connections. -/
def networkPairs (settings : Settings) : List (String × Scalar) :=
  [("port", .integer settings.port.toNat), ("bind_address", .text settings.bindAddress),
    ("connect_timeout_ms", duration settings.connectTimeout)] ++
    optional "read_timeout_ms" duration settings.readTimeout

/-- The pairs about files. -/
def dataPairs (settings : Settings) : List (String × Scalar) :=
  optional "locations" .text settings.locations ++ optional "routes" .text settings.routes

theorem sections_eq (settings : Settings) :
    settings.sections = [("general", [("verbose", .boolean settings.verbose)]),
      ("network", settings.networkPairs), ("data", settings.dataPairs)] := rfl

section Optional
variable {α : Type} {name : String} {scalar : α → Scalar} {value : Option α}

theorem mem_optional_iff {pair : String × Scalar} :
    pair ∈ optional name scalar value ↔ ∃ a, value = some a ∧ pair = (name, scalar a) := by
  cases value with
  | none => exact ⟨nofun, fun ⟨_, h, _⟩ => nomatch h⟩
  | some a =>
    rw [optional, List.mem_singleton]
    refine ⟨fun h => ⟨a, rfl, h⟩, ?_⟩
    rintro ⟨_, ⟨⟩, h⟩
    exact h

theorem sublist_optional : ((optional name scalar value).map Prod.fst).Sublist [name] := by
  cases value with
  | none => exact List.nil_sublist [name]
  | some a => exact List.Sublist.refl [name]

theorem lookup_optional (other : String) :
    ((optional name scalar value).map fun (key, s) => (key, s.value)).lookup other =
      if other = name then value.map fun a => (scalar a).value else none := by
  cases value with
  | none => simp [optional]
  | some a => simp [optional, Assoc.lookup_cons]

end Optional

theorem wellNamed_of_sublist {name : String} {pairs : List (String × Scalar)}
    {names : List String} (hn : IsBare name) (hs : (pairs.map Prod.fst).Sublist names)
    (hk : ∀ key ∈ names, IsBare key) (hd : names.Nodup) : Section.WellNamed (name, pairs) :=
  ⟨hn, fun key hm => hk key (hs.subset hm), hs.nodup hd⟩

theorem wellNamed_sections (settings : Settings) : ∀ part ∈ settings.sections, part.WellNamed := by
  have hnetwork : (settings.networkPairs.map Prod.fst).Sublist
      ["port", "bind_address", "connect_timeout_ms", "read_timeout_ms"] := by
    rw [networkPairs, List.map_append]
    exact (List.Sublist.refl ["port", "bind_address", "connect_timeout_ms"]).append sublist_optional
  have hdata : (settings.dataPairs.map Prod.fst).Sublist ["locations", "routes"] := by
    rw [dataPairs, List.map_append]
    exact sublist_optional.append sublist_optional
  simp only [sections_eq, List.forall_mem_cons]
  refine ⟨?_, ?_, ?_, nofun⟩
  · exact wellNamed_of_sublist (by decide) (List.Sublist.refl ["verbose"]) (by decide) (by decide)
  · exact wellNamed_of_sublist (by decide) hnetwork (by decide) (by decide)
  · exact wellNamed_of_sublist (by decide) hdata (by decide) (by decide)

/-! ### What has a text -/

/-- **The spans of time fit a document**: they are numbers of 64 bits with a sign. -/
structure Fits (settings : Settings) : Prop where
  connect : settings.connectTimeout.toNat ≤ maxInteger
  read : ∀ ms, settings.readTimeout = some ms → ms.toNat ≤ maxInteger

/-- The numbers of a document are a port and spans of time. -/
theorem mem_networkPairs {settings : Settings} {pair : String × Scalar}
    (h : pair ∈ settings.networkPairs) {n : Nat} (hn : pair.2 = .integer n) :
    n = settings.port.toNat ∨ n = settings.connectTimeout.toNat ∨
      ∃ ms, settings.readTimeout = some ms ∧ n = ms.toNat := by
  rcases List.mem_append.1 h with h | h
  · simp only [List.mem_cons, List.not_mem_nil, or_false] at h
    rcases h with rfl | rfl | rfl
    · exact .inl (Scalar.integer.inj hn).symm
    · cases hn
    · exact .inr (.inl (Scalar.integer.inj hn).symm)
  · obtain ⟨ms, hms, rfl⟩ := mem_optional_iff.1 h
    exact .inr (.inr ⟨ms, hms, (Scalar.integer.inj hn).symm⟩)

theorem not_integer_of_mem_dataPairs {settings : Settings} {pair : String × Scalar}
    (h : pair ∈ settings.dataPairs) (n : Nat) : pair.2 ≠ .integer n := by
  rcases List.mem_append.1 h with h | h
  · obtain ⟨path, -, rfl⟩ := mem_optional_iff.1 h
    nofun
  · obtain ⟨path, -, rfl⟩ := mem_optional_iff.1 h
    nofun

/-- **Settings have no text** exactly if a span of time does not fit. -/
theorem text?_eq_none_iff {settings : Settings} : settings.text? = none ↔ ¬ settings.Fits := by
  rw [text?, documentText?_eq_none_iff]
  constructor
  · rintro ⟨part, hpart, pair, hpair, n, hn, hlt⟩ hfits
    simp only [sections_eq, List.mem_cons, List.not_mem_nil, or_false] at hpart
    rcases hpart with rfl | rfl | rfl
    · obtain rfl := List.mem_singleton.1 hpair
      cases hn
    · rcases mem_networkPairs hpair hn with rfl | rfl | ⟨ms, hms, rfl⟩
      · have hport := settings.port.toNat_lt
        rw [maxInteger_eq] at hlt
        omega
      · exact absurd hfits.connect (Nat.not_le.2 hlt)
      · exact absurd (hfits.read ms hms) (Nat.not_le.2 hlt)
    · exact not_integer_of_mem_dataPairs hpair n hn
  · intro hfits
    by_contra hnone
    have hfit (key : String) (ms : UInt64) (hm : (key, duration ms) ∈ settings.networkPairs) :
        ms.toNat ≤ maxInteger :=
      Nat.not_lt.1 fun hlt => hnone ⟨("network", settings.networkPairs),
        List.mem_cons_of_mem _ List.mem_cons_self, _, hm, ms.toNat, rfl, hlt⟩
    refine hfits ⟨hfit "connect_timeout_ms" _ (List.mem_append_left _ ?_),
      fun ms hms => hfit "read_timeout_ms" ms (List.mem_append_right _ ?_)⟩
    · exact List.mem_cons_of_mem _ (List.mem_cons_of_mem _ List.mem_cons_self)
    · exact mem_optional_iff.2 ⟨ms, hms, rfl⟩

/-! ### Reading -/

theorem asNat?_natCast {size n : Nat} (h : n < size) : asNat? size (.integer n) = some n := by
  rw [asNat?, if_pos ⟨Int.natCast_nonneg n, Int.ofNat_lt.2 h⟩, Int.toNat_natCast]

theorem asPort?_toNat (port : UInt16) : asPort? (.integer port.toNat) = some port := by
  rw [asPort?, asNat?_natCast port.toNat_lt, Option.map_some, UInt16.ofNat_toNat]

theorem asDuration?_toNat (ms : UInt64) : asDuration? (.integer ms.toNat) = some ms := by
  rw [asDuration?, asNat?_natCast ms.toNat_lt, Option.map_some, UInt64.ofNat_toNat]

/-- A field that may have no value is there if it has one. -/
theorem optional_of_lookup {α : Type} {entries : Entries} {name : String}
    {as? : Value → Option α} {toValue : α → Value} {value : Option α}
    (h : entries.lookup name = value.map toValue) (has : ∀ a, as? (toValue a) = some a)
    (position : Nat) : (Fields.named entries).optional position name as? = some value := by
  unfold Fields.optional Fields.get?
  cases value with
  | none => simp [h]
  | some a => simp [h, has]

/-- The fields of the section about connections. -/
theorem fields_networkPairs (settings : Settings) :
    let fields := Fields.named (Section.entries ("network", settings.networkPairs))
    fields.withStandard 0 "port" asPort? standard.port = some settings.port ∧
      fields.withStandard 1 "bind_address" asText? standard.bindAddress =
        some settings.bindAddress ∧
      fields.withStandard 2 "connect_timeout_ms" asDuration? standard.connectTimeout =
        some settings.connectTimeout ∧
      fields.optional 3 "read_timeout_ms" asDuration? = some settings.readTimeout := by
  have hread : (Section.entries ("network", settings.networkPairs)).lookup "read_timeout_ms" =
      settings.readTimeout.map fun ms => Value.integer ms.toNat := by
    simp [Section.entries, networkPairs, Assoc.lookup_cons, lookup_optional, duration]
  refine ⟨?_, ?_, ?_, optional_of_lookup hread asDuration?_toNat 3⟩
  · simp [Fields.withStandard, Fields.get?, Section.entries, networkPairs, asPort?_toNat]
  · simp [Fields.withStandard, Fields.get?, Section.entries, networkPairs, Assoc.lookup_cons,
      asText?]
  · simp [Fields.withStandard, Fields.get?, Section.entries, networkPairs, Assoc.lookup_cons,
      duration, asDuration?_toNat]

/-- The fields of the section about files. -/
theorem fields_dataPairs (settings : Settings) :
    let fields := Fields.named (Section.entries ("data", settings.dataPairs))
    fields.optional 0 "locations" asText? = some settings.locations ∧
      fields.optional 1 "routes" asText? = some settings.routes := by
  have hlocations : (Section.entries ("data", settings.dataPairs)).lookup "locations" =
      settings.locations.map Value.text := by
    simp [Section.entries, dataPairs, List.lookup_append, lookup_optional]
  have hroutes : (Section.entries ("data", settings.dataPairs)).lookup "routes" =
      settings.routes.map Value.text := by
    simp [Section.entries, dataPairs, List.lookup_append, lookup_optional]
  have htext (path : String) : asText? (.text path) = some path := rfl
  exact ⟨optional_of_lookup hlocations htext 0, optional_of_lookup hroutes htext 1⟩

/-- **The document of some settings gives these settings.** -/
theorem ofDocument?_sections (settings : Settings) :
    ofDocument? (settings.sections.map Section.entry) = some settings := by
  have hgeneral : section? (settings.sections.map Section.entry) "general" =
      some (.named [("verbose", .boolean settings.verbose)]) := by
    simp [section?, sections_eq, Section.entry, Section.entries, Fields.of?]
  have hnetwork : section? (settings.sections.map Section.entry) "network" =
      some (.named (Section.entries ("network", settings.networkPairs))) := by
    simp [section?, sections_eq, Section.entry, Assoc.lookup_cons, Fields.of?]
  have hdata : section? (settings.sections.map Section.entry) "data" =
      some (.named (Section.entries ("data", settings.dataPairs))) := by
    simp [section?, sections_eq, Section.entry, Assoc.lookup_cons, Fields.of?]
  obtain ⟨hport, hbind, hconnect, hread⟩ := fields_networkPairs settings
  obtain ⟨hlocations, hroutes⟩ := fields_dataPairs settings
  simp only [ofDocument?, hgeneral, hnetwork, hdata, hport, hbind, hconnect, hread, hlocations,
    hroutes, Option.bind_eq_bind, Option.bind_some]
  rfl

/-- **The text of some settings gives these settings.** -/
theorem ofText?_of_text? {settings : Settings} {text : String} (h : settings.text? = some text) :
    ofText? text = some settings := by
  have hnodup : ["general", "network", "data"].Nodup := by decide
  rw [ofText?, document?_documentText? (wellNamed_sections settings) hnodup h, Option.bind_some,
    ofDocument?_sections]

/-! ### Files -/

theorem load_of_look {tree : FileTree} {path text : String} {modified : Moment}
    {settings : Settings} (h : tree.look path = .file (Utf8.bytes text) modified)
    (ht : ofText? text = some settings) : load tree path = .ok settings := by
  have hread : (FileState.file (Utf8.bytes text) modified).read = .ok text := by
    rw [FileState.read, Utf8.decode?_bytes]
  rw [load, h]
  dsimp only
  rw [hread]
  dsimp only
  rw [ht]

/-- Saving settings that have a text writes that text, or fails for what the files are. -/
theorem save_cases {settings : Settings} {text : String} (h : settings.text? = some text)
    (tree : FileTree) (now : Moment) (path : String) :
    (∃ after, settings.save tree now path = (.ok (), after) ∧
        after.look path = .file (Utf8.bytes text) now) ∨
      ∃ fault after, settings.save tree now path = (.error (.fault fault), after) := by
  rw [save, h]
  dsimp only
  split
  · exact .inr ⟨_, _, rfl⟩
  · split
    · exact .inr ⟨_, _, rfl⟩
    · next hwrite => exact .inl ⟨_, rfl, FileTree.look_write hwrite⟩

/-- **Settings that are saved load as they were.** If the spans of time fit, saving never fails for
what the settings are, and once they are saved at a path, loading that path gives the same settings:
texts of any characters, and what is not set is not set. If a span of time does not fit, saving
fails for that reason, and every file and directory is as before. -/
theorem load_saved (settings : Settings) (tree : FileTree) (now : Moment) (path : String) :
    (settings.Fits →
        (settings.save tree now path).1 ≠ .error .unwritable ∧
          ∀ after, settings.save tree now path = (.ok (), after) →
            load after path = .ok settings) ∧
      (¬ settings.Fits → settings.save tree now path = (.error .unwritable, tree)) := by
  constructor
  · intro hfits
    cases htext : settings.text? with
    | none => exact absurd hfits (text?_eq_none_iff.1 htext)
    | some text =>
      rcases save_cases htext tree now path with ⟨after, hsave, hlook⟩ | ⟨fault, after, hsave⟩
      · refine ⟨by rw [hsave]; nofun, fun other hother => ?_⟩
        obtain rfl : after = other := congrArg Prod.snd (hsave.symm.trans hother)
        exact load_of_look hlook (ofText?_of_text? htext)
      · refine ⟨by rw [hsave]; nofun, fun other hother => ?_⟩
        cases hsave.symm.trans hother
  · intro hfits
    rw [save, text?_eq_none_iff.2 hfits]

/-- Texts with quotes, backslashes, ends of lines and control characters, the longest span of time
that fits, and then one that is longer by one. -/
theorem load_saved_longest :
    let settings : Settings :=
      { standard with
        bindAddress := "a\"b'c\\d\ne\x7f"
        connectTimeout := 9223372036854775807
        locations := some "\"\"\"'''\r"
        routes := some "" }
    let longer : Settings := { settings with readTimeout := some 9223372036854775808 }
    let tree : FileTree := ⟨[], []⟩
    settings.Fits ∧ ¬ longer.Fits ∧
      (∃ after, settings.save tree ⟨1, 0⟩ "/a/b" = (.ok (), after) ∧
        load after "/a/b" = .ok settings) ∧
      longer.save tree ⟨1, 0⟩ "/a/b" = (.error .unwritable, tree) := by
  intro settings longer tree
  have hfits : settings.Fits := ⟨by decide, nofun⟩
  have hlonger : ¬ longer.Fits := fun h => absurd (h.read _ rfl) (by decide)
  have hsaved : (settings.save tree ⟨1, 0⟩ "/a/b").1 = .ok () := by decide +kernel
  obtain ⟨hloads, -⟩ := load_saved settings tree ⟨1, 0⟩ "/a/b"
  obtain ⟨-, hrefused⟩ := load_saved longer tree ⟨1, 0⟩ "/a/b"
  exact ⟨hfits, hlonger, ⟨_, Prod.ext hsaved rfl, (hloads hfits).2 _ (Prod.ext hsaved rfl)⟩,
    hrefused hlonger⟩

end RouteCosts.Settings
