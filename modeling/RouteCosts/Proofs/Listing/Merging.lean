import RouteCosts.Proofs.Listing.Rows

/-!
# The file of routes merges its lines

The routes of a text are a map that merges its rows (`Merges`): every start of a row is a key once,
and its value are the destinations of all rows with that start, one after the other. One more line
keeps this (`Merges.extend`), so it holds of all lines, up to the first without a start
(`merged_of_lines`). So it makes no difference on how many lines the destinations of a start are
written, nor what stands between these lines: every text that spreads a map over its lines gives
that map again (`Spreads.lookup_eq`). The main statement is `routes_merged`.
-/

namespace RouteCosts.Listing

/-! ### Merging rows -/

/-- The destinations of all rows with a start, one after the other. -/
def destinationsFrom (start : String) (rows : List Row) : List String :=
  (rows.filter fun row => row.1 = start).flatMap Prod.snd

/-- **A map merges rows**: its keys are the starts of the rows, each of them once, and the value of
a key are the destinations of all rows with that start, in order. -/
structure Merges (found : Routes) (rows : List Row) : Prop where
  nodup : (found.map Prod.fst).Nodup
  lookup_iff : ∀ start destinations, found.lookup start = some destinations ↔
    start ∈ rows.map Prod.fst ∧ destinations = destinationsFrom start rows

theorem destinationsFrom_concat (start : String) (rows : List Row) (row : Row) :
    destinationsFrom start (rows ++ [row]) =
      destinationsFrom start rows ++ if row.1 = start then row.2 else [] := by
  unfold destinationsFrom
  rw [List.filter_append, List.flatMap_append]
  by_cases h : row.1 = start <;> simp [h]

theorem destinationsFrom_of_not_mem {start : String} {rows : List Row}
    (h : start ∉ rows.map Prod.fst) : destinationsFrom start rows = [] := by
  have hnone : (rows.filter fun row => row.1 = start) = [] := by
    rw [List.filter_eq_nil_iff]
    intro row hm hstart
    exact h (List.mem_map.2 ⟨row, hm, of_decide_eq_true hstart⟩)
  rw [destinationsFrom, hnone]
  rfl

theorem merges_nil : Merges [] [] := by
  refine ⟨List.nodup_nil, fun start destinations => ⟨nofun, ?_⟩⟩
  rintro ⟨hm, -⟩
  cases hm

section Merges
variable {found : Routes} {rows : List Row} (h : Merges found rows)
include h

theorem Merges.ofStart_eq (start : String) : found.ofStart start = destinationsFrom start rows := by
  unfold Routes.ofStart
  cases hl : found.lookup start with
  | some destinations =>
    obtain ⟨-, rfl⟩ := (h.lookup_iff start destinations).1 hl
    rfl
  | none =>
    have hnew : start ∉ rows.map Prod.fst := fun hm => by
      have hfound := (h.lookup_iff start _).2 ⟨hm, rfl⟩
      rw [hl] at hfound
      cases hfound
    exact (destinationsFrom_of_not_mem hnew).symm

/-- **One more row**: its destinations follow those of its start, and all else stays. -/
theorem Merges.extend (row : Row) : Merges (found.extend row.1 row.2) (rows ++ [row]) := by
  refine ⟨Assoc.nodup_map_fst_insert h.nodup _ _, fun other destinations => ?_⟩
  have hkeys : other ∈ (rows ++ [row]).map Prod.fst ↔
      other ∈ rows.map Prod.fst ∨ other = row.1 := by
    rw [List.map_append, List.mem_append, List.map_singleton, List.mem_singleton]
  rw [Routes.lookup_extend, hkeys, destinationsFrom_concat]
  by_cases ho : other = row.1
  · subst ho
    rw [if_pos rfl, if_pos rfl, Option.some_inj, h.ofStart_eq]
    exact ⟨fun he => ⟨Or.inr rfl, he.symm⟩, fun he => he.2.symm⟩
  · rw [if_neg ho, if_neg (Ne.symm ho), List.append_nil, h.lookup_iff, or_iff_left ho]

end Merges

/-! ### One line after the other -/

/-- The first data line without a start has this number. -/
def FirstStartless (lines : List (Nat × List Char)) (number : Nat) : Prop :=
  ∃ before line after, lines = before ++ (number, line) :: after ∧
    (∀ other ∈ before, ¬ NoStart other.2) ∧ NoStart line

/-- **What is made of data lines**: a map that merges their rows, or the number of the first that
has no start. -/
inductive Outcome (lines : List (Nat × List Char)) : Except ListingError Routes → Prop
  | merged {rows : List Row} {found : Routes} (hr : Rows lines rows) (hm : Merges found rows) :
    Outcome lines (.ok found)
  | blamed {number : Nat} (h : FirstStartless lines number) :
    Outcome lines (.error (.malformed number .emptyStart))

theorem Rows.not_noStart {lines : List (Nat × List Char)} {rows : List Row} (h : Rows lines rows) :
    ∀ line ∈ lines, ¬ NoStart line.2 := by
  induction h with
  | nil => exact nofun
  | cons hsaid h ih => exact List.forall_mem_cons.2 ⟨hsaid.not_noStart, ih⟩

theorem Rows.unique {lines : List (Nat × List Char)} {rows others : List Row} (h : Rows lines rows)
    (h' : Rows lines others) : rows = others := by
  have hunique : Relator.RightUnique fun (line : Nat × List Char) row => Says line.2 row :=
    fun _ _ _ => Says.unique
  exact List.right_unique_forall₂' hunique h h'

/-- **The lines are merged one after the other**, by induction on those to come. -/
theorem merged_of_lines {before : List (Nat × List Char)} {earlier : Routes} {rows : List Row}
    (hr : Rows before rows) (hm : Merges earlier rows) (lines : List (Nat × List Char)) :
    Outcome (before ++ lines) (routesOfLines earlier lines) := by
  induction lines generalizing before earlier rows with
  | nil =>
    rw [List.append_nil]
    exact .merged hr hm
  | cons line lines ih =>
    obtain ⟨number, line⟩ := line
    rw [routesOfLines]
    cases hline : routesOfLine line with
    | ok row =>
      have hsaid : Says line row := routesOfLine_eq_ok_iff.1 hline
      have hrows : Rows (before ++ [(number, line)]) (rows ++ [row]) :=
        List.rel_append hr (.cons hsaid .nil)
      have := ih hrows (hm.extend row)
      rwa [List.append_assoc, List.singleton_append] at this
    | error reason =>
      obtain ⟨hnone, rfl⟩ := routesOfLine_eq_error_iff.1 hline
      exact .blamed ⟨before, line, lines, rfl, hr.not_noStart, hnone⟩

theorem FirstStartless.unique {lines : List (Nat × List Char)} {number other : Nat}
    (h : FirstStartless lines number) (h' : FirstStartless lines other) : number = other := by
  obtain ⟨before, line, after, rfl, hg, hb⟩ := h
  obtain ⟨before', line', after', heq, hg', hb'⟩ := h'
  rcases append_cons_cases heq with ⟨-, hline⟩ | ⟨more, rfl⟩ | ⟨more, rfl⟩
  · exact (Prod.mk.inj hline).1
  · exact absurd hb (hg' _ (List.mem_append_right _ List.mem_cons_self))
  · exact absurd hb' (hg _ (List.mem_append_right _ List.mem_cons_self))

theorem FirstStartless.exists_noStart {lines : List (Nat × List Char)} {number : Nat}
    (h : FirstStartless lines number) : ∃ line ∈ lines, NoStart line.2 := by
  obtain ⟨before, line, after, rfl, -, hb⟩ := h
  exact ⟨_, List.mem_append_right _ List.mem_cons_self, hb⟩

section Outcome
variable {lines : List (Nat × List Char)} {result : Except ListingError Routes}
  (h : Outcome lines result)
include h

theorem Outcome.ne_empty : result ≠ .error .empty := by
  cases h with
  | merged hr hm => nofun
  | blamed hb => nofun

theorem Outcome.malformed_iff (number : Nat) (reason : LineError) :
    result = .error (.malformed number reason) ↔
      FirstStartless lines number ∧ reason = .emptyStart := by
  cases h with
  | merged hr hm =>
    refine ⟨nofun, fun ⟨hb, _⟩ => ?_⟩
    obtain ⟨line, hline, hnone⟩ := hb.exists_noStart
    exact absurd hnone (hr.not_noStart line hline)
  | @blamed other hb =>
    constructor
    · intro he
      cases he
      exact ⟨hb, rfl⟩
    · rintro ⟨hb', rfl⟩
      rw [hb.unique hb']

theorem Outcome.exists_ok_iff :
    (∃ found, result = .ok found) ↔ ∀ line ∈ lines, ¬ NoStart line.2 := by
  cases h with
  | merged hr hm => exact ⟨fun _ => hr.not_noStart, fun _ => ⟨_, rfl⟩⟩
  | blamed hb =>
    refine ⟨fun ⟨_, he⟩ => (nomatch he), fun hall => ?_⟩
    obtain ⟨line, hline, hnone⟩ := hb.exists_noStart
    exact absurd hnone (hall line hline)

theorem Outcome.exists_merges {found : Routes} (hf : result = .ok found) :
    ∃ rows, Rows lines rows ∧ Merges found rows := by
  cases h with
  | merged hr hm =>
    obtain rfl := Except.ok.inj hf
    exact ⟨_, hr, hm⟩
  | blamed hb => cases hf

end Outcome

theorem outcome_routes (text : String) :
    (dataLines text.toList = [] ∧ routes text = .error .empty) ∨
      (dataLines text.toList ≠ [] ∧ Outcome (dataLines text.toList) (routes text)) := by
  have houtcome := merged_of_lines .nil merges_nil (dataLines text.toList)
  unfold routes
  generalize dataLines text.toList = lines at houtcome ⊢
  cases lines with
  | nil => exact Or.inl ⟨rfl, rfl⟩
  | cons line lines => exact Or.inr ⟨List.cons_ne_nil _ _, houtcome⟩

/-! ### A map spread over lines -/

/-- **A map of routes that can be written**: it is not empty, no start occurs twice, and all names
are good for a file of routes. -/
structure RoutesGood (map : Routes) : Prop where
  ne_nil : map ≠ []
  nodup : (map.map Prod.fst).Nodup
  good : ∀ row ∈ map, RowGood row

/-- **Rows over which a map is spread**: the rows of each start are its list, cut into one piece or
more in order; the rows of different starts may stand in any order among each other. -/
structure Spreads (map : Routes) (rows : List Row) : Prop where
  listed : ∀ row ∈ rows, row.1 ∈ map.map Prod.fst
  pieces : ∀ entry ∈ map, ∃ pieces : List (List String), pieces ≠ [] ∧ pieces.flatten = entry.2 ∧
    (rows.filter fun row => row.1 = entry.1) = pieces.map fun piece => (entry.1, piece)

theorem lookup_eq_some_iff {map : Routes} (hn : (map.map Prod.fst).Nodup) {start : String}
    {destinations : List String} :
    map.lookup start = some destinations ↔ (start, destinations) ∈ map := by
  induction map with
  | nil => simp
  | cons entry map ih =>
    obtain ⟨key, value⟩ := entry
    obtain ⟨hkey, hrest⟩ := List.nodup_cons.1 hn
    rw [Assoc.lookup_cons, List.mem_cons, Prod.mk.injEq]
    by_cases hs : start = key
    · subst hs
      have hnone : (start, destinations) ∉ map := fun hm => hkey (List.mem_map.2 ⟨_, hm, rfl⟩)
      rw [if_pos rfl, Option.some_inj, or_iff_left hnone, eq_comm]
      exact (and_iff_right rfl).symm
    · rw [if_neg hs, ih hrest]
      exact (or_iff_right fun h => hs h.1).symm

section Spreads
variable {map : Routes} {rows : List Row} (h : Spreads map rows)
include h

theorem Spreads.mem_fst_iff {start : String} :
    start ∈ rows.map Prod.fst ↔ start ∈ map.map Prod.fst := by
  constructor
  · intro hm
    obtain ⟨row, hrow, rfl⟩ := List.mem_map.1 hm
    exact h.listed row hrow
  · intro hm
    obtain ⟨entry, hentry, rfl⟩ := List.mem_map.1 hm
    obtain ⟨pieces, hne, -, hrows⟩ := h.pieces entry hentry
    obtain ⟨piece, rest, rfl⟩ := List.exists_cons_of_ne_nil hne
    have hmem : (entry.1, piece) ∈ rows.filter fun row => row.1 = entry.1 := by
      rw [hrows]
      exact List.mem_cons_self
    exact List.mem_map.2 ⟨_, (List.mem_filter.1 hmem).1, rfl⟩

theorem Spreads.destinationsFrom_eq {entry : Row} (he : entry ∈ map) :
    destinationsFrom entry.1 rows = entry.2 := by
  obtain ⟨pieces, -, hflat, hrows⟩ := h.pieces entry he
  rw [destinationsFrom, hrows, List.flatMap_map]
  simpa using hflat

/-- **What is merged from the rows of a map is the map.** -/
theorem Spreads.lookup_eq {found : Routes} (hn : (map.map Prod.fst).Nodup) (hm : Merges found rows)
    (start : String) : found.lookup start = map.lookup start := by
  refine Option.ext fun destinations => ?_
  rw [hm.lookup_iff, lookup_eq_some_iff hn, h.mem_fst_iff]
  constructor
  · rintro ⟨hstart, rfl⟩
    obtain ⟨entry, hentry, rfl⟩ := List.mem_map.1 hstart
    rw [h.destinationsFrom_eq hentry]
    exact hentry
  · intro hentry
    exact ⟨List.mem_map.2 ⟨_, hentry, rfl⟩, (h.destinationsFrom_eq hentry).symm⟩

end Spreads

/-! ### The whole text -/

/-- The rows of a written map are good. -/
theorem RoutesGood.rowGood {map : Routes} {rows : List Row} (hg : RoutesGood map)
    (h : Spreads map rows) : ∀ row ∈ rows, RowGood row := by
  intro row hrow
  obtain ⟨entry, hentry, hstart⟩ := List.mem_map.1 (h.listed row hrow)
  obtain ⟨hgood, hcomment, hall⟩ := hg.good entry hentry
  rw [hstart] at hgood hcomment
  refine ⟨hgood, hcomment, fun name hname => hall name ?_⟩
  -- what stands on one line of a start is part of its whole list
  rw [← h.destinationsFrom_eq hentry]
  exact List.mem_flatMap.2 ⟨row, List.mem_filter.2 ⟨hrow, decide_eq_true hstart.symm⟩, hname⟩

/-- **The file of routes merges its lines.** Without data lines it is empty; if one of them has an
empty first field, the first such line is blamed; and otherwise there is a map of which the keys are
the first fields, and the value of a key are the further fields that are not empty of all lines with
that key, in order. So if a text writes a map, each start on one line or more and these lines in any
order that keeps those of each start in theirs, with any blanks, blank lines and comments, it gives
that map. -/
theorem routes_merged (text : String) :
    ∃ lines, Enumerates text.toList lines ∧
      (routes text = .error .empty ↔ lines = []) ∧
      (∀ number reason, routes text = .error (.malformed number reason) ↔
        FirstStartless lines number ∧ reason = .emptyStart) ∧
      ((∃ found, routes text = .ok found) ↔ lines ≠ [] ∧ ∀ line ∈ lines, ¬ NoStart line.2) ∧
      (∀ found, routes text = .ok found → ∃ rows, Rows lines rows ∧ Merges found rows) ∧
      ∀ map items, RoutesGood map → Spreads map items.reduceOption → Writes text.toList items →
        ∃ found, routes text = .ok found ∧ (found.map Prod.fst).Nodup ∧
          ∀ start, found.lookup start = map.lookup start := by
  refine ⟨dataLines text.toList, enumerates_dataLines text.toList, ?_⟩
  rcases outcome_routes text with ⟨hnil, hempty⟩ | ⟨hne, houtcome⟩
  · rw [hempty, hnil]
    refine ⟨⟨fun _ => rfl, fun _ => rfl⟩, fun number reason => ⟨nofun, fun ⟨hb, _⟩ => ?_⟩,
      ⟨fun ⟨_, he⟩ => (nomatch he), fun h => absurd rfl h.1⟩, nofun, fun map items hg hs hw => ?_⟩
    · obtain ⟨line, hline, -⟩ := hb.exists_noStart
      cases hline
    · -- a text without data lines writes no row, but a map has a start
      have hrows := rows_dataLines hw (hg.rowGood hs)
      have hnone : items.reduceOption = [] := List.forall₂_nil_left_iff.1 (hnil ▸ hrows)
      obtain ⟨entry, map, rfl⟩ := List.exists_cons_of_ne_nil hg.ne_nil
      have hmem := hs.mem_fst_iff.2 (List.mem_map_of_mem List.mem_cons_self)
      rw [hnone] at hmem
      cases hmem
  · refine ⟨⟨fun h => absurd h houtcome.ne_empty, fun h => absurd h hne⟩, houtcome.malformed_iff,
      houtcome.exists_ok_iff.trans (and_iff_right hne).symm, fun found => houtcome.exists_merges,
      fun map items hg hs hw => ?_⟩
    have hrows := rows_dataLines hw (hg.rowGood hs)
    obtain ⟨found, hfound⟩ := houtcome.exists_ok_iff.2 hrows.not_noStart
    obtain ⟨rows, hrows', hmerges⟩ := houtcome.exists_merges hfound
    obtain rfl := hrows'.unique hrows
    exact ⟨found, hfound, hmerges.nodup, hs.lookup_eq hg.nodup hmerges⟩

/-- The lines of one start stand on both sides of the one of another, which leads nowhere. -/
theorem routes_merged_two_starts :
    let text := "London , Cardiff\n\n  # to the north\n\tGlasgow\r\nLondon,York, Cardiff\n"
    let map : Routes := [("London", ["Cardiff", "York", "Cardiff"]), ("Glasgow", [])]
    ∃ found, routes text = .ok found ∧ ∀ start, found.lookup start = map.lookup start := by
  intro text map
  let items : List (Option Row) := [some ("London", ["Cardiff"]), none, none, some ("Glasgow", []),
    some ("London", ["York", "Cardiff"]), none]
  have hgood : RoutesGood map := ⟨by decide, by decide, by decide⟩
  have hspreads : Spreads map items.reduceOption := by
    refine ⟨by decide, List.forall_mem_cons.2 ⟨?_, List.forall_mem_singleton.2 ?_⟩⟩
    · exact ⟨[["Cardiff"], ["York", "Cardiff"]], by decide, by decide, by decide⟩
    · exact ⟨[[]], by decide, by decide, by decide⟩
  have hwrites : Writes text.toList items := by
    have blank (left : List Char) (h : left.all Text.isBlank = true) :
        ∀ c ∈ left, Text.isBlank c = true := List.all_eq_true.1 h
    have bare (name : String) : Pads name.toList name := ⟨[], [], nofun, nofun, by simp⟩
    have indented (name : String) : Pads (' ' :: name.toList) name :=
      ⟨[' '], [], blank _ rfl, nofun, by simp⟩
    refine ⟨["London , Cardiff".toList, [], "  # to the north".toList, "\tGlasgow\r".toList,
      "London,York, Cardiff".toList, []], by decide, by decide, by decide, ?_⟩
    refine .cons ⟨["London ".toList, " Cardiff".toList], by decide, ?_⟩ (.cons (Or.inl nofun)
      (.cons (Or.inr ⟨"  ".toList, " to the north".toList, by decide, blank _ (by decide)⟩)
        (.cons ⟨["\tGlasgow\r".toList], by decide, ?_⟩
          (.cons ⟨["London".toList, "York".toList, " Cardiff".toList], by decide, ?_⟩
            (.cons (Or.inl nofun) .nil)))))
    · exact .cons ⟨[], [' '], nofun, blank _ rfl, by decide⟩ (.cons (indented "Cardiff") .nil)
    · exact .cons ⟨['\t'], ['\r'], blank _ rfl, blank _ rfl, by decide⟩ .nil
    · exact .cons (bare "London") (.cons (bare "York") (.cons (indented "Cardiff") .nil))
  obtain ⟨lines, -, -, -, -, -, hwritten⟩ := routes_merged text
  obtain ⟨found, hfound, -, hlookup⟩ := hwritten map items hgood hspreads hwrites
  exact ⟨found, hfound, hlookup⟩

end RouteCosts.Listing
