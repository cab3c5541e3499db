import RouteCosts.Proofs.Graph.Walk
import RouteCosts.Proofs.Listing.Names
import RouteCosts.Proofs.Source.Loading

/-! # Files that change while a source reads them

A file is written, removed or replaced in any order, and every now and then its source loads it. A
`Watch` follows this and notes what each load met and answered, so that it can be said which file
was the last to be taken over (`Watch.taken?`). What the source holds is the data of that file and
its stamp, at all times (`Watch.Holds`), and what one more load does follows from it
(`Watch.Reloads`): nothing at all, or everything.

* `Watch.Holds.step`, `Watch.holds_run`: what is held, after one event and after all.
* `LocationFile.find?_eq_some_iff`: the index of names leads to the location of the name.
* `reloads_coherent`: both sources of files, over all events. -/

namespace RouteCosts

/-! ### Watching a file and its source -/

/-- A file, a source that reads it, and the loads so far: each with the file that it met and its
answer, the last one first. -/
structure Watch (σ : Type) where
  file : FileState
  source : σ
  loads : List (FileState × Except SourceError Bool)

namespace Watch

variable {σ α : Type}

/-- What happens: something else stands at the path from now on, or the source loads the file. -/
inductive Event where
  | change (file : FileState)
  | load

/-- Nothing has been loaded yet. -/
def start (file : FileState) (source : σ) : Watch σ := ⟨file, source, []⟩

/-- The file that was taken over last: the one that the last load met which reported a change. -/
def taken? (watch : Watch σ) : Option FileState :=
  (watch.loads.find? fun entry => changed entry.2).map Prod.fst

section Run
variable (load : σ → FileState → Except SourceError Bool × σ)

/-- What an event leads to. -/
def step (watch : Watch σ) : Event → Watch σ
  | .change file => { watch with file := file }
  | .load =>
    let (answer, source) := load watch.source watch.file
    ⟨watch.file, source, (watch.file, answer) :: watch.loads⟩

/-- What events lead to, one after the other. -/
def run (watch : Watch σ) (events : List Event) : Watch σ := events.foldl (step load) watch

theorem taken?_step_load (watch : Watch σ) :
    (watch.step load .load).taken? =
      if changed (load watch.source watch.file).1 then some watch.file else watch.taken? := by
  unfold taken? step
  rw [List.find?_cons]
  cases changed (load watch.source watch.file).1 <;> rfl

/-- What every load preserves is true after all events. -/
theorem source_run {P : σ → Prop} (hload : ∀ source file, P source → P (load source file).2)
    {watch : Watch σ} (h : P watch.source) (events : List Event) :
    P (watch.run load events).source := by
  induction events generalizing watch with
  | nil => exact h
  | cons event events ih =>
    have hstep : P (watch.step load event).source := by
      cases event with
      | change file => exact h
      | load => exact hload _ _ h
    exact ih hstep

end Run

/-- All files that the loads have met, and the one that is there now. -/
def met (watch : Watch σ) : List FileState := watch.file :: watch.loads.map Prod.fst

theorem taken?_mem_met {watch : Watch σ} {file : FileState} (h : watch.taken? = some file) :
    file ∈ watch.met := by
  obtain ⟨entry, hentry, rfl⟩ := Option.map_eq_some_iff.1 h
  exact List.mem_cons_of_mem _ (List.mem_map_of_mem (List.mem_of_find?_eq_some hentry))

/-- Whenever two of the files had the same stamp, they had the same contents. -/
def StampsTell (watch : Watch σ) : Prop :=
  ∀ file ∈ watch.met, ∀ other ∈ watch.met, ∀ stamp,
    file.stamp? = some stamp → other.stamp? = some stamp → file.contents? = other.contents?

/-- **A source of a file**: seen as data and a stamp it loads like `FileSource`, and nothing about
it changes unless it reports a change. -/
structure Reads (load : σ → FileState → Except SourceError Bool × σ)
    (grammar : String → Except ListingError α) (view : σ → FileSource α) : Prop where
  answer : ∀ source file, (load source file).1 = ((view source).load grammar file).1
  view : ∀ source file, view (load source file).2 = ((view source).load grammar file).2
  unchanged : ∀ source file, changed (load source file).1 = false →
    (load source file).2 = source

/-- **What is held**: the data of the file that was taken over last and its stamp, or nothing. -/
structure Holds (grammar : String → Except ListingError α) (blank : α)
    (view : σ → FileSource α) (watch : Watch σ) : Prop where
  blank : watch.taken? = none → view watch.source = ⟨blank, none⟩
  taken : ∀ file, watch.taken? = some file →
    FileSource.Gives grammar file (view watch.source).data ∧
      (view watch.source).loaded = file.stamp?

/-- **What one more load does.** It reports no change if and only if the file has the stamp of the
one that was taken over last; otherwise it takes the file over if and only if the file gives data,
and holds just these then. In every other case the source is left as it was. As long as stamps tell
contents apart, what is held after a load that succeeds are the data of the file that is there. -/
structure Reloads (load : σ → FileState → Except SourceError Bool × σ)
    (grammar : String → Except ListingError α) (view : σ → FileSource α) (watch : Watch σ) :
    Prop where
  same_iff : (load watch.source watch.file).1 = .ok false ↔
    ∃ file stamp, watch.taken? = some file ∧ file.stamp? = some stamp ∧
      watch.file.stamp? = some stamp
  same : (load watch.source watch.file).1 = .ok false →
    (load watch.source watch.file).2 = watch.source
  taken_iff : (load watch.source watch.file).1 ≠ .ok false →
    ((load watch.source watch.file).1 = .ok true ↔
      ∃ data, FileSource.Gives grammar watch.file data)
  taken : (load watch.source watch.file).1 = .ok true →
    FileSource.Gives grammar watch.file (view (load watch.source watch.file).2).data
  failed : ∀ error, (load watch.source watch.file).1 = .error error →
    (load watch.source watch.file).2 = watch.source
  current : watch.StampsTell → ∀ news, (load watch.source watch.file).1 = .ok news →
    FileSource.Gives grammar watch.file (view (load watch.source watch.file).2).data

/-- The stamp that is remembered is that of the file taken over last. -/
theorem Holds.loaded_eq_iff {grammar : String → Except ListingError α} {blank : α}
    {view : σ → FileSource α} {watch : Watch σ} (h : watch.Holds grammar blank view)
    {stamp : Stamp} :
    (view watch.source).loaded = some stamp ↔
      ∃ file, watch.taken? = some file ∧ file.stamp? = some stamp := by
  cases ht : watch.taken? with
  | none =>
    rw [h.blank ht]
    exact ⟨nofun, nofun⟩
  | some file =>
    rw [(h.taken file ht).2]
    exact ⟨fun hf => ⟨file, rfl, hf⟩, fun ⟨other, ho, hf⟩ => Option.some.inj ho ▸ hf⟩

section Reads
variable {load : σ → FileState → Except SourceError Bool × σ}
  {grammar : String → Except ListingError α} {blank : α} {view : σ → FileSource α}
  (hr : Reads load grammar view) {watch : Watch σ}
include hr

theorem Holds.step (h : watch.Holds grammar blank view) (event : Event) :
    (watch.step load event).Holds grammar blank view := by
  cases event with
  | change file => exact ⟨h.blank, h.taken⟩
  | load =>
    have hanswer := hr.answer watch.source watch.file
    have hview := hr.view watch.source watch.file
    have htaken := watch.taken?_step_load load
    by_cases hc : changed (load watch.source watch.file).1 = true
    · rw [if_pos hc] at htaken
      refine ⟨fun hn => ?_, fun file hfile => ?_⟩
      · rw [htaken] at hn
        cases hn
      · obtain rfl := Option.some.inj (htaken.symm.trans hfile)
        rcases FileSource.load_cases grammar (view watch.source) watch.file with
          ⟨stamp, -, -, hl⟩ | ⟨-, ⟨data, hg, hl⟩ | ⟨error, -, hl⟩⟩
        · rw [hanswer, hl] at hc; cases hc
        · show FileSource.Gives grammar watch.file (view (load watch.source watch.file).2).data ∧
            (view (load watch.source watch.file).2).loaded = watch.file.stamp?
          rw [hview, hl]
          exact ⟨hg, rfl⟩
        · rw [hanswer, hl] at hc; cases hc
    · rw [if_neg hc] at htaken
      have hsource : (watch.step load .load).source = watch.source :=
        hr.unchanged _ _ (Bool.not_eq_true _ ▸ hc)
      refine ⟨fun hn => ?_, fun file hfile => ?_⟩
      · rw [hsource]
        exact h.blank (htaken ▸ hn)
      · rw [hsource]
        exact h.taken file (htaken ▸ hfile)

/-- By induction on the events. -/
theorem holds_run {source : σ} (hs : view source = ⟨blank, none⟩) (file : FileState)
    (events : List Event) : ((start file source).run load events).Holds grammar blank view := by
  have hall : ∀ watch : Watch σ, watch.Holds grammar blank view →
      (watch.run load events).Holds grammar blank view := by
    induction events with
    | nil => exact fun watch h => h
    | cons event events ih => exact fun watch h => ih _ (h.step hr event)
  exact hall _ ⟨fun _ => hs, nofun⟩

theorem Holds.reloads (h : watch.Holds grammar blank view) :
    watch.Reloads load grammar view := by
  have hanswer := hr.answer watch.source watch.file
  have hview := hr.view watch.source watch.file
  have hkeep : ∀ answer, (load watch.source watch.file).1 = answer → changed answer = false →
      (load watch.source watch.file).2 = watch.source := by
    rintro answer rfl hc
    exact hr.unchanged _ _ hc
  have hnew : (load watch.source watch.file).1 = .ok true →
      FileSource.Gives grammar watch.file (view (load watch.source watch.file).2).data := by
    intro hl
    have htaken : (watch.step load .load).taken? = some watch.file := by
      rw [taken?_step_load, hl]
      rfl
    exact ((h.step hr .load).taken watch.file htaken).1
  have hsame : (load watch.source watch.file).1 = .ok false ↔
      ∃ file stamp, watch.taken? = some file ∧ file.stamp? = some stamp ∧
        watch.file.stamp? = some stamp := by
    rw [hanswer]
    rcases FileSource.load_cases grammar (view watch.source) watch.file with
      ⟨stamp, hf, hl, hload⟩ | ⟨hdiffers, hload⟩
    · obtain ⟨file, ht, hs⟩ := h.loaded_eq_iff.1 hl
      rw [hload]
      exact ⟨fun _ => ⟨file, stamp, ht, hs, hf⟩, fun _ => rfl⟩
    · constructor
      · intro ho
        rcases hload with ⟨data, -, hl⟩ | ⟨error, -, hl⟩
        · rw [hl] at ho; cases ho
        · rw [hl] at ho; cases ho
      · rintro ⟨file, stamp, ht, hs, hf⟩
        exact absurd (h.loaded_eq_iff.2 ⟨file, ht, hs⟩) (hdiffers stamp hf)
  refine ⟨hsame, fun hl => hkeep _ hl rfl, fun hne => ?_, hnew, fun error hl => hkeep _ hl rfl,
    fun htell news hl => ?_⟩
  · rw [hanswer] at hne ⊢
    rcases FileSource.load_cases grammar (view watch.source) watch.file with
      ⟨stamp, -, -, hl⟩ | ⟨-, ⟨data, hg, hl⟩ | ⟨error, hg, hl⟩⟩
    · rw [hl] at hne; exact absurd rfl hne
    · rw [hl]; exact ⟨fun _ => ⟨data, hg⟩, fun _ => rfl⟩
    · rw [hl]; exact ⟨nofun, fun ⟨data, hd⟩ => absurd hd (hg data)⟩
  · cases news with
    | true => exact hnew hl
    | false =>
      obtain ⟨file, stamp, ht, hs, hf⟩ := hsame.1 hl
      rw [hkeep _ hl rfl]
      exact (h.taken file ht).1.of_contents?
        (htell file (taken?_mem_met ht) watch.file List.mem_cons_self stamp hs hf)

end Reads

end Watch

/-! ### The sources of files -/

/-- A file of locations and its source, after some events. -/
def LocationFile.watched (file : FileState) (events : List Watch.Event) : Watch LocationFile :=
  (Watch.start file .new).run (load Listing.locations) events

/-- A file of routes and its source, after some events. -/
def RouteFile.watched (file : FileState) (events : List Watch.Event) : Watch RouteFile :=
  (Watch.start file .new).run (FileSource.load Listing.routes) events

theorem RouteFile.reads :
    Watch.Reads (FileSource.load Listing.routes) Listing.routes (id : RouteFile → RouteFile) :=
  ⟨fun _ _ => rfl, fun _ _ => rfl, fun _ _ => FileSource.load_of_unchanged⟩

namespace LocationFile

theorem reads :
    Watch.Reads (load Listing.locations) Listing.locations LocationFile.toFileSource :=
  ⟨fun _ _ => rfl, fun _ _ => rfl, fun _ _ => load_of_unchanged⟩

/-- The index that is kept is the one of the locations that are kept. -/
theorem index_load {grammar : String → Except ListingError (List Location)}
    {source : LocationFile} (h : source.index = Location.positions source.data) (file : FileState) :
    (source.load grammar file).2.index =
      Location.positions (source.load grammar file).2.data := by
  by_cases hc : changed (source.load grammar file).1 = true
  · exact if_pos hc
  · rw [load_of_unchanged (Bool.not_eq_true _ ▸ hc), h]

theorem find?_eq_some_iff {source : LocationFile}
    (hi : source.index = Location.positions source.data)
    (hn : (source.data.map Location.name).Nodup) {name : String} {location : Location} :
    source.find? name = some location ↔ location ∈ source.data ∧ location.name = name := by
  rw [find?, hi, Graph.lookup_positions]
  constructor
  · intro h
    obtain ⟨place, hplace, hlocation⟩ := Option.bind_eq_some_iff.1 h
    obtain ⟨other, hother, hname⟩ := Graph.getElem?_of_lastIndex? hplace
    obtain rfl := Option.some.inj (hother.symm.trans hlocation)
    exact ⟨List.mem_of_getElem? hother, hname⟩
  · rintro ⟨hmem, rfl⟩
    obtain ⟨place, hplace⟩ := List.mem_iff_getElem?.1 hmem
    rw [Graph.lastIndex?_of_getElem? hn hplace]
    exact hplace

end LocationFile

/-- **Reloading is all or nothing, and what is held is coherent.** Whatever happens to the file and
whenever it is loaded, each source holds what it took over last, and reloads as `Watch.Reloads`
says; of the locations held no two share a name, and looking a name up finds the one that bears it,
if any does. -/
theorem reloads_coherent (file : FileState) (events : List Watch.Event) :
    ((LocationFile.watched file events).Holds Listing.locations [] LocationFile.toFileSource ∧
      (LocationFile.watched file events).Reloads (LocationFile.load Listing.locations)
        Listing.locations LocationFile.toFileSource ∧
      ((LocationFile.watched file events).source.data.map Location.name).Nodup ∧
      ∀ name location, (LocationFile.watched file events).source.find? name = some location ↔
        location ∈ (LocationFile.watched file events).source.data ∧ location.name = name) ∧
    (RouteFile.watched file events).Holds Listing.routes [] id ∧
      (RouteFile.watched file events).Reloads (FileSource.load Listing.routes)
        Listing.routes id := by
  have hplaces : (LocationFile.watched file events).Holds _ [] _ :=
    Watch.holds_run LocationFile.reads rfl file events
  have hroutes : (RouteFile.watched file events).Holds _ [] _ :=
    Watch.holds_run RouteFile.reads rfl file events
  refine ⟨⟨hplaces, hplaces.reloads LocationFile.reads, ?_⟩, hroutes,
    hroutes.reloads RouteFile.reads⟩
  have hindex : (LocationFile.watched file events).source.index =
      Location.positions (LocationFile.watched file events).source.data :=
    Watch.source_run
      (P := fun source : LocationFile => source.index = Location.positions source.data) _
      (fun _ file h => LocationFile.index_load h file) rfl events
  have hnodup : ((LocationFile.watched file events).source.data.map Location.name).Nodup := by
    cases ht : (LocationFile.watched file events).taken? with
    | none =>
      rw [hplaces.blank ht]
      exact List.nodup_nil
    | some met =>
      obtain ⟨contents, modified, text, -, -, hg⟩ := (hplaces.taken met ht).1
      exact (Listing.listed_of_locations hg).1.nodup
  exact ⟨hnodup, fun name location => LocationFile.find?_eq_some_iff hindex hnodup⟩

/-- A file that is loaded, then removed, and then missed by a load. -/
theorem reloads_after_removal :
    let file : FileState := .file (Utf8.bytes "a,7") ⟨0, 0⟩
    let watch := LocationFile.watched file [.load, .change .missing, .load]
    watch.taken? = some file ∧ watch.source.data = [.isolated "a" 7] ∧
      watch.source.find? "a" = some (.isolated "a" 7) := by
  intro file watch
  have hgives : FileSource.Gives Listing.locations file [.isolated "a" 7] :=
    ⟨_, _, "a,7", rfl, Utf8.decode?_bytes _, rfl⟩
  obtain ⟨⟨-, hfirst, -⟩, -⟩ := reloads_coherent file []
  obtain ⟨⟨hheld, -, -, hfind⟩, -⟩ := reloads_coherent file [.load, .change .missing, .load]
  have hload : (LocationFile.load Listing.locations .new file).1 = .ok true := by
    refine (hfirst.taken_iff fun h => ?_).2 ⟨_, hgives⟩
    obtain ⟨met, stamp, ht, -⟩ := hfirst.same_iff.1 h
    cases ht
  have htaken : watch.taken? = some file := by
    show (LocationFile.watched file [.load, .change .missing, .load]).taken? = _
    unfold LocationFile.watched Watch.run
    rw [List.foldl_cons, List.foldl_cons, List.foldl_cons, List.foldl_nil, Watch.taken?_step_load]
    show (Watch.step (LocationFile.load Listing.locations) (.start file .new) .load).taken? = _
    rw [Watch.taken?_step_load]
    show (if changed (LocationFile.load Listing.locations .new file).1 then _ else _) = _
    rw [hload]
    rfl
  have hdata : watch.source.data = [.isolated "a" 7] := by
    have hp := FileSource.parse_eq_ok_iff.2 (hheld.taken file htaken).1
    exact Except.ok.inj (hp.symm.trans (FileSource.parse_eq_ok_iff.2 hgives))
  exact ⟨htaken, hdata, (hfind _ _).2 ⟨hdata ▸ List.mem_cons_self, rfl⟩⟩

end RouteCosts
