import RouteCosts.Planner
import RouteCosts.Proofs.Source.Loading

/-!
# Planners on files that stay

A source that has just loaded a file has nothing to load from it again, and so a planner that is
fresh stays as it is (`Planner.refresh_refresh`). A new planner that is asked for the first time
wires the places of the one file with the routes of the other, or with none if the latter gives none
(`FilePlanner.graph_refresh_new`).
-/

namespace RouteCosts

/-- The routes that a source answers with. -/
def RouteSource.routes {τ ζ : Type} [RouteSource τ ζ] (source : τ) (start : String) : List String :=
  (ask source start 0).1

/-- What wiring makes of a planner: every location is asked for once. -/
theorem Planner.rewire_eq {σ τ ε ζ : Type} [LocationSource σ ε] [RouteSource τ ζ]
    (planner : Planner σ τ) :
    planner.rewire =
      let locations := LocationSource.locations planner.locationSource
      { planner with
        graph := .wire locations (RouteSource.routes planner.routeSource)
        lookups := planner.lookups + locations.length } := by
  rw [rewire, Graph.wireAsking_counted (RouteSource.ask_eq planner.routeSource)]
  rfl

/-- A refresh loads both sources, whatever either of them answers. -/
theorem Planner.sources_refresh {σ τ ε ζ : Type} [LocationSource σ ε] [RouteSource τ ζ]
    (planner : Planner σ τ) (outside : ε × ζ) :
    (planner.refresh outside).locationSource =
        (LocationSource.load planner.locationSource outside.1).2 ∧
      (planner.refresh outside).routeSource =
        (RouteSource.load planner.routeSource outside.2).2 := by
  unfold refresh
  dsimp only
  split
  · exact ⟨rfl, rfl⟩
  · exact ⟨rfl, rfl⟩

theorem Planner.refresh_of_unchanged {planner : FilePlanner} {files : DataFiles}
    (hl : changed (planner.locationSource.load Listing.locations files.1).1 = false)
    (hr : changed (planner.routeSource.load Listing.routes files.2).1 = false) :
    planner.refresh files = planner := by
  have hc : (changed (LocationSource.load planner.locationSource files.1).1 ||
      changed (RouteSource.load planner.routeSource files.2).1) = false :=
    Bool.or_eq_false_iff.2 ⟨hl, hr⟩
  have hlocations : (LocationSource.load planner.locationSource files.1).2 =
      planner.locationSource := LocationFile.load_of_unchanged hl
  have hroutes : (RouteSource.load planner.routeSource files.2).2 = planner.routeSource :=
    FileSource.load_of_unchanged hr
  unfold refresh
  dsimp only
  rw [hc, hlocations, hroutes]
  rfl

/-- **A fresh planner stays as it is**, as long as the files do. -/
theorem Planner.refresh_refresh (planner : FilePlanner) (files : DataFiles) :
    (planner.refresh files).refresh files = planner.refresh files := by
  obtain ⟨hlocations, hroutes⟩ := planner.sources_refresh files
  refine refresh_of_unchanged ?_ ?_
  · rw [hlocations]
    exact LocationFile.changed_load_load
  · rw [hroutes]
    exact FileSource.changed_load_load _ _ _

/-- The routes that a file lists, none if it can not be read or does not follow its grammar. -/
def Routes.ofFile (file : FileState) : Routes :=
  match FileSource.parse Listing.routes file with
  | .ok routes => routes
  | .error _ => []

/-- **The graph of a new planner** once it has seen its files. -/
theorem FilePlanner.graph_refresh_new {files : DataFiles} {places : List Location}
    (h : FileSource.parse Listing.locations files.1 = .ok places) :
    (FilePlanner.new.refresh files).graph = .wire places (Routes.ofFile files.2).ofStart := by
  have hl : LocationSource.load LocationFile.new files.1 =
      (.ok true, ⟨⟨places, files.1.stamp?⟩, Location.positions places⟩) := by
    have hload := FileSource.load_new Listing.locations [] files.1
    rw [h] at hload
    show LocationFile.load Listing.locations ⟨⟨[], none⟩, []⟩ files.1 = _
    rw [LocationFile.load, hload]
    rfl
  have hr : RouteSource.routes (RouteSource.load RouteFile.new files.2).2 =
      (Routes.ofFile files.2).ofStart := by
    show Routes.ofStart (FileSource.load Listing.routes ⟨[], none⟩ files.2).2.data = _
    rw [FileSource.load_new, Routes.ofFile]
    cases FileSource.parse Listing.routes files.2 <;> rfl
  have hnews : (changed (LocationSource.load LocationFile.new files.1).1 ||
      changed (RouteSource.load RouteFile.new files.2).1) = true := by
    rw [hl]
    rfl
  have hrefresh : FilePlanner.new.refresh files = Planner.rewire _ := if_pos hnews
  rw [hrefresh, Planner.rewire_eq]
  show Graph.wire (LocationSource.locations (LocationSource.load LocationFile.new files.1).2)
    (RouteSource.routes (RouteSource.load RouteFile.new files.2).2) = _
  rw [hl, hr]
  rfl

end RouteCosts
