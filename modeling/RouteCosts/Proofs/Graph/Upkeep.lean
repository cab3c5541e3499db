import RouteCosts.Proofs.Bytes.Utf8
import RouteCosts.Proofs.Graph.Walk
import RouteCosts.Proofs.Planner

/-! # A graph that keeps up with its sources

A planner wires its graph only when a source reports a change, so the graph might fall behind the
data. It does not, as long as the sources change in no other way (`LocationSource.Announces`,
`RouteSource.Announces`): whatever was asked, and whichever loads failed, the graph is the one that
would be wired now (`Planner.IsCurrent`). What that graph is, is said by `Graph.Mirrors` without the
functions that wire it; a name stands for the last location that bears it (`IsLast`).

* `Graph.mirrors_wire`: what wiring makes of any locations and any routes.
* `Planner.refresh_cases`: a refresh wires anew, or leaves the graph and asks nothing.
* `Planner.IsCurrent.refresh`, `Planner.isCurrent_run`: one refresh, and all requests.
* `Planner.run_mirrors`: the graph after any requests, and what the next refresh does. -/

namespace RouteCosts

/-! ### What a graph should be -/

/-- The last place at which a name stands. -/
def IsLast (names : List String) (name : String) (place : Nat) : Prop :=
  names[place]? = some name ∧ ∀ later, place < later → names[later]? ≠ some name

theorem IsLast.unique {names : List String} {name : String} {place other : Nat}
    (h : IsLast names name place) (h' : IsLast names name other) : place = other := by
  rcases Nat.lt_trichotomy place other with hlt | he | hlt
  · exact absurd h'.1 (h.2 other hlt)
  · exact he
  · exact absurd h.1 (h'.2 place hlt)

/-- **A graph mirrors its data**: it has the same locations, and the destinations of each are the
names among its routes that a location bears, once each and with the place that the name resolves
to, the last one at which it stands. -/
structure Graph.Mirrors (graph : Graph) (locations : List Location)
    (routes : String → List String) : Prop where
  places : graph.locations.toList.map (fun l => (l.name, l.cost)) =
    locations.map fun l => (l.name, l.cost)
  destination_iff : ∀ location ∈ graph.locations.toList, ∀ name,
    (∃ place, (name, place) ∈ location.destinations) ↔
      name ∈ routes location.name ∧ name ∈ locations.map Location.name
  isLast : ∀ location ∈ graph.locations.toList, ∀ name place,
    (name, place) ∈ location.destinations → IsLast graph.names name place
  nodup : ∀ location ∈ graph.locations.toList, (location.destinations.map Prod.fst).Nodup
  resolve?_iff : ∀ name place, graph.resolve? name = some place ↔ IsLast graph.names name place

namespace Graph

theorem lastIndex?_isLast {locations : List Location} {name : String} {place : Nat}
    (h : lastIndex? name locations = some place) :
    IsLast (locations.map Location.name) name place := by
  induction locations generalizing place with
  | nil => cases h
  | cons first rest ih =>
    rw [lastIndex?] at h
    cases hrest : lastIndex? name rest with
    | some i =>
      rw [hrest] at h
      obtain rfl := Option.some.inj h
      obtain ⟨hplace, hlater⟩ := ih hrest
      refine ⟨hplace, fun later hlt => ?_⟩
      obtain ⟨k, rfl⟩ : ∃ k, later = k + 1 := ⟨later - 1, by omega⟩
      exact hlater k (by omega)
    | none =>
      simp only [hrest] at h
      split at h
      next hname =>
        obtain rfl := Option.some.inj h
        refine ⟨congrArg some hname, fun later hlt hl => ?_⟩
        obtain ⟨k, rfl⟩ : ∃ k, later = k + 1 := ⟨later - 1, by omega⟩
        have hl' : (rest.map Location.name)[k]? = some name := hl
        obtain ⟨location, hmem, hln⟩ := List.mem_map.1 (List.mem_of_getElem? hl')
        exact lastIndex?_eq_none_iff.1 hrest location hmem hln
      · cases h

theorem lastIndex?_eq_some_iff {locations : List Location} {name : String} {place : Nat} :
    lastIndex? name locations = some place ↔ IsLast (locations.map Location.name) name place := by
  refine ⟨lastIndex?_isLast, fun h => ?_⟩
  cases hl : lastIndex? name locations with
  | some other => rw [(lastIndex?_isLast hl).unique h]
  | none =>
    obtain ⟨location, hmem, hname⟩ := List.mem_map.1 (List.mem_of_getElem? h.1)
    exact absurd hname (lastIndex?_eq_none_iff.1 hl location hmem)

theorem nodup_wireRoute {index : List (String × Nat)} {location : Location}
    (h : (location.destinations.map Prod.fst).Nodup) (name : String) :
    ((wireRoute index location name).destinations.map Prod.fst).Nodup := by
  unfold wireRoute
  split
  · exact h
  · split
    · exact Assoc.nodup_map_fst_insert h _ _
    · exact h

theorem nodup_wireLocation (index : List (String × Nat)) (routes : List String)
    (location : Location) :
    ((wireLocation index routes location).destinations.map Prod.fst).Nodup := by
  have hfold : ∀ location : Location, (location.destinations.map Prod.fst).Nodup →
      ((routes.foldl (wireRoute index) location).destinations.map Prod.fst).Nodup := by
    induction routes with
    | nil => exact fun location h => h
    | cons name routes ih => exact fun location h => ih _ (nodup_wireRoute h name)
  exact hfold location.clear List.nodup_nil

/-- **Wiring mirrors the data.** -/
theorem mirrors_wire (locations : List Location) (routes : String → List String) :
    (wire locations routes).Mirrors locations routes := by
  have hnames := names_wire locations routes
  have hmem : ∀ location ∈ (wire locations routes).locations.toList, ∃ listed ∈ locations,
      location = wireLocation (Location.positions locations) (routes listed.name) listed ∧
        location.name = listed.name := by
    intro location h
    obtain ⟨listed, hlisted, rfl⟩ := List.mem_map.1 h
    exact ⟨listed, hlisted, rfl, name_wireLocation _ _ _⟩
  refine ⟨?_, fun location h name => ?_, fun location h name place hd => ?_, fun location h => ?_,
    fun name place => ?_⟩
  · show (locations.map _).map _ = _
    rw [List.map_map]
    refine List.map_congr_left fun location _ => ?_
    show (_, _) = _
    rw [name_wireLocation, cost_wireLocation]
  · obtain ⟨listed, -, rfl, hname⟩ := hmem location h
    have hwired := wired_wireLocation locations (routes listed.name) listed
    rw [hname]
    constructor
    · rintro ⟨place, hd⟩
      obtain ⟨hroute, hplace⟩ := (hwired name place).1 hd
      exact ⟨hroute, List.mem_of_getElem? (lastIndex?_isLast hplace).1⟩
    · rintro ⟨hroute, hborne⟩
      obtain ⟨bearer, hbearer, hb⟩ := List.mem_map.1 hborne
      cases hplace : lastIndex? name locations with
      | some place => exact ⟨place, (hwired name place).2 ⟨hroute, hplace⟩⟩
      | none => exact absurd hb (lastIndex?_eq_none_iff.1 hplace bearer hbearer)
  · obtain ⟨listed, -, rfl, -⟩ := hmem location h
    rw [hnames]
    exact lastIndex?_isLast ((wired_wireLocation locations _ listed name place).1 hd).2
  · obtain ⟨listed, -, rfl, -⟩ := hmem location h
    exact nodup_wireLocation _ _ _
  · rw [hnames, ← lastIndex?_eq_some_iff, ← lookup_positions]
    exact Iff.rfl

end Graph

/-! ### Sources that report their changes -/

/-- The locations change in no load but one that reports it. -/
def LocationSource.Announces (σ : Type) {ε : Type} [LocationSource σ ε] : Prop :=
  ∀ (source : σ) (outside : ε), changed (load source outside).1 = false →
    locations (load source outside).2 = locations source

/-- The routes change in no load but one that reports it. -/
def RouteSource.Announces (τ : Type) {ζ : Type} [RouteSource τ ζ] : Prop :=
  ∀ (source : τ) (outside : ζ), changed (load source outside).1 = false →
    routes (load source outside).2 = routes source

theorem LocationFile.announces : LocationSource.Announces LocationFile :=
  fun _ _ h => congrArg LocationSource.locations (LocationFile.load_of_unchanged h)

theorem RouteFile.announces : RouteSource.Announces RouteFile :=
  fun _ _ h => congrArg RouteSource.routes (FileSource.load_of_unchanged h)

namespace Planner

variable {σ τ ε ζ : Type} [LocationSource σ ε] [RouteSource τ ζ]

/-- What a planner is asked for. -/
inductive Request where
  | setup
  | names
  | costByName (start finish : String)
  /-- By index, on the graph that is there. -/
  | cost (start finish : Nat)

/-- The planner after a request. -/
def after (planner : Planner σ τ) (outside : ε × ζ) : Request → Planner σ τ
  | .setup | .names => planner.refresh outside
  | .costByName start finish => (planner.costByName outside start finish).2
  | .cost _ _ => planner

/-- The planner after requests, each with what is outside at that time. -/
def run (planner : Planner σ τ) (requests : List ((ε × ζ) × Request)) : Planner σ τ :=
  requests.foldl (fun planner request => planner.after request.1 request.2) planner

/-- One of the sources reports a change. -/
def hasNews (planner : Planner σ τ) (outside : ε × ζ) : Bool :=
  changed (LocationSource.load planner.locationSource outside.1).1 ||
    changed (RouteSource.load planner.routeSource outside.2).1

/-- **The graph is the one that would be wired now.** -/
def IsCurrent (planner : Planner σ τ) : Prop :=
  planner.graph = .wire (LocationSource.locations planner.locationSource)
    (RouteSource.routes planner.routeSource)

theorem IsCurrent.mirrors {planner : Planner σ τ} (h : planner.IsCurrent) :
    planner.graph.Mirrors (LocationSource.locations planner.locationSource)
      (RouteSource.routes planner.routeSource) := by
  have hwire := Graph.mirrors_wire (LocationSource.locations planner.locationSource)
    (RouteSource.routes planner.routeSource)
  rwa [← h] at hwire

theorem isCurrent_new {locationSource : σ}
    (hempty : LocationSource.locations locationSource = []) (routeSource : τ) :
    (Planner.new locationSource routeSource).IsCurrent := by
  unfold IsCurrent Planner.new
  rw [hempty]
  rfl

/-- A refresh wires the graph anew and asks for the routes of every location, or does neither. -/
theorem refresh_cases (planner : Planner σ τ) (outside : ε × ζ) :
    (planner.hasNews outside = true ∧ (planner.refresh outside).IsCurrent ∧
      (planner.refresh outside).lookups =
        planner.lookups + (planner.refresh outside).graph.size) ∨
    (planner.hasNews outside = false ∧ (planner.refresh outside).graph = planner.graph ∧
      (planner.refresh outside).lookups = planner.lookups) := by
  cases hn : planner.hasNews outside with
  | true =>
    have hr : planner.refresh outside = _ := if_pos hn
    rw [hr, rewire_eq]
    exact Or.inl ⟨rfl, rfl, by rw [Graph.size_wire]⟩
  | false =>
    have hr : planner.refresh outside = _ := if_neg (Bool.not_eq_true _ ▸ hn)
    rw [hr]
    exact Or.inr ⟨rfl, rfl, rfl⟩

section Announces
variable (hl : LocationSource.Announces σ) (hr : RouteSource.Announces τ)
  {planner : Planner σ τ}
include hl hr

theorem IsCurrent.refresh (h : planner.IsCurrent) (outside : ε × ζ) :
    (planner.refresh outside).IsCurrent := by
  rcases planner.refresh_cases outside with ⟨-, hcurrent, -⟩ | ⟨hn, hgraph, -⟩
  · exact hcurrent
  · obtain ⟨hls, hrs⟩ := planner.sources_refresh outside
    obtain ⟨hlocations, hroutes⟩ := Bool.or_eq_false_iff.1 hn
    unfold IsCurrent
    rw [hgraph, hls, hrs, hl _ _ hlocations, hr _ _ hroutes]
    exact h

/-- By induction on the requests: all of them but the one by index begin with a refresh. -/
theorem isCurrent_run (h : planner.IsCurrent) (requests : List ((ε × ζ) × Request)) :
    (planner.run requests).IsCurrent := by
  induction requests generalizing planner with
  | nil => exact h
  | cons request requests ih =>
    have hafter : (planner.after request.1 request.2).IsCurrent := by
      cases request.2 with
      | setup => exact h.refresh hl hr request.1
      | names => exact h.refresh hl hr request.1
      | costByName start finish => exact h.refresh hl hr request.1
      | cost start finish => exact h
    exact ih hafter

/-- **The graph is never stale.** It mirrors what the sources hold, after any requests to a planner
that began without locations. The next refresh loads both sources; if neither reports a change, it
leaves the graph and asks for no routes, and otherwise it asks once for those of every location. A
cost by name is the cost between the places that the names resolve to in the refreshed graph. -/
theorem run_mirrors (locationSource : σ)
    (hempty : LocationSource.locations locationSource = []) (routeSource : τ)
    (requests : List ((ε × ζ) × Request)) :
    let planner := (Planner.new locationSource routeSource).run requests
    planner.graph.Mirrors (LocationSource.locations planner.locationSource)
        (RouteSource.routes planner.routeSource) ∧
      ∀ outside,
        let next := planner.refresh outside
        (next.locationSource = (LocationSource.load planner.locationSource outside.1).2 ∧
          next.routeSource = (RouteSource.load planner.routeSource outside.2).2) ∧
        (planner.hasNews outside = false →
          next.graph = planner.graph ∧ next.lookups = planner.lookups) ∧
        (planner.hasNews outside = true →
          next.lookups = planner.lookups + next.graph.size) ∧
        ∀ start finish i j, IsLast next.graph.names start i → IsLast next.graph.names finish j →
          planner.costByName outside start finish = (next.graph.cost i j, next) := by
  intro planner
  have hcurrent : planner.IsCurrent :=
    isCurrent_run hl hr (isCurrent_new hempty routeSource) requests
  refine ⟨hcurrent.mirrors, fun outside => ?_⟩
  intro next
  refine ⟨planner.sources_refresh outside, fun hn => ?_, fun hn => ?_,
    fun start finish i j hi hj => ?_⟩
  · rcases planner.refresh_cases outside with ⟨hc, -⟩ | ⟨-, hgraph, hlookups⟩
    · rw [hn] at hc; cases hc
    · exact ⟨hgraph, hlookups⟩
  · rcases planner.refresh_cases outside with ⟨-, -, hlookups⟩ | ⟨hc, -⟩
    · exact hlookups
    · rw [hn] at hc; cases hc
  · have hm := (hcurrent.refresh hl hr outside).mirrors
    show (next.graph.costByName start finish, next) = _
    rw [Graph.costByName, (hm.resolve?_iff start i).2 hi, (hm.resolve?_iff finish j).2 hj]

end Announces

/-- The files are loaded once, and gone when the names are asked for. -/
theorem run_mirrors_two_files :
    let files : DataFiles :=
      (.file (Utf8.bytes "a,7\nb,1") ⟨0, 0⟩, .file (Utf8.bytes "a,b,b,c") ⟨0, 0⟩)
    let planner := FilePlanner.new.run [(files, .setup), ((.missing, .missing), .names)]
    planner.graph.Mirrors [.isolated "a" 7, .isolated "b" 1]
        (Routes.ofStart [("a", ["b", "b", "c"])]) ∧
      (planner.refresh files).lookups = planner.lookups := by
  intro files planner
  have hpl : FileSource.parse Listing.locations files.1 =
      .ok [.isolated "a" 7, .isolated "b" 1] :=
    FileSource.parse_eq_ok_iff.2 ⟨_, _, "a,7\nb,1", rfl, Utf8.decode?_bytes _, rfl⟩
  have hpr : FileSource.parse Listing.routes files.2 = .ok [("a", ["b", "b", "c"])] :=
    FileSource.parse_eq_ok_iff.2 ⟨_, _, "a,b,b,c", rfl, Utf8.decode?_bytes _, rfl⟩
  obtain ⟨hl, hr⟩ := Planner.sources_refresh FilePlanner.new files
  obtain ⟨hl', hr'⟩ := (FilePlanner.new.refresh files).sources_refresh (.missing, .missing)
  replace hl' := (hl'.trans (LocationFile.load_of_unchanged rfl)).trans hl
  replace hr' := (hr'.trans (FileSource.load_of_unchanged rfl)).trans hr
  have hlocations : planner.locationSource.toFileSource =
      ⟨[.isolated "a" 7, .isolated "b" 1], files.1.stamp?⟩ := by
    have hload := FileSource.load_new Listing.locations [] files.1
    rw [hpl] at hload
    exact (congrArg LocationFile.toFileSource hl').trans (congrArg Prod.snd hload)
  have hroutes : planner.routeSource = ⟨[("a", ["b", "b", "c"])], files.2.stamp?⟩ := by
    have hload := FileSource.load_new Listing.routes [] files.2
    rw [hpr] at hload
    exact hr'.trans (congrArg Prod.snd hload)
  obtain ⟨hmirrors, hnext⟩ := Planner.run_mirrors LocationFile.announces RouteFile.announces
    .new rfl .new [(files, .setup), ((.missing, .missing), .names)]
  have hsame : planner.hasNews files = false := by
    have hl : (planner.locationSource.toFileSource.load Listing.locations files.1).1 =
        .ok false := by
      rw [hlocations]
      exact congrArg Prod.fst (if_pos ⟨rfl, rfl⟩)
    have hr : (planner.routeSource.load Listing.routes files.2).1 = .ok false := by
      rw [hroutes]
      exact congrArg Prod.fst (if_pos ⟨rfl, rfl⟩)
    exact Bool.or_eq_false_iff.2 ⟨congrArg changed hl, congrArg changed hr⟩
  refine ⟨?_, ((hnext files).2.1 hsame).2⟩
  have hd : LocationSource.locations planner.locationSource =
      [.isolated "a" 7, .isolated "b" 1] := congrArg FileSource.data hlocations
  have hd' : RouteSource.routes planner.routeSource = Routes.ofStart [("a", ["b", "b", "c"])] :=
    congrArg RouteSource.routes hroutes
  rw [← hd, ← hd']
  exact hmirrors

end Planner

end RouteCosts
