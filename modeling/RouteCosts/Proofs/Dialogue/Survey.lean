import RouteCosts.Dialogue.Enquiry
import RouteCosts.Network.Server
import RouteCosts.Proofs.Dialogue.Course
import RouteCosts.Proofs.Graph.Search
import RouteCosts.Proofs.Listing.Names
import RouteCosts.Proofs.Planner

/-!
# What an enquiry learns from a server

An enquiry that is answered by a server on files that stay as they are learns all names that the
file of locations lists, page by page, and what the route it wants costs. Each page holds at least
one name that was not there before, so that as many requests as there are names are enough for them
(`pages_surveyed`); one more asks for the route (`route_surveyed`). The main statement is
`survey_complete`.
-/

namespace RouteCosts

variable {η : Type}

/-! ### Handlers with a clock -/

/-- A handler that is told the time at each call. -/
def Handler.ticking (clock : Nat → Int64) (answer : Int64 → Handler η) : Handler (Nat × η) :=
  fun (calls, state) message =>
    let (reply, state) := answer (clock calls) state message
    (reply, calls + 1, state)

theorem Handler.ticking_eq {clock : Nat → Int64} {answer : Int64 → Handler η} {calls : Nat}
    {state next : η} {message : Message} {reply : Option Message}
    (h : answer (clock calls) state message = (reply, next)) :
    Handler.ticking clock answer (calls, state) message = (reply, calls + 1, next) := by
  unfold ticking
  dsimp only
  rw [h]

/-! ### What is wanted -/

/-- The first place on a list that bears a name, up to the case of ASCII letters. -/
structure FirstNamed (names : List String) (name : String) (index : Nat) : Prop where
  named : ∃ listed, names[index]? = some listed ∧ Text.foldCase listed = Text.foldCase name
  first : ∀ earlier < index, ∀ listed, names[earlier]? = some listed →
    Text.foldCase listed ≠ Text.foldCase name

theorem firstNamed_iff {names : List String} {name : String} {index : Nat} :
    FirstNamed names name index ↔
      names.findIdx? (fun listed => Text.sameIgnoringCase listed name) = some index := by
  rw [List.findIdx?_eq_some_iff_getElem]
  constructor
  · rintro ⟨⟨listed, hl, hn⟩, hf⟩
    obtain ⟨hlt, rfl⟩ := List.getElem?_eq_some_iff.1 hl
    refine ⟨hlt, Text.sameIgnoringCase_iff.2 hn, fun j hj => ?_⟩
    have hjlt : j < names.length := Nat.lt_trans hj hlt
    rw [Text.sameIgnoringCase_iff]
    exact hf j hj _ (List.getElem?_eq_getElem hjlt)
  · rintro ⟨hlt, hn, hf⟩
    refine ⟨⟨_, List.getElem?_eq_getElem hlt, Text.sameIgnoringCase_iff.1 hn⟩,
      fun j hj listed hl => ?_⟩
    obtain ⟨hjlt, rfl⟩ := List.getElem?_eq_some_iff.1 hl
    have := hf j hj
    rwa [Text.sameIgnoringCase_iff] at this

theorem FirstNamed.lt {names : List String} {name : String} {index : Nat}
    (h : FirstNamed names name index) : index < names.length := by
  obtain ⟨listed, hl, -⟩ := h.named
  exact (List.getElem?_eq_some_iff.1 hl).1

theorem FirstNamed.unique {names : List String} {name : String} {i j : Nat}
    (hi : FirstNamed names name i) (hj : FirstNamed names name j) : i = j :=
  Option.some.inj ((firstNamed_iff.1 hi).symm.trans (firstNamed_iff.1 hj))

/-- A route is wanted between the listed places with these indices. -/
def Wanted (names : List String) (route : Option (String × String)) (i j : Nat) : Prop :=
  ∃ start finish, route = some (start, finish) ∧ FirstNamed names start i ∧
    FirstNamed names finish j

theorem Wanted.unique {names : List String} {route : Option (String × String)} {i j i' j' : Nat}
    (h : Wanted names route i j) (h' : Wanted names route i' j') : i = i' ∧ j = j' := by
  obtain ⟨start, finish, rfl, hi, hj⟩ := h
  obtain ⟨start', finish', hr, hi', hj'⟩ := h'
  obtain ⟨rfl, rfl⟩ := Prod.mk.inj (Option.some.inj hr)
  exact ⟨hi.unique hi', hj.unique hj'⟩

section Fare
variable (places : List Location) (routes : String → List String)

/-- **The fare**: the least cost of a walk between the places that a route is wanted between. -/
def Fare (route : Option (String × String)) (total : Nat) : Prop :=
  ∃ i j, Wanted (places.map Location.name) route i j ∧
    IsLeast {total | Walk (Listing.Leads places routes) (Listing.price places) i j total} total

/-- A route is wanted between listed places, and there is no walk. -/
def Stranded (route : Option (String × String)) : Prop :=
  ∃ i j, Wanted (places.map Location.name) route i j ∧
    ∀ total, ¬ Walk (Listing.Leads places routes) (Listing.price places) i j total

end Fare

/-! ### The enquiry -/

namespace Enquiry

theorem routeBody?_of_wanted {enquiry : Enquiry} {i j : Nat}
    (h : Wanted enquiry.locations enquiry.route i j) :
    enquiry.routeBody? = some (.routeRequest (UInt64.ofNat i) (UInt64.ofNat j)) := by
  obtain ⟨start, finish, hr, hi, hj⟩ := h
  have hi' : enquiry.indexOf? start = some i := firstNamed_iff.1 hi
  have hj' : enquiry.indexOf? finish = some j := firstNamed_iff.1 hj
  rw [routeBody?, hr]
  dsimp only
  rw [hi', hj']

theorem routeBody?_eq_none {enquiry : Enquiry}
    (h : ∀ i j, ¬ Wanted enquiry.locations enquiry.route i j) : enquiry.routeBody? = none := by
  cases hr : enquiry.routeBody? with
  | none => rfl
  | some body =>
    exfalso
    rw [routeBody?] at hr
    split at hr
    · cases hr
    next start finish hroute =>
      split at hr
      next i j hi hj =>
        exact h i j ⟨start, finish, hroute, firstNamed_iff.2 hi, firstNamed_iff.2 hj⟩
      · cases hr

/-- The enquiry that has taken a page over. -/
def withPage (enquiry : Enquiry) (page : Page) : Enquiry :=
  { enquiry with locations := enquiry.locations ++ page.names }

/-- A page that is marked and not empty is followed by the next one. -/
theorem acceptPage_of_paginated (enquiry : Enquiry) {page : Page} (hp : page.paginated = true)
    (hn : page.names ≠ []) :
    enquiry.acceptPage page =
      (some (.locationsRequest (UInt64.ofNat (enquiry.withPage page).locations.length)),
        enquiry.withPage page) := by
  have he : (page.paginated && !page.names.isEmpty) = true := by
    rw [hp, List.isEmpty_eq_false_iff.2 hn]
    rfl
  exact if_pos he

section Last
variable (enquiry : Enquiry) {page : Page} (hp : page.paginated = false ∨ page.names = [])
include hp

theorem acceptPage_of_last :
    enquiry.acceptPage page =
      match (enquiry.withPage page).routeBody? with
      | some body => (some body, { enquiry.withPage page with phase := .awaitingRoute })
      | none => (none, (enquiry.withPage page).finish) := by
  have he : ¬ (page.paginated && !page.names.isEmpty) = true := by
    rcases hp with hp | hp
    · rw [hp]
      exact Bool.false_ne_true
    · rw [hp, List.isEmpty_nil, Bool.not_true, Bool.and_false]
      exact Bool.false_ne_true
  exact if_neg he

theorem acceptPage_of_wanted {i j : Nat}
    (h : Wanted (enquiry.withPage page).locations enquiry.route i j) :
    enquiry.acceptPage page = (some (.routeRequest (UInt64.ofNat i) (UInt64.ofNat j)),
      { enquiry.withPage page with phase := .awaitingRoute }) := by
  rw [acceptPage_of_last enquiry hp, routeBody?_of_wanted h]

theorem acceptPage_of_not_wanted
    (h : ∀ i j, ¬ Wanted (enquiry.withPage page).locations enquiry.route i j) :
    enquiry.acceptPage page = (none, (enquiry.withPage page).finish) := by
  rw [acceptPage_of_last enquiry hp, routeBody?_eq_none h]

end Last

theorem answer_page {enquiry next : Enquiry} {page : Page} {body : Option Body}
    (hphase : enquiry.phase = .awaitingLocations) (h : enquiry.acceptPage page = (body, next))
    (now time : Int64) :
    enquiry.answer now (.stamped time (.locationsResponse page)) =
      (body.map (.stamped now), next) := by
  unfold answer accept
  rw [hphase]
  show (Option.map _ (enquiry.acceptPage page).1, (enquiry.acceptPage page).2) = _
  rw [h]

theorem answer_route {enquiry : Enquiry} (now time : Int64) {cost : UInt64}
    (hphase : enquiry.phase = .awaitingRoute) :
    enquiry.answer now (.stamped time (.routeResponse cost)) =
      (none, { enquiry with cost := some cost }.finish) := by
  unfold answer accept
  rw [hphase]
  rfl

end Enquiry

/-! ### The server -/

/-- A planner that shows some files as a new one does. -/
def Current (files : DataFiles) (planner : FilePlanner) : Prop :=
  planner.refresh files = FilePlanner.new.refresh files

theorem current_new (files : DataFiles) : Current files FilePlanner.new := rfl

theorem current_refresh (files : DataFiles) : Current files (FilePlanner.new.refresh files) :=
  Planner.refresh_refresh _ _

theorem listed_of_parse {file : FileState} {places : List Location}
    (h : FileSource.parse Listing.locations file = .ok places) :
    Listing.Listed places ∧ places ≠ [] := by
  unfold FileSource.parse at h
  split at h
  · cases h
  next text _ =>
    split at h
    · cases h
    next data hdata =>
      obtain rfl := Except.ok.inj h
      exact Listing.listed_of_locations hdata

/-- **The page from an index on.** It gives some of the names that follow, at least one, and is
marked if and only if there are more of them. -/
theorem page_from {places : List Location} (hl : Listing.Listed places) {count : Nat}
    (hcount : count < places.length) {page : Page}
    (hpage : page = Page.empty.addAll ((places.map Location.name).drop count)) :
    page.names ≠ [] ∧ ∃ known, count < known ∧ known ≤ places.length ∧
      (places.map Location.name).take count ++ page.names =
        (places.map Location.name).take known ∧
      (page.paginated = true ↔ known < places.length) := by
  have hlength : (places.map Location.name).length = places.length := List.length_map _
  obtain ⟨taken, hlongest⟩ :=
    Page.longestFrom_addAll (fun name hm => hl.of_mem_names hm) (Nat.le_of_lt (hlength ▸ hcount))
  rw [← hpage] at hlongest
  have hone := hlongest.progress (by omega)
  have hbound := hlongest.longest.1.1
  refine ⟨?_, count + taken, by omega, by omega, ?_, ?_⟩
  · rw [hlongest.names_eq, Ne, List.take_eq_nil_iff, List.drop_eq_nil_iff]
    omega
  · rw [hlongest.names_eq, List.take_add]
  · rw [hlongest.paginated_iff, hlength]

section Server
variable {files : DataFiles} {places : List Location}
  (hp : FileSource.parse Listing.locations files.1 = .ok places) {planner : FilePlanner}
  (hc : Current files planner) (now time : Int64)
include hp hc

/-- A request for names is answered with the page of those from its index on. -/
theorem handler_page {start : UInt64} (h : start.toNat ≤ places.length) :
    Server.handler now files planner (.stamped time (.locationsRequest start)) =
      (some (.stamped now (.locationsResponse
        (Page.empty.addAll ((places.map Location.name).drop start.toNat)))),
        FilePlanner.new.refresh files) := by
  have hnames : (FilePlanner.new.refresh files).graph.names = places.map Location.name := by
    rw [FilePlanner.graph_refresh_new hp, Graph.names_wire]
  have hpage : Service.pageOf (FilePlanner.new.refresh files).graph.names start =
      .ok (Page.empty.addAll ((places.map Location.name).drop start.toNat)) := by
    rw [hnames, Service.pageOf, if_pos (by rwa [List.length_map])]
  show ((Service.page now files planner start).1.toOption,
    (Service.page now files planner start).2) = _
  unfold Service.page
  dsimp only
  rw [show planner.refresh files = _ from hc, hpage]
  rfl

theorem handler_route {i j : Nat} (hn : places.length < UInt64.size) (hi : i < places.length)
    (hj : j < places.length) :
    Server.handler now files planner
        (.stamped time (.routeRequest (UInt64.ofNat i) (UInt64.ofNat j))) =
      (match (Graph.wire places (Routes.ofFile files.2).ofStart).cost i j with
        | .ok cost => some (.stamped now (.routeResponse (UInt64.ofNat cost)))
        | .error _ => none, FilePlanner.new.refresh files) := by
  have hgraph := FilePlanner.graph_refresh_new hp
  have hnat {k : Nat} (hk : k < places.length) : (UInt64.ofNat k).toNat = k :=
    UInt64.toNat_ofNat_of_lt' (Nat.lt_trans hk hn)
  show ((Service.route now files planner (UInt64.ofNat i) (UInt64.ofNat j)).1.toOption,
    (Service.route now files planner (UInt64.ofNat i) (UInt64.ofNat j)).2) = _
  unfold Service.route
  dsimp only
  rw [show planner.refresh files = _ from hc, hgraph, Service.costOf, hnat hi, hnat hj,
    Graph.size_wire, if_pos hi, if_pos hj]
  cases (Graph.wire places (Routes.ofFile files.2).ofStart).cost i j with
  | ok cost => rfl
  | error error => rfl

end Server

/-! ### The rounds of a survey -/

/-- **A survey that is over**: how it ended, what the enquiry has learnt, and what of it. -/
structure Surveyed (places : List Location) (routes : String → List String)
    (route : Option (String × String)) (ending : Option Party) (enquiry : Enquiry) : Prop where
  ended : ending ≠ none
  locations : enquiry.locations = places.map Location.name
  cost_of_fare : ∀ total, Fare places routes route total →
    enquiry.cost = some (UInt64.ofNat total)
  cost_eq_none : (∀ total, ¬ Fare places routes route total) → enquiry.cost = none
  server_iff : ending = some .server ↔ Stranded places routes route

section Surveyed
variable {places : List Location} {routes : String → List String}
  {route : Option (String × String)}

theorem surveyed_of_not_wanted {enquiry : Enquiry}
    (hl : enquiry.locations = places.map Location.name) (hcost : enquiry.cost = none)
    (h : ∀ i j, ¬ Wanted (places.map Location.name) route i j) :
    Surveyed places routes route (some .client) enquiry where
  ended := nofun
  locations := hl
  cost_of_fare := fun _ ⟨i, j, hw, _⟩ => absurd hw (h i j)
  cost_eq_none := fun _ => hcost
  server_iff := ⟨nofun, fun ⟨i, j, hw, _⟩ => absurd hw (h i j)⟩

variable {i j : Nat} (hw : Wanted (places.map Location.name) route i j)
include hw

theorem surveyed_of_isLeast {enquiry : Enquiry}
    (hl : enquiry.locations = places.map Location.name) {cost : Nat}
    (hcost : enquiry.cost = some (UInt64.ofNat cost))
    (h : IsLeast {total | Walk (Listing.Leads places routes) (Listing.price places) i j total}
      cost) : Surveyed places routes route (some .client) enquiry where
  ended := nofun
  locations := hl
  cost_of_fare := fun total ⟨i', j', hw', h'⟩ => by
    obtain ⟨rfl, rfl⟩ := hw.unique hw'
    rw [hcost, Nat.le_antisymm (h.2 h'.1) (h'.2 h.1)]
  cost_eq_none := fun hnone => absurd ⟨i, j, hw, h⟩ (hnone cost)
  server_iff := ⟨nofun, fun ⟨i', j', hw', h'⟩ => by
    obtain ⟨rfl, rfl⟩ := hw.unique hw'
    exact absurd h.1 (h' cost)⟩

theorem surveyed_of_not_walk {enquiry : Enquiry}
    (hl : enquiry.locations = places.map Location.name) (hcost : enquiry.cost = none)
    (h : ∀ total, ¬ Walk (Listing.Leads places routes) (Listing.price places) i j total) :
    Surveyed places routes route (some .server) enquiry where
  ended := nofun
  locations := hl
  cost_of_fare := fun total ⟨i', j', hw', h'⟩ => by
    obtain ⟨rfl, rfl⟩ := hw.unique hw'
    exact absurd h'.1 (h total)
  cost_eq_none := fun _ => hcost
  server_iff := ⟨fun _ => ⟨i, j, hw, h⟩, fun _ => rfl⟩

end Surveyed

section Survey
variable {files : DataFiles} {places : List Location}
  (hp : FileSource.parse Listing.locations files.1 = .ok places)
  (hn : places.length < UInt64.size) (route : Option (String × String))
  (clientClock serverClock : Nat → Int64)

/-- The exchange between an enquiry and a server on files, each with a clock of its own. -/
abbrev surveying (files : DataFiles) (clientClock serverClock : Nat → Int64) :
    Nat → Message → Nat × Enquiry → Nat × FilePlanner →
      Exchange (Nat × Enquiry) (Nat × FilePlanner) :=
  exchange (.ticking clientClock fun now => Enquiry.answer now)
    (.ticking serverClock fun now => Server.handler now files)

include hp hn

/-- **The round of the route.** -/
theorem route_surveyed {planner : FilePlanner} (hc : Current files planner) {i j : Nat}
    (hw : Wanted (places.map Location.name) route i j) (rounds : Nat) (time : Int64)
    (calls calls' : Nat) :
    let e := surveying files clientClock serverClock (rounds + 1)
      (.stamped time (.routeRequest (UInt64.ofNat i) (UInt64.ofNat j)))
      (calls, ⟨.awaitingRoute, route, places.map Location.name, none⟩) (calls', planner)
    Surveyed places (Routes.ofFile files.2).ofStart route e.ending e.client.2 := by
  have ⟨_, _, _, hstart, hfinish⟩ := hw
  have hi := hstart.lt
  have hj := hfinish.lt
  rw [List.length_map] at hi hj
  have hanswer := handler_route hp hc (serverClock calls') time hn hi hj
  have hnodup := (listed_of_parse hp).1.nodup
  intro e
  rcases Graph.cost_wire_cases (Routes.ofFile files.2).ofStart hnodup hi hj with
    ⟨cost, hcost, hleast⟩ | ⟨⟨error, hcost⟩, hnone⟩
  · rw [hcost] at hanswer
    have he : e = _ := exchange_succ_last (Handler.ticking_eq hanswer)
      (Handler.ticking_eq (Enquiry.answer_route (clientClock calls) (serverClock calls') rfl))
      rounds
    rw [he]
    exact surveyed_of_isLeast hw rfl rfl hleast
  · rw [hcost] at hanswer
    have he : e = _ := exchange_succ_unanswered (Handler.ticking_eq hanswer) rounds
    rw [he]
    exact surveyed_of_not_walk hw rfl rfl hnone

/-- **The round of the last page**, and of the route after it, if one is wanted. -/
theorem last_page_surveyed {planner : FilePlanner} {page : Page} {start : UInt64} {time : Int64}
    {calls' : Nat}
    (hanswer : Server.handler (serverClock calls') files planner
        (.stamped time (.locationsRequest start)) =
      (some (.stamped (serverClock calls') (.locationsResponse page)),
        FilePlanner.new.refresh files))
    (hlast : page.paginated = false) {known : List String}
    (hall : known ++ page.names = places.map Location.name) (rounds calls : Nat) :
    let e := surveying files clientClock serverClock (rounds + 2)
      (.stamped time (.locationsRequest start)) (calls, ⟨.awaitingLocations, route, known, none⟩)
      (calls', planner)
    Surveyed places (Routes.ofFile files.2).ofStart route e.ending e.client.2 := by
  let enquiry : Enquiry := ⟨.awaitingLocations, route, known, none⟩
  have hlocations : (enquiry.withPage page).locations = places.map Location.name := hall
  intro e
  by_cases hw : ∃ i j, Wanted (places.map Location.name) route i j
  · obtain ⟨i, j, hw⟩ := hw
    have haccept := enquiry.acceptPage_of_wanted (Or.inl hlast) (hlocations.symm ▸ hw)
    have he : e = _ := exchange_succ_next (Handler.ticking_eq hanswer)
      (Handler.ticking_eq (Enquiry.answer_page rfl haccept (clientClock calls)
        (serverClock calls'))) (rounds + 1)
    rw [he, Enquiry.withPage, hall]
    exact route_surveyed hp hn route clientClock serverClock (current_refresh files) hw rounds
      (clientClock calls) (calls + 1) (calls' + 1)
  · have hnone : ∀ i j, ¬ Wanted (places.map Location.name) route i j :=
      fun i j h => hw ⟨i, j, h⟩
    have haccept := enquiry.acceptPage_of_not_wanted (Or.inl hlast) (hlocations.symm ▸ hnone)
    have he : e = _ := exchange_succ_last (Handler.ticking_eq hanswer)
      (Handler.ticking_eq (Enquiry.answer_page rfl haccept (clientClock calls)
        (serverClock calls'))) (rounds + 1)
    rw [he, Enquiry.withPage, hall]
    exact surveyed_of_not_wanted rfl rfl hnone

/-- **The rounds of the pages**, by induction on the rounds: each page brings one name more at
least, and the last one is followed by the round of the route, if one is wanted. -/
theorem pages_surveyed {planner : FilePlanner} (hc : Current files planner) {count : Nat}
    (hcount : count < places.length) {rounds : Nat} (hr : places.length - count + 1 ≤ rounds)
    (time : Int64) (calls calls' : Nat) :
    let e := surveying files clientClock serverClock rounds
      (.stamped time (.locationsRequest (UInt64.ofNat count)))
      (calls, ⟨.awaitingLocations, route, (places.map Location.name).take count, none⟩)
      (calls', planner)
    Surveyed places (Routes.ofFile files.2).ofStart route e.ending e.client.2 := by
  induction rounds generalizing planner count time calls calls' with
  | zero => omega
  | succ rounds ih =>
    have hnat : (UInt64.ofNat count).toNat = count :=
      UInt64.toNat_ofNat_of_lt' (Nat.lt_trans hcount hn)
    have hanswer := handler_page hp hc (serverClock calls') time
      (show (UInt64.ofNat count).toNat ≤ places.length by omega)
    rw [hnat] at hanswer
    obtain ⟨hnonempty, known, hlt, hle, htook, hmark⟩ :=
      page_from (listed_of_parse hp).1 hcount rfl
    -- from here on nothing is known of the page but what it gives and whether it is marked
    generalize Page.empty.addAll ((places.map Location.name).drop count) = page at *
    intro e
    by_cases hmore : known < places.length
    · have haccept := Enquiry.acceptPage_of_paginated
        ⟨.awaitingLocations, route, (places.map Location.name).take count, none⟩
        (hmark.2 hmore) hnonempty
      have he : e = _ := exchange_succ_next (Handler.ticking_eq hanswer)
        (Handler.ticking_eq (Enquiry.answer_page rfl haccept (clientClock calls)
          (serverClock calls'))) rounds
      have hlength : ((places.map Location.name).take known).length = known := by
        rw [List.length_take, List.length_map]
        omega
      rw [he, Enquiry.withPage, htook, hlength]
      exact ih (current_refresh files) hmore (by omega) (clientClock calls) (calls + 1)
        (calls' + 1)
    · have hlast : page.paginated = false := Bool.eq_false_iff.2 fun h => hmore (hmark.1 h)
      have hall : (places.map Location.name).take known = places.map Location.name := by
        rw [List.take_of_length_le]
        rw [List.length_map]
        omega
      rw [hall] at htook
      obtain ⟨more, rfl⟩ : ∃ more, rounds = more + 1 := ⟨rounds - 1, by omega⟩
      exact last_page_surveyed hp hn route clientClock serverClock hanswer hlast htook more calls

omit hn in
/-- A fare is a number of 64 bits, if there are no more places than there are numbers of 32 bits. -/
theorem fare_lt {routes : String → List String} (hle : places.length ≤ UInt32.size) {total : Nat}
    (h : Fare places routes route total) : total < UInt64.size := by
  obtain ⟨i, j, ⟨_, _, -, hstart, hfinish⟩, hleast⟩ := h
  have hi := hstart.lt
  have hj := hfinish.lt
  rw [List.length_map] at hi hj
  have hnodup := (listed_of_parse hp).1.nodup
  rcases Graph.cost_wire_cases routes hnodup hi hj with ⟨cost, hcost, hleast'⟩ | ⟨-, hnone⟩
  · obtain rfl := Nat.le_antisymm (hleast.2 hleast'.1) (hleast'.2 hleast.1)
    exact Graph.cost_wire_lt hnodup hle hi hcost
  · exact absurd hleast.1 (hnone total)

/-- **What an enquiry learns from a server.** Take any file of locations that follows its grammar,
of no more places than a memory of 64-bit addresses holds, any file of routes, which counts as empty
if it gives none, and any route that may be wanted. As long as the files stay, the exchange between
a new enquiry and a new server has ended after as many requests as there are names and two more,
whatever the clocks say; the enquiry has learnt all names in order, and the fare if there is one;
and the server has given no answer if and only if the route is wanted between listed places and
there is no walk. The fare fits its field, if there are at most two to the thirty-two places. -/
theorem survey_complete (now : Int64) :
    let e := surveying files clientClock serverClock (places.length + 2) (Enquiry.opening now)
      (0, .new route) (0, FilePlanner.new)
    let routes := (Routes.ofFile files.2).ofStart
    Surveyed places routes route e.ending e.client.2 ∧ e.asked.length ≤ places.length + 2 ∧
      (places.length ≤ UInt32.size → ∀ total, Fare places routes route total →
        total < UInt64.size) := by
  intro e routes
  refine ⟨?_, length_asked_le _ _ _ _ _ _, fun hle total h => fare_lt hp route hle h⟩
  have hpositive := List.length_pos_iff.2 (listed_of_parse hp).2
  have hserver : Server.handler (serverClock 0) files FilePlanner.new (Enquiry.opening now) =
      (some (.stamped (serverClock 0) .statusResponse), FilePlanner.new) := rfl
  have hclient : Enquiry.answer (clientClock 0) (.new route)
      (.stamped (serverClock 0) .statusResponse) =
        (some (.stamped (clientClock 0) (.locationsRequest 0)),
          ⟨.awaitingLocations, route, [], none⟩) := rfl
  have he : e = _ := exchange_succ_next (Handler.ticking_eq hserver) (Handler.ticking_eq hclient)
    (places.length + 1)
  rw [he]
  exact pages_surveyed hp hn route clientClock serverClock (current_new files) hpositive
    (Nat.le_refl _) (clientClock 0) 1 1

end Survey

/-- One place, no routes, and a visit. -/
theorem survey_one_place :
    let files : DataFiles := (.file (Utf8.bytes "a,7") ⟨0, 0⟩, .missing)
    let e := surveying files (fun _ => 5) (fun _ => 6) 3 (Enquiry.opening 4)
      (0, .new (some ("A", "a"))) (0, FilePlanner.new)
    e.client.2.locations = ["a"] ∧ e.client.2.cost = some 7 ∧ e.ending ≠ none := by
  intro files e
  have hp : FileSource.parse Listing.locations files.1 = .ok [.isolated "a" 7] := by
    show FileSource.parse Listing.locations (.file (Utf8.bytes "a,7") ⟨0, 0⟩) = _
    rw [FileSource.parse, FileState.read, Utf8.decode?_bytes]
    rfl
  obtain ⟨hs, -, -⟩ := survey_complete hp (by decide) (some ("A", "a")) (fun _ => 5) (fun _ => 6) 4
  refine ⟨hs.locations, hs.cost_of_fare 7 ⟨0, 0, ⟨"A", "a", rfl, ?_, ?_⟩, ?_⟩, hs.ended⟩
  · exact ⟨⟨"a", rfl, rfl⟩, nofun⟩
  · exact ⟨⟨"a", rfl, rfl⟩, nofun⟩
  · exact ⟨Walk.here, fun total h => h.price_le⟩

end RouteCosts
