import Mathlib.Algebra.GroupWithZero.Nat
import Mathlib.Data.List.Chain
import RouteCosts.Proofs.Graph.Search

/-!
# The cost between two places

What the cost between two places is, said by lists of places: a route goes along destinations from
its first place to its last (`Graph.IsRoute`), and its fee is the sum of the costs of all places on
it (`Graph.fee`). Walks are routes with their fees (`Graph.walks_iff`), so the search finds the least
fee (`Graph.cost_cases_of_places`), and in which order it looks at the destinations of a place makes
no difference (`Graph.cost_of_reordered`). The main statement is `Graph.cost_of_cheapest_route`.
-/

namespace RouteCosts

namespace Graph

/-! ### Routes as lists of places -/

/-- One place leads to another that is among its destinations. -/
def Leads (graph : Graph) (place next : Nat) : Prop :=
  ∃ location, graph.locations[place]? = some location ∧
    ∃ name, (name, next) ∈ location.destinations

/-- **A route** from one place to another: a list of places of which each leads to the next. -/
structure IsRoute (graph : Graph) (start finish : Nat) (places : List Nat) : Prop where
  first : places.head? = some start
  last : places.getLast? = some finish
  moves : places.IsChain graph.Leads

/-- What a route costs: the costs of all places on it, its first and its last included. -/
def fee (graph : Graph) (places : List Nat) : Nat := (places.map (Search.visit graph)).sum

section Routes
variable {graph : Graph} {start finish place next : Nat} {places : List Nat}

theorem mem_neighbours_iff : next ∈ Search.neighbours graph place ↔ graph.Leads place next := by
  unfold Search.neighbours Leads
  cases graph.locations[place]? with
  | none => exact ⟨nofun, fun ⟨_, h, _⟩ => nomatch h⟩
  | some location =>
    constructor
    · intro h
      obtain ⟨entry, hentry, rfl⟩ := List.mem_map.1 h
      exact ⟨location, rfl, entry.1, hentry⟩
    · rintro ⟨other, ho, name, hentry⟩
      obtain rfl := Option.some.inj ho
      exact List.mem_map.2 ⟨(name, next), hentry, rfl⟩

/-- All destinations of a graph are places of it, if those of each of its locations are. -/
theorem closed_iff : graph.Closed ↔
    ∀ location ∈ graph.locations.toList, ∀ entry ∈ location.destinations, entry.2 < graph.size := by
  constructor
  · intro h location hl entry he
    obtain ⟨place, hplace⟩ := List.mem_iff_getElem?.1 hl
    rw [Array.getElem?_toList] at hplace
    exact h place entry.2 (mem_neighbours_iff.2 ⟨location, hplace, entry.1, he⟩)
  · intro h place next hn
    obtain ⟨location, hplace, name, he⟩ := mem_neighbours_iff.1 hn
    rw [← Array.getElem?_toList] at hplace
    exact h location (List.mem_of_getElem? hplace) (name, next) he

theorem isRoute_singleton : graph.IsRoute start start [start] :=
  ⟨rfl, rfl, List.isChain_singleton start⟩

theorem IsRoute.snoc (h : graph.IsRoute start place places) (hmove : graph.Leads place next) :
    graph.IsRoute start next (places ++ [next]) := by
  refine ⟨?_, List.getLast?_concat, ?_⟩
  · rw [List.head?_append, h.first]
    rfl
  · refine List.isChain_append.2 ⟨h.moves, List.isChain_singleton next, fun last hl other ho => ?_⟩
    obtain rfl := Option.some.inj (h.last.symm.trans hl)
    obtain rfl := Option.some.inj ho
    exact hmove

theorem fee_concat (graph : Graph) (places : List Nat) (next : Nat) :
    graph.fee (places ++ [next]) = graph.fee places + Search.visit graph next := by
  rw [fee, List.map_append, List.sum_append, List.map_singleton, List.sum_singleton]
  rfl

/-- By induction on the route from its end. -/
theorem IsRoute.walks (h : graph.IsRoute start finish places) :
    graph.Walks start finish (graph.fee places) := by
  induction places using List.reverseRecOn generalizing finish with
  | nil => cases h.first
  | append_singleton places place ih =>
    obtain ⟨hfirst, hlast, hmoves⟩ := h
    obtain rfl := Option.some.inj (List.getLast?_concat.symm.trans hlast)
    rw [fee_concat]
    cases hl : places.getLast? with
    | none =>
      obtain rfl := List.getLast?_eq_none_iff.1 hl
      obtain rfl := Option.some.inj hfirst
      rw [fee, List.map_nil, List.sum_nil, Nat.zero_add]
      exact Walk.here
    | some last =>
      obtain ⟨hchain, -, hmove⟩ := List.isChain_append.1 hmoves
      have hhead : places.head? = some start := by
        cases places with
        | nil => cases hl
        | cons first rest => exact hfirst
      exact (ih ⟨hhead, hl, hchain⟩).move (mem_neighbours_iff.2 (hmove last hl place rfl))

/-- **Walks are routes, and what they cost is the fee.** -/
theorem walks_iff {total : Nat} :
    graph.Walks start finish total ↔
      ∃ places, graph.IsRoute start finish places ∧ graph.fee places = total := by
  constructor
  · intro h
    induction h with
    | here => exact ⟨[start], isRoute_singleton, Nat.add_zero _⟩
    | move hwalk hmove ih =>
      obtain ⟨places, hroute, rfl⟩ := ih
      exact ⟨places ++ [_], hroute.snoc (mem_neighbours_iff.1 hmove), fee_concat graph places _⟩
  · rintro ⟨places, hroute, rfl⟩
    exact hroute.walks

end Routes

/-- The fees of all routes from one place to another. -/
def fees (graph : Graph) (start finish : Nat) : Set Nat :=
  {total | ∃ places, graph.IsRoute start finish places ∧ graph.fee places = total}

/-- There is a route from one place to another. -/
def Reaches (graph : Graph) (start finish : Nat) : Prop :=
  ∃ places, graph.IsRoute start finish places

/-! ### The result of a search -/

theorem cost_of_start_unknown {graph : Graph} {start : Nat} (h : graph.size ≤ start)
    (finish : Nat) : graph.cost start finish = .error (.unknown s!"#{start}") := by
  rw [cost, Array.getElem?_eq_none h]

theorem cost_of_finish_unknown {graph : Graph} {start finish : Nat} (hs : start < graph.size)
    (hf : graph.size ≤ finish) : graph.cost start finish = .error (.unknown s!"#{finish}") := by
  rw [cost, Array.getElem?_eq_none hf, Array.getElem?_eq_getElem hs]

theorem getElem?_names (graph : Graph) (place : Nat) :
    graph.names[place]? = graph.locations[place]?.map Location.name := by
  rw [names, List.getElem?_map, Array.getElem?_toList]

/-- The only reason against a route between two places that there are. -/
theorem eq_unreachable_of_cost {graph : Graph} {start finish : Nat} {first last : String}
    {error : RouteError} (hs : graph.names[start]? = some first)
    (hf : graph.names[finish]? = some last) (h : graph.cost start finish = .error error) :
    error = .unreachable first last := by
  rw [getElem?_names, Option.map_eq_some_iff] at hs hf
  obtain ⟨origin, horigin, rfl⟩ := hs
  obtain ⟨goal, hgoal, rfl⟩ := hf
  unfold cost at h
  rw [horigin, hgoal] at h
  dsimp only at h
  split at h
  · cases h
  · exact (Except.error.inj h).symm

section Places
variable {graph : Graph} (hclosed : graph.Closed) {start finish : Nat} {first last : Location}
  (hs : graph.locations[start]? = some first) (hf : graph.locations[finish]? = some last)
include hclosed hs hf

/-- **The search finds the least fee, or there is no route.** -/
theorem cost_cases_of_places :
    (∃ cost, graph.cost start finish = .ok cost ∧ IsLeast (graph.fees start finish) cost) ∨
      graph.cost start finish = .error (.unreachable first.name last.name) ∧
        ¬ graph.Reaches start finish := by
  have hfees : {total | graph.Walks start finish total} = graph.fees start finish :=
    Set.ext fun total => walks_iff
  obtain ⟨hslt, -⟩ := Array.getElem?_eq_some_iff.1 hs
  obtain ⟨hflt, -⟩ := Array.getElem?_eq_some_iff.1 hf
  rcases cost_cases hclosed hslt hflt with ⟨cost, hcost, hleast⟩ | ⟨⟨error, hcost⟩, hnone⟩
  · exact Or.inl ⟨cost, hcost, hfees ▸ hleast⟩
  · have hnamed {place : Nat} {location : Location} (h : graph.locations[place]? = some location) :
        graph.names[place]? = some location.name := by
      rw [getElem?_names, h, Option.map_some]
    obtain rfl := eq_unreachable_of_cost (hnamed hs) (hnamed hf) hcost
    exact Or.inr ⟨hcost, fun ⟨places, hroute⟩ => hnone _ hroute.walks⟩

theorem cost_eq_ok_iff {cost : Nat} :
    graph.cost start finish = .ok cost ↔ IsLeast (graph.fees start finish) cost := by
  rcases cost_cases_of_places hclosed hs hf with ⟨least, hcost, hleast⟩ | ⟨hcost, hnone⟩
  · rw [hcost, Except.ok.injEq]
    refine ⟨fun h => h ▸ hleast, fun h => ?_⟩
    exact Nat.le_antisymm (hleast.2 h.1) (h.2 hleast.1)
  · rw [hcost]
    refine ⟨nofun, fun h => ?_⟩
    obtain ⟨places, hroute, -⟩ := h.1
    exact absurd ⟨places, hroute⟩ hnone

theorem exists_cost_iff :
    (∃ cost, graph.cost start finish = .ok cost) ↔ graph.Reaches start finish := by
  rcases cost_cases_of_places hclosed hs hf with ⟨least, hcost, hleast⟩ | ⟨hcost, hnone⟩
  · obtain ⟨places, hroute, -⟩ := hleast.1
    exact ⟨fun _ => ⟨places, hroute⟩, fun _ => ⟨least, hcost⟩⟩
  · rw [hcost]
    exact ⟨fun ⟨_, h⟩ => (nomatch h), fun h => absurd h hnone⟩

theorem cost_eq_unreachable_iff :
    graph.cost start finish = .error (.unreachable first.name last.name) ↔
      ¬ graph.Reaches start finish := by
  rcases cost_cases_of_places hclosed hs hf with ⟨least, hcost, hleast⟩ | ⟨hcost, hnone⟩
  · obtain ⟨places, hroute, -⟩ := hleast.1
    rw [hcost]
    exact ⟨nofun, fun h => absurd ⟨places, hroute⟩ h⟩
  · exact ⟨fun _ => hnone, fun _ => hcost⟩

end Places

/-- Staying where one is costs one visit. -/
theorem isLeast_fees_self (graph : Graph) (start : Nat) :
    IsLeast (graph.fees start start) (Search.visit graph start) := by
  refine ⟨⟨[start], isRoute_singleton, Nat.add_zero _⟩, ?_⟩
  rintro total ⟨places, hroute, rfl⟩
  exact hroute.walks.price_le

/-! ### The order of destinations -/

/-- Two locations that differ in the order of their destinations at most. -/
structure ReorderedAt (location other : Location) : Prop where
  name : location.name = other.name
  cost : location.cost = other.cost
  destinations : location.destinations.Perm other.destinations

/-- **Two graphs that differ in the order of destinations** at most. -/
def Reordered (graph other : Graph) : Prop :=
  ∀ place : Nat, Option.Rel ReorderedAt graph.locations[place]? other.locations[place]?

section Reordered
variable {graph other : Graph} (h : graph.Reordered other)
include h

/-- At every index there are two such locations, or none in either graph. -/
theorem Reordered.getElem?_cases (place : Nat) :
    (graph.locations[place]? = none ∧ other.locations[place]? = none) ∨
      ∃ location location', graph.locations[place]? = some location ∧
        other.locations[place]? = some location' ∧ ReorderedAt location location' := by
  have hplace := h place
  generalize graph.locations[place]? = found at hplace ⊢
  generalize other.locations[place]? = found' at hplace ⊢
  cases hplace with
  | none => exact Or.inl ⟨rfl, rfl⟩
  | some hl => exact Or.inr ⟨_, _, rfl, rfl, hl⟩

theorem Reordered.leads_iff (place next : Nat) :
    graph.Leads place next ↔ other.Leads place next := by
  unfold Leads
  rcases h.getElem?_cases place with ⟨hg, ho⟩ | ⟨location, location', hg, ho, hl⟩
  · rw [hg, ho]
  · rw [hg, ho]
    constructor
    · rintro ⟨found, hfound, name, hentry⟩
      obtain rfl := Option.some.inj hfound
      exact ⟨location', rfl, name, hl.destinations.mem_iff.1 hentry⟩
    · rintro ⟨found, hfound, name, hentry⟩
      obtain rfl := Option.some.inj hfound
      exact ⟨location, rfl, name, hl.destinations.mem_iff.2 hentry⟩

theorem Reordered.visit_eq (place : Nat) :
    Search.visit graph place = Search.visit other place := by
  unfold Search.visit
  rcases h.getElem?_cases place with ⟨hg, ho⟩ | ⟨location, location', hg, ho, hl⟩
  · rw [hg, ho]
  · rw [hg, ho]
    exact congrArg UInt32.toNat hl.cost

theorem Reordered.isRoute_iff {start finish : Nat} (places : List Nat) :
    graph.IsRoute start finish places ↔ other.IsRoute start finish places :=
  ⟨fun hr => ⟨hr.first, hr.last, (List.IsChain.iff h.leads_iff).1 hr.moves⟩,
    fun hr => ⟨hr.first, hr.last, (List.IsChain.iff h.leads_iff).2 hr.moves⟩⟩

theorem Reordered.fees_eq (start finish : Nat) :
    graph.fees start finish = other.fees start finish := by
  have hfee (places : List Nat) : graph.fee places = other.fee places := by
    rw [fee, fee, funext h.visit_eq]
  ext total
  exact exists_congr fun places => by rw [h.isRoute_iff, hfee]

theorem Reordered.size_eq : graph.size = other.size := by
  have hiff (place : Nat) : graph.size ≤ place ↔ other.size ≤ place := by
    unfold size
    rw [← Array.getElem?_eq_none_iff, ← Array.getElem?_eq_none_iff]
    rcases h.getElem?_cases place with ⟨hg, ho⟩ | ⟨location, location', hg, ho, -⟩
    · rw [hg, ho]
    · rw [hg, ho]
      exact ⟨nofun, nofun⟩
  exact Nat.le_antisymm ((hiff _).2 (Nat.le_refl _)) ((hiff _).1 (Nat.le_refl _))

theorem Reordered.closed (hclosed : graph.Closed) : other.Closed := by
  intro place next hn
  rw [← h.size_eq]
  exact hclosed place next (mem_neighbours_iff.2
    ((h.leads_iff place next).2 (mem_neighbours_iff.1 hn)))

/-- **The order in which destinations are looked at makes no difference.** -/
theorem cost_of_reordered (hclosed : graph.Closed) (start finish : Nat) :
    other.cost start finish = graph.cost start finish := by
  have hsize := h.size_eq
  rcases h.getElem?_cases start with ⟨hg, -⟩ | ⟨first, first', hs, hs', hfirst⟩
  · have hle := Array.getElem?_eq_none_iff.1 hg
    rw [cost_of_start_unknown hle, cost_of_start_unknown (hsize ▸ hle)]
  have hlt := (Array.getElem?_eq_some_iff.1 hs).1
  rcases h.getElem?_cases finish with ⟨hg, -⟩ | ⟨last, last', hf, hf', hlast⟩
  · have hle := Array.getElem?_eq_none_iff.1 hg
    rw [cost_of_finish_unknown hlt hle, cost_of_finish_unknown (hsize ▸ hlt) (hsize ▸ hle)]
  rcases cost_cases_of_places hclosed hs hf with ⟨least, hcost, hleast⟩ | ⟨hcost, hnone⟩
  · rw [hcost, cost_eq_ok_iff (h.closed hclosed) hs' hf', ← h.fees_eq]
    exact hleast
  · rw [hcost, hfirst.name, hlast.name, cost_eq_unreachable_iff (h.closed hclosed) hs' hf']
    rintro ⟨places, hroute⟩
    exact hnone ⟨places, (h.isRoute_iff places).2 hroute⟩

end Reordered

/-! ### The cost between two names -/

/-- **The cost between two listed names** is the one between the places that bear them. -/
theorem costByName_wire {places : List Location} (routes : String → List String)
    (hn : (places.map Location.name).Nodup) {i j : Nat} {first last : String}
    (hi : (places.map Location.name)[i]? = some first)
    (hj : (places.map Location.name)[j]? = some last) :
    (wire places routes).costByName first last = (wire places routes).cost i j := by
  have resolve {index : Nat} {name : String}
      (h : (places.map Location.name)[index]? = some name) :
      (wire places routes).resolve? name = some index := by
    rw [List.getElem?_map, Option.map_eq_some_iff] at h
    obtain ⟨place, hplace, rfl⟩ := h
    rw [← lastIndex?_of_getElem? hn hplace, ← lookup_positions]
    rfl
  rw [costByName, resolve hi, resolve hj]

/-! ### The cost between two places -/

/-- **The sums of a search are numbers of 64 bits**: what is known after any of its steps, and the
cost of a visit added to it. -/
def SumsFit (graph : Graph) (start finish : Nat) : Prop :=
  ∀ steps < graph.size, ∀ place known,
    (Search.run graph finish steps (Search.start graph.size start)).cost? place = some known →
      ∀ next, known + Search.visit graph next < UInt64.size

section SumsFit
variable {graph : Graph} (hclosed : graph.Closed) (hle : graph.size ≤ UInt32.size) {start : Nat}
  (hs : start < graph.size) (finish : Nat)
include hclosed hle hs

theorem sumsFit : graph.SumsFit start finish :=
  fun _ hsteps _ _ hknown next =>
    lt_of_le_size_mul hle (Search.known_add_visit_le hclosed hs hsteps hknown next)

theorem cost_lt {finish cost : Nat} (h : graph.cost start finish = .ok cost) :
    cost < UInt64.size :=
  lt_of_le_size_mul hle (cost_le hclosed hs h)

end SumsFit

/-- **The cost between two places is the least fee of a route.** Take any graph whose destinations
are places of it. Between two of its places there is a cost exactly if there is a route, and then
the cost is the least of the fees; from a place to itself it is the cost of that place. If there is
no route, the two places are named. An index beyond the places is reported as unknown, the one of
the start first. The order in which the destinations of a place are looked at makes no difference,
and no number is larger than 64 bits hold, if there are at most two to the thirty-two places. -/
theorem cost_of_cheapest_route {graph : Graph} (hclosed : graph.Closed) (start finish : Nat) :
    (∀ first last, graph.locations[start]? = some first →
      graph.locations[finish]? = some last →
        ((∃ cost, graph.cost start finish = .ok cost) ↔ graph.Reaches start finish) ∧
        (∀ cost, graph.cost start finish = .ok cost ↔
          IsLeast (graph.fees start finish) cost) ∧
        (start = finish → graph.cost start finish = .ok first.cost.toNat) ∧
        (graph.cost start finish = .error (.unreachable first.name last.name) ↔
          ¬ graph.Reaches start finish)) ∧
      (graph.size ≤ start → graph.cost start finish = .error (.unknown s!"#{start}")) ∧
      (start < graph.size → graph.size ≤ finish →
        graph.cost start finish = .error (.unknown s!"#{finish}")) ∧
      (∀ other, graph.Reordered other → other.cost start finish = graph.cost start finish) ∧
      (graph.size ≤ UInt32.size → start < graph.size → graph.SumsFit start finish ∧
        ∀ cost, graph.cost start finish = .ok cost → cost < UInt64.size) := by
  refine ⟨fun first last hs hf => ?_, fun h => cost_of_start_unknown h finish,
    cost_of_finish_unknown, fun other h => cost_of_reordered h hclosed start finish,
    fun hle hs => ⟨sumsFit hclosed hle hs finish, fun cost => cost_lt hclosed hle hs⟩⟩
  refine ⟨exists_cost_iff hclosed hs hf, fun cost => cost_eq_ok_iff hclosed hs hf, ?_,
    cost_eq_unreachable_iff hclosed hs hf⟩
  rintro rfl
  have hvisit : Search.visit graph start = first.cost.toNat := by
    rw [Search.visit, hs]
  rw [cost_eq_ok_iff hclosed hs hf, ← hvisit]
  exact isLeast_fees_self graph start

/-- A place that leads to itself, a cycle that costs nothing, two routes of the same fee, and a place
that is not reached. -/
theorem cost_of_cheapest_route_free_cycle :
    let graph : Graph := ⟨#[⟨"a", 5, [("c", 2), ("a", 0), ("b", 1)]⟩, ⟨"b", 0, [("c", 2)]⟩,
      ⟨"c", 0, [("b", 1), ("d", 3)]⟩, ⟨"d", 2, []⟩, ⟨"e", 9, [("a", 0)]⟩], []⟩
    graph.Closed ∧ graph.cost 0 3 = .ok 7 ∧ IsLeast (graph.fees 0 3) 7 ∧
      graph.cost 3 4 = .error (.unreachable "d" "e") ∧ ¬ graph.Reaches 3 4 ∧
      graph.cost 4 5 = .error (.unknown "#5") := by
  intro graph
  have hclosed : graph.Closed := closed_iff.2 (by decide)
  have hcost : graph.cost 0 3 = .ok 7 := by decide +kernel
  have hnone : graph.cost 3 4 = .error (.unreachable "d" "e") := by decide +kernel
  obtain ⟨hpriced, -⟩ := cost_of_cheapest_route hclosed 0 3
  obtain ⟨hstranded, -⟩ := cost_of_cheapest_route hclosed 3 4
  obtain ⟨-, -, hunknown, -⟩ := cost_of_cheapest_route hclosed 4 5
  refine ⟨hclosed, hcost, ?_, hnone, ?_, hunknown (by decide) (by decide)⟩
  · obtain ⟨-, hleast, -⟩ := hpriced _ _ rfl rfl
    exact (hleast 7).1 hcost
  · obtain ⟨-, -, -, hunreached⟩ := hstranded _ _ rfl rfl
    exact hunreached.1 hnone

end Graph

end RouteCosts
