import RouteCosts.Proofs.Dialogue.History

/-!
# The sums of a search are exact

A search adds the cost of the place that it settles and the visit of every place one move away, and
at the end the visit of the start (`Search.Adds`, `Graph.Adds`). Every step adds one visit at most
to what is known, and there are fewer steps than places, so no sum is more than visiting every place
at the highest price (`Graph.Adds.add_le`). A search that uses another addition takes the same
course as long as this one agrees on these sums (`Search.runBy_eq_run`), as addition in 64 bits does
if there are at most two to the thirty-two places. So the cost in an answer is the total of a
cheapest route. The main statement is `Service.totals_exact`.
-/

namespace RouteCosts

/-! ### The sums of a search -/

namespace Search

/-- **The sums that a search forms**: at each step but the one that settles the goal, the cost of
the place that is settled is added to the visits of the places one move away. -/
inductive Adds (graph : Graph) (goal : Nat) : Nat → Search → Nat → Nat → Prop where
  | now {fuel : Nat} {search : Search} {index base next : Nat}
    (hc : search.cheapest? graph.size = some (index, base)) (hg : index ≠ goal)
    (hn : next ∈ neighbours graph index) :
    Adds graph goal (fuel + 1) search base (visit graph next)
  | later {fuel : Nat} {search : Search} {index base first second : Nat}
    (hc : search.cheapest? graph.size = some (index, base)) (hg : index ≠ goal)
    (h : Adds graph goal fuel ((search.settle index).spread graph index base) first second) :
    Adds graph goal (fuel + 1) search first second

/-- The sums stay below what the steps can add up to, by induction on the steps. -/
theorem Adds.add_le {graph : Graph} (hclosed : graph.Closed) {goal fuel bound : Nat}
    {search : Search} (hsize : search.costs.size = graph.size)
    (hb : ∀ place cost, search.cost? place = some cost → cost ≤ bound) {first second : Nat}
    (h : Adds graph goal fuel search first second) :
    first + second ≤ bound + fuel * (UInt32.size - 1) := by
  have hknown {search : Search} {index base bound : Nat}
      (hc : search.cheapest? graph.size = some (index, base))
      (hb : ∀ place cost, search.cost? place = some cost → cost ≤ bound) : base ≤ bound := by
    have hcheapest := search.isCheapest graph.size
    rw [hc] at hcheapest
    exact hb index base hcheapest.2.1.2
  induction h generalizing bound with
  | @now fuel search index base next hc hg hn =>
    have hbase := hknown hc hb
    have hvisit := visit_le graph next
    rw [Nat.succ_mul]
    omega
  | @later fuel search index base first second hc hg h ih =>
    have hoffered := offered_spread hclosed hsize index base
    have := ih (hoffered.size.trans hsize) (known_spread_le hclosed hsize hb (hknown hc hb))
    rw [Nat.succ_mul]
    omega

/-! ### Another addition -/

/-- Offers as `spread` makes them, but that costs and visits are added in another way. -/
def spreadBy (add : Nat → Nat → Nat) (graph : Graph) (search : Search) (index base : Nat) :
    Search :=
  { search with
    costs := (neighbours graph index).foldl
      (fun costs next => offer costs next (add base (visit graph next))) search.costs }

/-- The search with another addition. -/
def runBy (add : Nat → Nat → Nat) (graph : Graph) (goal : Nat) : Nat → Search → Search
  | 0, search => search
  | fuel + 1, search =>
    match search.cheapest? graph.size with
    | none => search
    | some (index, base) =>
      let search := search.settle index
      if index = goal then search
      else runBy add graph goal fuel (search.spreadBy add graph index base)

/-- **An addition that agrees on the sums** leads the search to the same end. -/
theorem runBy_eq_run {add : Nat → Nat → Nat} {graph : Graph} {goal fuel : Nat} {search : Search}
    (h : ∀ first second, Adds graph goal fuel search first second →
      add first second = first + second) :
    runBy add graph goal fuel search = run graph goal fuel search := by
  induction fuel generalizing search with
  | zero => rfl
  | succ fuel ih =>
    rw [runBy, run]
    cases hc : search.cheapest? graph.size with
    | none => rfl
    | some best =>
      obtain ⟨index, base⟩ := best
      dsimp only
      by_cases hg : index = goal
      · rw [if_pos hg, if_pos hg]
      · have hspread : (search.settle index).spreadBy add graph index base =
            (search.settle index).spread graph index base := by
          unfold spreadBy spread
          congr 1
          refine List.foldl_ext _ _ _ fun costs next hn => ?_
          rw [h base (visit graph next) (.now hc hg hn)]
        rw [if_neg hg, if_neg hg, hspread]
        exact ih fun first second hadds => h first second (.later hc hg hadds)

end Search

/-! ### The sums behind a cost -/

namespace Graph

/-- **The sums behind the cost between two places**: those of the search, and what is known of the
end at last with the visit of the start. -/
inductive Adds (graph : Graph) (start finish : Nat) : Nat → Nat → Prop where
  | search {first second : Nat} (hs : start < graph.size) (hf : finish < graph.size)
    (h : Search.Adds graph finish (graph.size - 1) (Search.start graph.size start) first second) :
    Adds graph start finish first second
  | start {known : Nat} (hs : start < graph.size) (hf : finish < graph.size)
    (h : (Search.run graph finish (graph.size - 1) (Search.start graph.size start)).cost? finish =
      some known) : Adds graph start finish known (Search.visit graph start)

/-- The cost between two places, with another addition. -/
def costBy (add : Nat → Nat → Nat) (graph : Graph) (start finish : Nat) : Except RouteError Nat :=
  match graph.locations[start]?, graph.locations[finish]? with
  | some first, some last =>
    let search := Search.runBy add graph finish (graph.size - 1) (Search.start graph.size start)
    match search.cost? finish with
    | some cost => .ok (add cost first.cost.toNat)
    | none => .error (.unreachable first.name last.name)
  | none, _ => .error (.unknown s!"#{start}")
  | some _, none => .error (.unknown s!"#{finish}")

/-- **No sum is more than all visits at the highest price.** -/
theorem Adds.add_le {graph : Graph} (hclosed : graph.Closed) {start finish first second : Nat}
    (h : graph.Adds start finish first second) :
    first + second ≤ graph.size * (UInt32.size - 1) := by
  cases h with
  | search hs hf h =>
    have hsum := h.add_le hclosed (Search.invariant_start hs).size_costs (Search.cost?_start_le hs)
    have hmul := Nat.mul_le_mul_right (UInt32.size - 1) (Nat.sub_le graph.size 1)
    omega
  | start hs hf h => exact Search.known_add_visit_le hclosed hs (Nat.sub_one_lt_of_lt hs) h start

theorem costBy_eq_cost {add : Nat → Nat → Nat} {graph : Graph} {start finish : Nat}
    (h : ∀ first second, graph.Adds start finish first second →
      add first second = first + second) :
    graph.costBy add start finish = graph.cost start finish := by
  unfold costBy cost
  cases hs : graph.locations[start]? with
  | none => rfl
  | some first =>
    cases hf : graph.locations[finish]? with
    | none => rfl
    | some last =>
      have hslt := (Array.getElem?_eq_some_iff.1 hs).1
      have hflt := (Array.getElem?_eq_some_iff.1 hf).1
      have hvisit : Search.visit graph start = first.cost.toNat := by
        rw [Search.visit, hs]
      dsimp only
      rw [Search.runBy_eq_run fun first second hadds => h first second (.search hslt hflt hadds)]
      cases hk : (Search.run graph finish (graph.size - 1)
          (Search.start graph.size start)).cost? finish with
      | none => rfl
      | some known =>
        dsimp only
        rw [← hvisit, h known _ (.start hslt hflt hk)]

/-- Addition in 64 bits. -/
def addWords (first second : Nat) : Nat := (first + second) % UInt64.size

end Graph

/-! ### The cost in an answer -/

namespace Service

section Totals
variable {graph : Graph} (hclosed : graph.Closed) (hle : graph.size ≤ UInt32.size)
include hclosed hle

theorem costOf_eq_ok_iff {start finish cost : UInt64} :
    costOf graph start finish = .ok cost ↔
      start.toNat < graph.size ∧ finish.toNat < graph.size ∧
        IsLeast (graph.fees start.toNat finish.toNat) cost.toNat := by
  rcases Nat.lt_or_ge start.toNat graph.size with hs | hs
  · rcases Nat.lt_or_ge finish.toNat graph.size with hf | hf
    · have hiff (total : Nat) : graph.cost start.toNat finish.toNat = .ok total ↔
          IsLeast (graph.fees start.toNat finish.toNat) total :=
        Graph.cost_eq_ok_iff hclosed (Array.getElem?_eq_getElem hs) (Array.getElem?_eq_getElem hf)
      unfold costOf
      rw [if_pos hs, if_pos hf]
      constructor
      · intro h
        cases hc : graph.cost start.toNat finish.toNat with
        | error error =>
          rw [hc] at h
          cases h
        | ok total =>
          rw [hc] at h
          obtain rfl := Except.ok.inj h
          rw [UInt64.toNat_ofNat_of_lt' (Graph.cost_lt hclosed hle hs hc)]
          exact ⟨hs, hf, (hiff total).1 hc⟩
      · rintro ⟨-, -, hleast⟩
        rw [(hiff _).2 hleast]
        exact congrArg Except.ok UInt64.ofNat_toNat
    · rw [costOf_of_finish_le hs hf]
      exact ⟨nofun, fun h => absurd h.2.1 (Nat.not_lt.2 hf)⟩
  · rw [costOf_of_start_le hs]
    exact ⟨nofun, fun h => absurd h.1 (Nat.not_lt.2 hs)⟩

/-- **The sums of a search never overflow, and totals are exact.** Take any graph of at most two to
the thirty-two places, whose destinations are places of it. Every sum behind a cost is at most what
it costs to visit every place at the highest price, and that is a number of 64 bits; so adding in
64 bits gives the cost there is, or the same reason against it. A server that holds this graph
answers a request for a cost with the least of the fees of all routes, and it gives that answer
exactly if both indices are of places and there is a route. -/
theorem totals_exact :
    (∀ start finish first second, graph.Adds start finish first second →
        first + second ≤ graph.size * (UInt32.size - 1)) ∧
      graph.size * (UInt32.size - 1) < UInt64.size ∧
      (∀ start finish, graph.costBy Graph.addWords start finish = graph.cost start finish) ∧
      ∀ {σ τ ε ζ : Type} [LocationSource σ ε] [RouteSource τ ζ] (planner : Planner σ τ)
        (outside : ε × ζ), (planner.refresh outside).graph = graph →
          ∀ now start finish message,
            (route now outside planner start finish).1 = .ok message ↔
              ∃ cost, message = .stamped now (.routeResponse cost) ∧
                start.toNat < graph.size ∧ finish.toNat < graph.size ∧
                IsLeast (graph.fees start.toNat finish.toNat) cost.toNat := by
  have hbound : graph.size * (UInt32.size - 1) < UInt64.size :=
    Graph.lt_of_le_size_mul hle (Nat.le_refl _)
  refine ⟨fun start finish first second h => h.add_le hclosed, hbound,
    fun start finish => Graph.costBy_eq_cost fun first second h => ?_, ?_⟩
  · exact Nat.mod_eq_of_lt (Nat.lt_of_le_of_lt (h.add_le hclosed) hbound)
  · rintro σ τ ε ζ _ _ planner outside rfl now start finish message
    have hroute : (route now outside planner start finish).1 =
        (costOf (planner.refresh outside).graph start finish).map
          fun cost => .stamped now (.routeResponse cost) := rfl
    rw [hroute]
    constructor
    · intro h
      cases hc : costOf (planner.refresh outside).graph start finish with
      | error error =>
        rw [hc] at h
        cases h
      | ok cost =>
        rw [hc] at h
        obtain rfl := Except.ok.inj h
        exact ⟨cost, rfl, (costOf_eq_ok_iff hclosed hle).1 hc⟩
    · rintro ⟨cost, rfl, hcost⟩
      rw [(costOf_eq_ok_iff hclosed hle).2 hcost]
      rfl

end Totals

/-- Two places of the highest price, each a move away from the other: the bound is reached. -/
theorem totals_exact_highest_prices :
    let files : DataFiles := (.file (Utf8.bytes "a,4294967295\nb,4294967295") ⟨0, 0⟩,
      .file (Utf8.bytes "a,b\nb,a") ⟨0, 0⟩)
    let graph := (FilePlanner.new.refresh files).graph
    (route 5 files FilePlanner.new 0 1).1 = .ok (.stamped 5 (.routeResponse 8589934590)) ∧
      IsLeast (graph.fees 0 1) 8589934590 ∧ graph.size * (UInt32.size - 1) = 8589934590 ∧
      graph.costBy Graph.addWords 0 1 = .ok 8589934590 := by
  intro files graph
  have hclosed : graph.Closed := (Planner.inOrder_new.refresh files).closed
  have hsize : graph.size = 2 := by decide +kernel
  have hanswer : (route 5 files FilePlanner.new 0 1).1 =
      .ok (.stamped 5 (.routeResponse 8589934590)) := by decide +kernel
  obtain ⟨-, -, hwords, hexact⟩ := totals_exact hclosed (by rw [hsize]; decide)
  obtain ⟨cost, hmessage, hs, hf, hleast⟩ := (hexact FilePlanner.new files rfl 5 0 1 _).1 hanswer
  obtain rfl := Body.routeResponse.inj (congrArg Message.body hmessage)
  refine ⟨hanswer, hleast, by rw [hsize]; rfl, ?_⟩
  rw [hwords]
  exact (Graph.cost_eq_ok_iff hclosed (Array.getElem?_eq_getElem hs)
    (Array.getElem?_eq_getElem hf)).2 hleast

end Service

end RouteCosts
