import Mathlib.Data.Finset.Card
import RouteCosts.Proofs.Graph.Settling

/-!
# The search finds the least cost

The cost between two places is that of the cheapest walk, and there is none only if there is no walk
(`Graph.cost_cases`). While a search goes on, a walk either ends at a settled place, no cheaper than
what is known of it, or has passed a known place that is not settled (`Search.Invariant.walk`). So a
search has priced its goal when it halts, whichever of the cheapest places it chooses and in
whichever order it makes offers (`Search.Halts.priced`), and `run` is one of these searches
(`Search.exists_halts_run`).
-/

namespace RouteCosts

namespace Search

section Step
variable {graph : Graph} {start : Nat} {search : Search} (hi : Invariant graph start search)
include hi

/-! ### Walks pass places that wait -/

/-- **A walk ends at a settled place, or has passed one that waits**, by induction on its moves; and
so far it was no cheaper than what is known of that place. -/
theorem Invariant.walk (hclosed : graph.Closed) (hstart : start < graph.size) {place total : Nat}
    (h : graph.Walks start place total) :
    place < graph.size ∧
      ((search.isSettled place = true ∧
          ∃ cost, search.cost? place = some cost ∧ Search.visit graph start + cost ≤ total) ∨
        ∃ other < graph.size, ∃ cost, search.Waits other cost ∧
          Search.visit graph start + cost ≤ total) := by
  have here {place cost total : Nat} (hp : place < graph.size)
      (hc : search.cost? place = some cost) (hle : Search.visit graph start + cost ≤ total) :
      (search.isSettled place = true ∧
          ∃ cost, search.cost? place = some cost ∧ Search.visit graph start + cost ≤ total) ∨
        ∃ other < graph.size, ∃ cost, search.Waits other cost ∧
          Search.visit graph start + cost ≤ total := by
    cases hs : search.isSettled place with
    | true => exact Or.inl ⟨rfl, cost, hc, hle⟩
    | false => exact Or.inr ⟨place, hp, cost, ⟨hs, hc⟩, hle⟩
  induction h with
  | here => exact ⟨hstart, here hstart hi.origin (Nat.le_refl _)⟩
  | @move place next total hwalk hmove ih =>
    have hnext := hclosed place next hmove
    obtain ⟨hp, ⟨hs, cost, hcost, hle⟩ | ⟨other, ho, cost, hw, hle⟩⟩ := ih
    · obtain ⟨known, hknown, hspread⟩ := hi.spread place hp hs
      obtain rfl := Option.some.inj (hknown.symm.trans hcost)
      obtain ⟨offered, hoffered, hk⟩ := hspread next hmove
      exact ⟨hnext, here hnext hk (by omega)⟩
    · exact ⟨hnext, Or.inr ⟨other, ho, cost, hw, Nat.le_trans hle (Nat.le_add_right _ _)⟩⟩

/-- **The cost of a place is settled**: what is known of it is the least cost of a walk to it,
without the visit of the start, and it is known if there is a walk. -/
def Priced (graph : Graph) (start place : Nat) : Option Nat → Prop
  | some cost => IsLeast {total | graph.Walks start place total} (Search.visit graph start + cost)
  | none => ∀ total, ¬ graph.Walks start place total

omit hi in
/-- A place has one such cost, or none. -/
theorem Priced.unique {place : Nat} {cost other : Option Nat} (h : Priced graph start place cost)
    (ho : Priced graph start place other) : cost = other := by
  cases cost with
  | none =>
    cases other with
    | none => rfl
    | some other => exact absurd ho.1 (h _)
  | some cost =>
    cases other with
    | none => exact absurd h.1 (ho _)
    | some other =>
      exact congrArg some (Nat.add_left_cancel (Nat.le_antisymm (h.2 ho.1) (ho.2 h.1)))

section Priced
variable (hclosed : graph.Closed) (hstart : start < graph.size)
include hclosed hstart

theorem Invariant.priced_of_settled {place : Nat} (hp : place < graph.size)
    (hs : search.isSettled place = true) : Priced graph start place (search.cost? place) := by
  obtain ⟨cost, hcost, -⟩ := hi.spread place hp hs
  rw [hcost]
  refine ⟨hi.sound place cost hcost, fun total hw => ?_⟩
  obtain ⟨-, ⟨-, known, hknown, hle⟩ | ⟨other, ho, more, hwaits, hle⟩⟩ := hi.walk hclosed hstart hw
  · obtain rfl := Option.some.inj (hcost.symm.trans hknown)
    exact hle
  · have := hi.ordered place hp hs cost hcost other ho more hwaits
    omega

theorem Invariant.priced_of_cheapest {place : Nat} (hs : search.isSettled place = false)
    (h : ∀ other < graph.size, ∀ more, search.Waits other more →
      ∃ cost, search.cost? place = some cost ∧ cost ≤ more) :
    Priced graph start place (search.cost? place) := by
  have hleast : ∀ total, graph.Walks start place total →
      ∃ cost, search.cost? place = some cost ∧ Search.visit graph start + cost ≤ total := by
    intro total hw
    obtain ⟨-, ⟨hsettled, -⟩ | ⟨other, ho, more, hwaits, hle⟩⟩ := hi.walk hclosed hstart hw
    · rw [hs] at hsettled
      cases hsettled
    · obtain ⟨cost, hcost, hc⟩ := h other ho more hwaits
      exact ⟨cost, hcost, by omega⟩
  cases hc : search.cost? place with
  | none =>
    intro total hw
    obtain ⟨cost, hcost, -⟩ := hleast total hw
    cases hc.symm.trans hcost
  | some cost =>
    refine ⟨hi.sound place cost hc, fun total hw => ?_⟩
    obtain ⟨known, hknown, hle⟩ := hleast total hw
    obtain rfl := Option.some.inj (hc.symm.trans hknown)
    exact hle

end Priced

end Step

/-! ### The whole search -/

/-- The places that are not settled. -/
def unsettled (graph : Graph) (search : Search) : Finset Nat :=
  (Finset.range graph.size).filter fun place => search.isSettled place = false

theorem mem_unsettled {graph : Graph} {search : Search} {place : Nat} :
    place ∈ unsettled graph search ↔ place < graph.size ∧ search.isSettled place = false := by
  rw [unsettled, Finset.mem_filter, Finset.mem_range]

theorem card_unsettled_le (graph : Graph) (search : Search) :
    (unsettled graph search).card ≤ graph.size := by
  refine Nat.le_trans (Finset.card_filter_le _ _) ?_
  rw [Finset.card_range]

theorem card_unsettled_settle {graph : Graph} {search : Search} {index : Nat}
    (hsize : search.settled.size = graph.size) (hlt : index < graph.size)
    (hs : search.isSettled index = false) :
    (unsettled graph (search.settle index)).card + 1 = (unsettled graph search).card := by
  have herase : unsettled graph (search.settle index) = (unsettled graph search).erase index := by
    ext place
    rw [Finset.mem_erase, mem_unsettled, mem_unsettled]
    have hiff := isSettled_settle (by rw [hsize]; exact hlt : index < search.settled.size) place
    rw [← Bool.not_eq_true, ← Bool.not_eq_true, hiff, not_or]
    exact and_left_comm
  rw [herase]
  exact Finset.card_erase_add_one (mem_unsettled.2 ⟨hlt, hs⟩)

section Stops
variable {graph : Graph} {start : Nat} {search : Search} (hi : Invariant graph start search)
  (hclosed : graph.Closed) (hstart : start < graph.size) {goal : Nat}
include hi hclosed hstart

/-- A search that has chosen its goal may stop, before the goal has offered its cost. -/
theorem Invariant.priced_of_chosen {base : Nat}
    (hc : search.IsCheapest graph.size (some (goal, base))) :
    Priced graph start goal (search.cost? goal) :=
  hi.priced_of_cheapest hclosed hstart hc.2.1.1 fun other ho more hw =>
    ⟨base, hc.2.1.2, hc.2.2 other ho more hw⟩

variable (hgoal : goal < graph.size)
include hgoal

/-- A search in which nothing waits may stop. -/
theorem Invariant.priced_of_idle (hc : search.IsCheapest graph.size none) :
    Priced graph start goal (search.cost? goal) := by
  cases hs : search.isSettled goal with
  | true => exact hi.priced_of_settled hclosed hstart hgoal hs
  | false =>
    exact hi.priced_of_cheapest hclosed hstart hs fun other ho more hw => absurd hw (hc other ho more)

/-- A search with one place left to settle may stop. -/
theorem Invariant.priced_of_card_le_one (hcard : (unsettled graph search).card ≤ 1) :
    Priced graph start goal (search.cost? goal) := by
  cases hs : search.isSettled goal with
  | true => exact hi.priced_of_settled hclosed hstart hgoal hs
  | false =>
    refine hi.priced_of_cheapest hclosed hstart hs fun other ho more hw => ?_
    -- no two places are left
    obtain rfl := Finset.card_le_one.1 hcard other (mem_unsettled.2 ⟨ho, hw.1⟩) goal
      (mem_unsettled.2 ⟨hgoal, hs⟩)
    exact ⟨more, hw.2, Nat.le_refl _⟩

end Stops

/-- **The course of a search** by any rule and in any order: which places it settles, one after the
other, and at which costs. -/
inductive Course (graph : Graph) (search : Search) : List (Nat × Nat) → Search → Prop where
  | start : Course graph search [] search
  | step {choices : List (Nat × Nat)} {middle next : Search} {choice : Nat × Nat}
    (h : Course graph search choices middle) (hs : Step graph middle choice next) :
    Course graph search (choices ++ [choice]) next

/-- **A search for a goal** that halts after some steps at most: when it has made them, when nothing
waits, or with the goal, which is settled and offers nothing. -/
inductive Halts (graph : Graph) (goal fuel : Nat) (search : Search) :
    List (Nat × Nat) → Search → Prop where
  | spent {choices : List (Nat × Nat)} {last : Search} (h : Course graph search choices last)
    (hg : ∀ choice ∈ choices, choice.1 ≠ goal) (hl : choices.length = fuel) :
    Halts graph goal fuel search choices last
  | idle {choices : List (Nat × Nat)} {last : Search} (h : Course graph search choices last)
    (hg : ∀ choice ∈ choices, choice.1 ≠ goal) (hl : choices.length < fuel)
    (hc : last.IsCheapest graph.size none) : Halts graph goal fuel search choices last
  | reached {choices : List (Nat × Nat)} {last : Search} {base : Nat}
    (h : Course graph search choices last) (hg : ∀ choice ∈ choices, choice.1 ≠ goal)
    (hl : choices.length < fuel) (hc : last.IsCheapest graph.size (some (goal, base))) :
    Halts graph goal fuel search (choices ++ [(goal, base)]) (last.settle goal)

/-- By induction on the steps that are left to `run`. -/
theorem Course.exists_halts_run {graph : Graph} {goal : Nat} {search middle : Search}
    {choices : List (Nat × Nat)} (h : Course graph search choices middle)
    (hg : ∀ choice ∈ choices, choice.1 ≠ goal) (left : Nat) :
    ∃ all, Halts graph goal (choices.length + left) search all (run graph goal left middle) := by
  induction left generalizing middle choices with
  | zero => exact ⟨choices, .spent h hg rfl⟩
  | succ left ih =>
    have hcheapest := middle.isCheapest graph.size
    have hlt : choices.length < choices.length + (left + 1) := by omega
    rw [run]
    cases hc : middle.cheapest? graph.size with
    | none =>
      rw [hc] at hcheapest
      exact ⟨choices, .idle h hg hlt hcheapest⟩
    | some best =>
      obtain ⟨index, base⟩ := best
      rw [hc] at hcheapest
      dsimp only
      by_cases he : index = goal
      · subst he
        rw [if_pos rfl]
        exact ⟨_, .reached h hg hlt hcheapest⟩
      · rw [if_neg he]
        have hs := Step.settle hcheapest (List.Perm.refl _)
        have hg' : ∀ choice ∈ choices ++ [(index, base)], choice.1 ≠ goal := by
          intro choice hm
          rcases List.mem_append.1 hm with hm | hm
          · exact hg choice hm
          · obtain rfl := List.mem_singleton.1 hm
            exact he
        obtain ⟨all, hall⟩ := ih (h.step hs) hg'
        rw [List.length_append, Nat.add_assoc, Nat.add_comm [_].length] at hall
        exact ⟨all, hall⟩

/-- **`run` is such a search**: it takes the first of the cheapest places, and makes the offers in
the order of the destinations. -/
theorem exists_halts_run (graph : Graph) (goal fuel : Nat) (search : Search) :
    ∃ choices, Halts graph goal fuel search choices (run graph goal fuel search) := by
  have hstart : Course graph search [] search := .start
  obtain ⟨choices, h⟩ := hstart.exists_halts_run nofun fuel
  rw [List.length_nil, Nat.zero_add] at h
  exact ⟨choices, h⟩

/-- What a search that halts knows is what some course of it knows: the last step offers nothing. -/
theorem Halts.exists_course {graph : Graph} {goal fuel : Nat} {search last : Search}
    {choices : List (Nat × Nat)} (h : Halts graph goal fuel search choices last) :
    ∃ course middle, Course graph search course middle ∧ course.length ≤ fuel ∧
      last.costs = middle.costs := by
  cases h with
  | spent h hg hl => exact ⟨_, _, h, Nat.le_of_eq hl, rfl⟩
  | idle h hg hl hc => exact ⟨_, _, h, Nat.le_of_lt hl, rfl⟩
  | reached h hg hl hc => exact ⟨_, _, h, Nat.le_of_lt hl, rfl⟩

section Course
variable {graph : Graph} (hclosed : graph.Closed) {start : Nat} {search : Search}
  (hi : Invariant graph start search)
include hclosed hi

theorem Course.invariant {choices : List (Nat × Nat)} {last : Search}
    (h : Course graph search choices last) : Invariant graph start last := by
  induction h with
  | start => exact hi
  | step h hs ih => exact hs.invariant ih hclosed

/-- Every step leaves one place less to settle. -/
theorem Course.length_add_card {choices : List (Nat × Nat)} {last : Search}
    (h : Course graph search choices last) :
    choices.length + (unsettled graph last).card = (unsettled graph search).card := by
  induction h with
  | start => exact Nat.zero_add _
  | @step choices middle next choice h hs ih =>
    have hmiddle := h.invariant hclosed hi
    obtain ⟨hlt, hw, -⟩ := hs.isCheapest
    have hcard := card_unsettled_settle hmiddle.size_settled hlt hw.1
    rw [hs.eq_spread, List.length_append]
    show choices.length + 1 + (unsettled graph (middle.settle choice.1)).card = _
    omega

/-- **A search prices its goal**, whenever it halts: it needs one step less than there are places to
settle. -/
theorem Halts.priced (hstart : start < graph.size) {goal fuel : Nat} (hgoal : goal < graph.size)
    (hcard : (unsettled graph search).card ≤ fuel + 1) {choices : List (Nat × Nat)} {last : Search}
    (h : Halts graph goal fuel search choices last) :
    Priced graph start goal (last.cost? goal) := by
  cases h with
  | spent h hg hl =>
    have := h.length_add_card hclosed hi
    exact (h.invariant hclosed hi).priced_of_card_le_one hclosed hstart hgoal (by omega)
  | idle h hg hl hc => exact (h.invariant hclosed hi).priced_of_idle hclosed hstart hgoal hc
  | reached h hg hl hc => exact (h.invariant hclosed hi).priced_of_chosen hclosed hstart hc

end Course

theorem run_priced {graph : Graph} (hclosed : graph.Closed) {start goal : Nat}
    (hstart : start < graph.size) (hgoal : goal < graph.size) {fuel : Nat} {search : Search}
    (hi : Invariant graph start search) (hcard : (unsettled graph search).card ≤ fuel + 1) :
    Priced graph start goal ((run graph goal fuel search).cost? goal) := by
  obtain ⟨choices, h⟩ := exists_halts_run graph goal fuel search
  exact h.priced hclosed hi hstart hgoal hcard

/-! ### Bounds -/

theorem visit_le (graph : Graph) (index : Nat) : Search.visit graph index ≤ UInt32.size - 1 := by
  rw [Search.visit]
  split
  next location _ => exact Nat.le_sub_one_of_lt location.cost.toNat_lt
  · exact Nat.zero_le _

/-- One step adds the visit of one place at most to what is known. -/
theorem known_spread_le {graph : Graph} (hclosed : graph.Closed) {bound : Nat} {search : Search}
    (hsize : search.costs.size = graph.size)
    (hb : ∀ place cost, search.cost? place = some cost → cost ≤ bound) {index base : Nat}
    (hbase : base ≤ bound) (place cost : Nat)
    (h : ((search.settle index).spread graph index base).cost? place = some cost) :
    cost ≤ bound + (UInt32.size - 1) := by
  have hoffered := offered_spread hclosed hsize index base
  rcases hoffered.origin place cost h with hk | ⟨-, rfl⟩
  · exact Nat.le_trans (hb place cost hk) (Nat.le_add_right _ _)
  · exact Nat.add_le_add hbase (visit_le graph place)

/-- So a search adds no more visits than it makes steps. -/
theorem Course.cost_le {graph : Graph} (hclosed : graph.Closed) {start bound : Nat} {search : Search}
    (hi : Invariant graph start search)
    (hb : ∀ place cost, search.cost? place = some cost → cost ≤ bound) {choices : List (Nat × Nat)}
    {last : Search} (h : Course graph search choices last) (place cost : Nat)
    (hcost : last.cost? place = some cost) :
    cost ≤ bound + choices.length * (UInt32.size - 1) := by
  induction h generalizing place cost with
  | start => exact Nat.le_trans (hb place cost hcost) (Nat.le_add_right _ _)
  | @step choices middle next choice h hs ih =>
    have hmiddle := h.invariant hclosed hi
    have hbase := ih choice.1 choice.2 hs.isCheapest.2.1.2
    rw [hs.eq_spread] at hcost
    rw [List.length_append, List.length_singleton, Nat.add_one_mul, ← Nat.add_assoc]
    exact known_spread_le hclosed hmiddle.size_costs ih hbase place cost hcost

theorem Halts.cost_le {graph : Graph} (hclosed : graph.Closed) {start goal fuel bound : Nat}
    {search : Search} (hi : Invariant graph start search)
    (hb : ∀ place cost, search.cost? place = some cost → cost ≤ bound) {choices : List (Nat × Nat)}
    {last : Search} (h : Halts graph goal fuel search choices last) (place cost : Nat)
    (hcost : last.cost? place = some cost) : cost ≤ bound + fuel * (UInt32.size - 1) := by
  obtain ⟨course, middle, hcourse, hl, hc⟩ := h.exists_course
  rw [cost?, hc] at hcost
  refine Nat.le_trans (hcourse.cost_le hclosed hi hb place cost hcost) ?_
  exact Nat.add_le_add_left (Nat.mul_le_mul_right _ hl) _

theorem cost?_start_le {graph : Graph} {start : Nat} (hs : start < graph.size) (place cost : Nat)
    (h : (Search.start graph.size start).cost? place = some cost) : cost ≤ 0 := by
  rw [cost?_start hs] at h
  split at h
  · exact Nat.le_of_eq (Option.some.inj h).symm
  · cases h

/-- While a search goes on, what is known of a place and one visit more cost no more than visiting
every place at the highest price. -/
theorem known_add_visit_le {graph : Graph} (hclosed : graph.Closed) {start goal steps : Nat}
    (hs : start < graph.size) (hsteps : steps < graph.size) {place known : Nat}
    (h : (run graph goal steps (Search.start graph.size start)).cost? place = some known)
    (next : Nat) : known + visit graph next ≤ graph.size * (UInt32.size - 1) := by
  obtain ⟨choices, hrun⟩ := exists_halts_run graph goal steps (Search.start graph.size start)
  have hknown := hrun.cost_le hclosed (invariant_start hs) (cost?_start_le hs) place known h
  have hvisit := visit_le graph next
  calc known + visit graph next
      ≤ steps * (UInt32.size - 1) + (UInt32.size - 1) := by omega
    _ = (steps + 1) * (UInt32.size - 1) := (Nat.succ_mul _ _).symm
    _ ≤ graph.size * (UInt32.size - 1) := Nat.mul_le_mul_right _ hsteps

end Search

/-! ### The least cost -/

namespace Graph

section Cost
variable {graph : Graph} (hclosed : graph.Closed) {start finish : Nat} (hs : start < graph.size)
  (hf : finish < graph.size)
include hclosed hs hf

/-- What the search knows at its end. -/
theorem cost_cases :
    (∃ cost, graph.cost start finish = .ok cost ∧
        IsLeast {total | graph.Walks start finish total} cost) ∨
      (∃ error, graph.cost start finish = .error error) ∧
        ∀ total, ¬ graph.Walks start finish total := by
  have hcard : (Search.unsettled graph (Search.start graph.size start)).card ≤
      graph.size - 1 + 1 :=
    Nat.le_trans (Search.card_unsettled_le _ _) (Nat.le_add_of_sub_le (Nat.le_refl _))
  have hpriced := Search.run_priced hclosed hs hf (Search.invariant_start hs) hcard
  obtain ⟨first, hfirst⟩ : ∃ first, graph.locations[start]? = some first :=
    ⟨_, Array.getElem?_eq_getElem hs⟩
  obtain ⟨last, hlast⟩ : ∃ last, graph.locations[finish]? = some last :=
    ⟨_, Array.getElem?_eq_getElem hf⟩
  have hvisit : Search.visit graph start = first.cost.toNat := by
    rw [Search.visit, hfirst]
  unfold cost
  rw [hfirst, hlast]
  dsimp only
  split
  next cost hcost =>
    rw [hcost] at hpriced
    refine Or.inl ⟨_, rfl, ?_⟩
    rw [Nat.add_comm, ← hvisit]
    exact hpriced
  next hcost =>
    rw [hcost] at hpriced
    exact Or.inr ⟨⟨_, rfl⟩, hpriced⟩

omit hf in
/-- A cost is no more than that of visiting every place at the highest price. -/
theorem cost_le {cost : Nat} (h : graph.cost start finish = .ok cost) :
    cost ≤ graph.size * (UInt32.size - 1) := by
  unfold Graph.cost at h
  split at h
  next first last hfirst hlast =>
    dsimp only at h
    split at h
    next known hknown =>
      obtain rfl := Except.ok.inj h
      have hvisit : Search.visit graph start = first.cost.toNat := by
        rw [Search.visit, hfirst]
      rw [← hvisit]
      exact Search.known_add_visit_le hclosed hs (Nat.sub_one_lt_of_lt hs) hknown start
    · cases h
  · cases h
  · cases h

end Cost

/-- What visiting every place costs is a number of 64 bits, if there are not more places than there
are numbers of 32 bits. -/
theorem lt_of_le_size_mul {count sum : Nat} (hle : count ≤ UInt32.size)
    (h : sum ≤ count * (UInt32.size - 1)) : sum < UInt64.size :=
  Nat.lt_of_le_of_lt (Nat.le_trans h (Nat.mul_le_mul_right _ hle)) (by decide)

/-- What the cost between two listed places is, in terms of walks on the data. -/
theorem cost_wire_cases {places : List Location} (routes : String → List String)
    (hn : (places.map Location.name).Nodup) {i j : Nat} (hi : i < places.length)
    (hj : j < places.length) :
    (∃ cost, (wire places routes).cost i j = .ok cost ∧
        IsLeast {total | Walk (Listing.Leads places routes) (Listing.price places) i j total}
          cost) ∨
      (∃ error, (wire places routes).cost i j = .error error) ∧
        ∀ total, ¬ Walk (Listing.Leads places routes) (Listing.price places) i j total := by
  rw [← size_wire places routes] at hi hj
  have hcases := cost_cases (closed_wire hn) hi hj
  simpa only [walks_wire_iff hn] using hcases

/-- The costs of some places are exact as numbers of 64 bits, if there are not more places than
there are numbers of 32 bits. -/
theorem cost_wire_lt {places : List Location} {routes : String → List String}
    (hn : (places.map Location.name).Nodup) (hle : places.length ≤ UInt32.size) {i j cost : Nat}
    (hi : i < places.length) (h : (wire places routes).cost i j = .ok cost) :
    cost < UInt64.size := by
  rw [← size_wire places routes] at hi hle
  exact lt_of_le_size_mul hle (cost_le (closed_wire hn) hi h)

end Graph

end RouteCosts
