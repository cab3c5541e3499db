import RouteCosts.Proofs.Graph.Walk

/-!
# One step of a search

A step settles a cheapest place that waits, and offers its cost plus that of the destination to all
places one move away. An offer leaves the lesser of two costs (`Search.getElem?_offer`), so in which
order offers are made shows nowhere (`Search.spreadAlong_eq`). Before each step of a search the
`Search.Invariant` holds: known costs are those of walks, settled places have offered their costs to
all places one move away, and no settled place costs more than one that is not settled. One step
keeps the invariant (`Search.Invariant.step`), and the costs of settled places
(`Search.Invariant.cost?_of_settled`).
-/

namespace RouteCosts

/-- The walks of a graph. -/
abbrev Graph.Walks (graph : Graph) : Nat → Nat → Nat → Prop :=
  Walk (fun place next => next ∈ Search.neighbours graph place) (Search.visit graph)

/-- All destinations are places of the graph. -/
def Graph.Closed (graph : Graph) : Prop :=
  ∀ place, ∀ next ∈ Search.neighbours graph place, next < graph.size

theorem Graph.closed_wire {locations : List Location} {routes : String → List String}
    (hn : (locations.map Location.name).Nodup) : (wire locations routes).Closed := by
  intro place next h
  obtain ⟨first, second, -, hsecond, -⟩ := (mem_neighbours_wire locations routes hn place next).1 h
  rw [size_wire]
  exact (List.getElem?_eq_some_iff.1 hsecond).1

theorem Graph.walks_wire_iff {locations : List Location} {routes : String → List String}
    (hn : (locations.map Location.name).Nodup) {start place total : Nat} :
    (wire locations routes).Walks start place total ↔
      Walk (Listing.Leads locations routes) (Listing.price locations) start place total :=
  Walk.congr (mem_neighbours_wire locations routes hn) (visit_wire locations routes) start place
    total

namespace Search

/-! ### Offers -/

/-- What stands at an index after an offer there: the lesser of two. -/
def lesser (cost : Nat) : Option Nat → Option Nat
  | none => some cost
  | some known => some (min known cost)

/-- **What an offer does.** -/
theorem getElem?_offer (costs : Array (Option Nat)) (index cost place : Nat) :
    (offer costs index cost)[place]? =
      if place = index then costs[place]?.map (lesser cost) else costs[place]? := by
  unfold offer
  by_cases hp : place = index
  · subst hp
    rw [if_pos rfl]
    cases hc : costs[place]? with
    | none => exact hc
    | some here =>
      obtain ⟨hlt, -⟩ := Array.getElem?_eq_some_iff.1 hc
      cases here with
      | none => exact Array.getElem?_setIfInBounds_self_of_lt hlt
      | some known =>
        dsimp only
        split
        next h =>
          rw [Array.getElem?_setIfInBounds_self_of_lt hlt, Option.map_some, lesser,
            Nat.min_eq_right (Nat.le_of_lt h)]
        next h =>
          rw [hc, Option.map_some, lesser, Nat.min_eq_left (Nat.le_of_not_lt h)]
  · rw [if_neg hp]
    split
    · split
      · exact Array.getElem?_setIfInBounds_ne (Ne.symm hp)
      · rfl
    · exact Array.getElem?_setIfInBounds_ne (Ne.symm hp)
    · rfl

theorem lesser_comm (cost other : Nat) (known : Option Nat) :
    lesser cost (lesser other known) = lesser other (lesser cost known) := by
  cases known with
  | none => exact congrArg some (Nat.min_comm other cost)
  | some known => exact congrArg some (Nat.min_right_comm known other cost)

/-- **Offers commute.** -/
theorem offer_comm (costs : Array (Option Nat)) (i a j b : Nat) :
    offer (offer costs i a) j b = offer (offer costs j b) i a := by
  refine Array.ext_getElem? fun place => ?_
  simp only [getElem?_offer]
  by_cases hi : place = i <;> by_cases hj : place = j
  · simp only [if_pos hi, if_pos hj, Option.map_map]
    exact congrArg (costs[place]?.map ·) (funext (lesser_comm b a))
  · simp only [if_pos hi, if_neg hj]
  · simp only [if_neg hi, if_pos hj]
  · simp only [if_neg hi, if_neg hj]

/-- The cost that stands at an index. -/
def known (costs : Array (Option Nat)) (index : Nat) : Option Nat := costs[index]?.join

theorem size_offer (costs : Array (Option Nat)) (index cost : Nat) :
    (offer costs index cost).size = costs.size := by
  unfold offer
  split
  · split
    · exact Array.size_setIfInBounds
    · rfl
  · exact Array.size_setIfInBounds
  · rfl

theorem known_offer_of_ne {costs : Array (Option Nat)} {index other : Nat} (h : other ≠ index)
    (cost : Nat) : known (offer costs index cost) other = known costs other := by
  rw [known, getElem?_offer, if_neg h, known]

/-- The cost that stands at the index of an offer is the lesser of two. -/
theorem known_offer_self {costs : Array (Option Nat)} {index : Nat} (h : index < costs.size)
    (cost : Nat) :
    ∃ least, known (offer costs index cost) index = some least ∧ least ≤ cost ∧
      (∀ old, known costs index = some old → least ≤ old) ∧
      (least = cost ∨ known costs index = some least) := by
  rw [known, getElem?_offer, if_pos rfl, known, Array.getElem?_eq_getElem h]
  cases costs[index] with
  | none => exact ⟨cost, rfl, Nat.le_refl _, nofun, Or.inl rfl⟩
  | some old =>
    refine ⟨min old cost, rfl, Nat.min_le_right _ _, fun other ho => ?_, ?_⟩
    · obtain rfl := Option.some.inj ho
      exact Nat.min_le_left _ _
    · rcases Nat.le_total old cost with hle | hle
      · exact Or.inr (congrArg some (Nat.min_eq_left hle).symm)
      · exact Or.inl (Nat.min_eq_right hle)

/-- **What some offers do**: costs only fall, every place that was offered a cost has one no higher,
and every cost was there or was offered. -/
structure Offered (amount : Nat → Nat) (places : List Nat) (before after : Array (Option Nat)) :
    Prop where
  size : after.size = before.size
  kept : ∀ place old, known before place = some old → ∃ new ≤ old, known after place = some new
  taken : ∀ place ∈ places, place < before.size →
    ∃ new ≤ amount place, known after place = some new
  origin : ∀ place new, known after place = some new →
    known before place = some new ∨ place ∈ places ∧ new = amount place

theorem offered_nil (amount : Nat → Nat) (costs : Array (Option Nat)) :
    Offered amount [] costs costs where
  size := rfl
  kept := fun _ old h => ⟨old, Nat.le_refl _, h⟩
  taken := nofun
  origin := fun _ _ h => Or.inl h

theorem Offered.cons {amount : Nat → Nat} {place : Nat} {places : List Nat}
    {before after : Array (Option Nat)} (hp : place < before.size)
    (h : Offered amount places (offer before place (amount place)) after) :
    Offered amount (place :: places) before after := by
  obtain ⟨least, hleast, hcost, hold, horigin⟩ := known_offer_self hp (amount place)
  refine ⟨h.size.trans (size_offer _ _ _), fun other old ho => ?_, fun other hm hlt => ?_,
    fun other new hn => ?_⟩
  · by_cases he : other = place
    · subst he
      obtain ⟨new, hnew, hk⟩ := h.kept other least hleast
      exact ⟨new, Nat.le_trans hnew (hold old ho), hk⟩
    · exact h.kept other old ((known_offer_of_ne he _).trans ho)
  · rcases List.mem_cons.1 hm with rfl | hm
    · obtain ⟨new, hnew, hk⟩ := h.kept other least hleast
      exact ⟨new, Nat.le_trans hnew hcost, hk⟩
    · exact h.taken other hm ((size_offer _ _ _).symm ▸ hlt)
  · rcases h.origin other new hn with ho | ⟨hm, hnew⟩
    · by_cases he : other = place
      · subst he
        obtain rfl := Option.some.inj (ho.symm.trans hleast)
        rcases horigin with rfl | hb
        · exact Or.inr ⟨List.mem_cons_self, rfl⟩
        · exact Or.inl hb
      · exact Or.inl ((known_offer_of_ne he _).symm.trans ho)
    · exact Or.inr ⟨List.mem_cons_of_mem _ hm, hnew⟩

theorem offered_foldl (amount : Nat → Nat) {places : List Nat} {costs : Array (Option Nat)}
    (h : ∀ place ∈ places, place < costs.size) :
    Offered amount places costs
      (places.foldl (fun costs place => offer costs place (amount place)) costs) := by
  induction places generalizing costs with
  | nil => exact offered_nil amount costs
  | cons place places ih =>
    refine Offered.cons (h place List.mem_cons_self) (ih fun other ho => ?_)
    rw [size_offer]
    exact h other (List.mem_cons_of_mem _ ho)

/-! ### The cheapest place -/

/-- A place is known and not settled, at a cost. -/
def Waits (search : Search) (place cost : Nat) : Prop :=
  search.isSettled place = false ∧ search.cost? place = some cost

/-- **The cheapest** of the first places that wait, if any of them does. -/
def IsCheapest (search : Search) (count : Nat) : Option (Nat × Nat) → Prop
  | none => ∀ place < count, ∀ cost, ¬ search.Waits place cost
  | some (index, base) => index < count ∧ search.Waits index base ∧
    ∀ place < count, ∀ cost, search.Waits place cost → base ≤ cost

section Cheapest
variable {search : Search} {count : Nat}

theorem IsCheapest.keep {best : Option (Nat × Nat)} (h : search.IsCheapest count best)
    (hn : ∀ cost, search.Waits count cost → ∃ index base, best = some (index, base) ∧ base ≤ cost) :
    search.IsCheapest (count + 1) best := by
  cases best with
  | none =>
    intro place hp cost hw
    rcases Nat.lt_succ_iff_lt_or_eq.1 hp with hp | rfl
    · exact h place hp cost hw
    · obtain ⟨index, base, hb, -⟩ := hn cost hw
      cases hb
  | some best =>
    obtain ⟨hlt, hw, hleast⟩ := h
    refine ⟨Nat.lt_succ_of_lt hlt, hw, fun place hp cost hwaits => ?_⟩
    rcases Nat.lt_succ_iff_lt_or_eq.1 hp with hp | rfl
    · exact hleast place hp cost hwaits
    · obtain ⟨index, base, hb, hle⟩ := hn cost hwaits
      obtain rfl := Option.some.inj hb
      exact hle

theorem IsCheapest.take {best : Option (Nat × Nat)} (h : search.IsCheapest count best) {cost : Nat}
    (hw : search.Waits count cost) (hb : ∀ index base, best = some (index, base) → cost ≤ base) :
    search.IsCheapest (count + 1) (some (count, cost)) := by
  refine ⟨Nat.lt_succ_self _, hw, fun place hp other ho => ?_⟩
  rcases Nat.lt_succ_iff_lt_or_eq.1 hp with hp | rfl
  · cases best with
    | none => exact absurd ho (h place hp other)
    | some best => exact Nat.le_trans (hb best.1 best.2 rfl) (h.2.2 place hp other ho)
  · exact Nat.le_of_eq (Option.some.inj (hw.2.symm.trans ho.2))

theorem isCheapest (search : Search) (count : Nat) :
    search.IsCheapest count (search.cheapest? count) := by
  induction count with
  | zero => exact fun place hp => absurd hp (Nat.not_lt_zero _)
  | succ count ih =>
    rw [cheapest?]
    split
    next hs =>
      exact ih.keep fun cost hw => absurd hs (by rw [hw.1]; exact Bool.false_ne_true)
    next hs =>
      have hs : search.isSettled count = false := Bool.eq_false_iff.2 hs
      split
      next hc =>
        refine ih.keep fun cost hw => ?_
        cases hc.symm.trans hw.2
      next cost hc hb =>
        rw [hb] at ih
        exact ih.take ⟨hs, hc⟩ nofun
      next cost index base hc hb =>
        split
        next hlt =>
          rw [hb] at ih
          refine ih.take ⟨hs, hc⟩ fun other least ho => ?_
          obtain ⟨rfl, rfl⟩ := Option.some.inj ho
          exact Nat.le_of_lt hlt
        next hle =>
          refine ih.keep fun other ho => ⟨index, base, hb, ?_⟩
          obtain rfl := Option.some.inj (hc.symm.trans ho.2)
          exact Nat.le_of_not_lt hle

end Cheapest

/-! ### The invariant -/

/-- **What is true of a search** from a start, before each of its steps. -/
structure Invariant (graph : Graph) (start : Nat) (search : Search) : Prop where
  size_costs : search.costs.size = graph.size
  size_settled : search.settled.size = graph.size
  origin : search.cost? start = some 0
  /-- A known cost is that of a walk. -/
  sound : ∀ place cost, search.cost? place = some cost →
    graph.Walks start place (Search.visit graph start + cost)
  /-- A settled place is known, and has offered its cost to the places one move away. -/
  spread : ∀ place < graph.size, search.isSettled place = true →
    ∃ cost, search.cost? place = some cost ∧ ∀ next ∈ neighbours graph place,
      ∃ offered ≤ cost + Search.visit graph next, search.cost? next = some offered
  /-- No settled place costs more than one that waits. -/
  ordered : ∀ place < graph.size, search.isSettled place = true → ∀ cost,
    search.cost? place = some cost → ∀ other < graph.size, ∀ more, search.Waits other more →
      cost ≤ more

section Start
variable {graph : Graph} {start : Nat}

theorem isSettled_start {place : Nat} (hp : place < graph.size) :
    (Search.start graph.size start).isSettled place = false := by
  rw [isSettled, Search.start, Array.getElem?_replicate, if_pos hp]
  rfl

variable (hs : start < graph.size)
include hs

theorem cost?_start (place : Nat) :
    (Search.start graph.size start).cost? place = if place = start then some 0 else none := by
  show known _ place = _
  unfold Search.start known
  by_cases hp : place = start
  · subst hp
    rw [Array.getElem?_setIfInBounds_self_of_lt (by rwa [Array.size_replicate]), if_pos rfl]
    rfl
  · rw [Array.getElem?_setIfInBounds_ne (Ne.symm hp), if_neg hp, Array.getElem?_replicate]
    split <;> rfl

theorem invariant_start : Invariant graph start (Search.start graph.size start) where
  size_costs := by
    rw [Search.start, Array.size_setIfInBounds, Array.size_replicate]
  size_settled := Array.size_replicate
  origin := by
    rw [cost?_start hs, if_pos rfl]
  sound := fun place cost h => by
    rw [cost?_start hs] at h
    split at h
    next hp =>
      obtain rfl := Option.some.inj h
      subst hp
      exact Walk.here
    · cases h
  spread := fun place hp h => by
    rw [isSettled_start hp] at h
    cases h
  ordered := fun place hp h => by
    rw [isSettled_start hp] at h
    cases h

end Start

theorem isSettled_settle {search : Search} {index : Nat} (h : index < search.settled.size)
    (place : Nat) :
    (search.settle index).isSettled place = true ↔
      place = index ∨ search.isSettled place = true := by
  unfold isSettled settle
  dsimp only
  by_cases hp : place = index
  · subst hp
    rw [Array.getElem?_setIfInBounds_self_of_lt h]
    exact ⟨fun _ => Or.inl rfl, fun _ => rfl⟩
  · rw [Array.getElem?_setIfInBounds_ne (Ne.symm hp)]
    exact ⟨Or.inr, fun ho => ho.resolve_left hp⟩

/-- A place that is settled at a cost offers it to the places one move away. -/
theorem offered_spread {graph : Graph} (hclosed : graph.Closed) {search : Search}
    (hsize : search.costs.size = graph.size) (index base : Nat) :
    Offered (fun next => base + visit graph next) (neighbours graph index) search.costs
      ((search.settle index).spread graph index base).costs :=
  offered_foldl _ fun next hn => by
    show next < search.costs.size
    rw [hsize]
    exact hclosed index next hn

section Step
variable {graph : Graph} {start : Nat} {search : Search} (hi : Invariant graph start search)
include hi

/-- No settled place costs more than the cheapest one that waits. -/
theorem Invariant.cost_le_base {index base : Nat}
    (hc : search.IsCheapest graph.size (some (index, base))) {place : Nat} (hp : place < graph.size)
    (hs : place = index ∨ search.isSettled place = true) {cost : Nat}
    (h : search.cost? place = some cost) : cost ≤ base := by
  obtain ⟨hlt, hw, -⟩ := hc
  rcases hs with rfl | hs
  · exact Nat.le_of_eq (Option.some.inj (h.symm.trans hw.2))
  · exact hi.ordered place hp hs cost h index hlt base hw

section Settling
variable (hclosed : graph.Closed) {index base : Nat}
  (hc : search.IsCheapest graph.size (some (index, base)))
include hclosed hc

/-- Offers change nothing of a settled place: none of them is lower than the base. -/
theorem Invariant.cost?_of_settled {place cost : Nat} (hp : place < graph.size)
    (hs : place = index ∨ search.isSettled place = true) (h : search.cost? place = some cost) :
    ((search.settle index).spread graph index base).cost? place = some cost := by
  have hoffered := offered_spread hclosed hi.size_costs index base
  obtain ⟨new, hnew, hk⟩ := hoffered.kept place cost h
  have hle : cost ≤ base := hi.cost_le_base hc hp hs h
  rcases hoffered.origin place new hk with ho | ⟨-, rfl⟩
  · obtain rfl := Option.some.inj (h.symm.trans ho)
    exact hk
  · obtain rfl : cost = base + visit graph place := by omega
    exact hk

/-- **One step keeps the invariant.** -/
theorem Invariant.step :
    Invariant graph start ((search.settle index).spread graph index base) := by
  have hoffered := offered_spread hclosed hi.size_costs index base
  have ⟨hlt, hw, hleast⟩ := hc
  have hsettled (place : Nat) : ((search.settle index).spread graph index base).isSettled place =
      true ↔ place = index ∨ search.isSettled place = true :=
    isSettled_settle (by rw [hi.size_settled]; exact hlt) place
  refine ⟨hoffered.size.trans hi.size_costs, ?_, ?_, ?_, ?_, ?_⟩
  · exact Array.size_setIfInBounds.trans hi.size_settled
  · obtain ⟨new, hnew, hk⟩ := hoffered.kept start 0 hi.origin
    obtain rfl := Nat.le_zero.1 hnew
    exact hk
  · intro place cost h
    rcases hoffered.origin place cost h with ho | ⟨hn, rfl⟩
    · exact hi.sound place cost ho
    · rw [← Nat.add_assoc]
      exact (hi.sound index base hw.2).move hn
  · intro place hp hs
    rcases (hsettled place).1 hs with rfl | hold
    · refine ⟨base, hi.cost?_of_settled hclosed hc hp (Or.inl rfl) hw.2, fun next hn => ?_⟩
      exact hoffered.taken next hn (by rw [hi.size_costs]; exact hclosed place next hn)
    · obtain ⟨cost, hcost, hspread⟩ := hi.spread place hp hold
      refine ⟨cost, hi.cost?_of_settled hclosed hc hp (Or.inr hold) hcost, fun next hn => ?_⟩
      obtain ⟨offered, hoff, hk⟩ := hspread next hn
      obtain ⟨new, hnew, hk'⟩ := hoffered.kept next offered hk
      exact ⟨new, Nat.le_trans hnew hoff, hk'⟩
  · intro place hp hs cost hcost other ho more hwaits
    have hs' := (hsettled place).1 hs
    obtain ⟨old, hold⟩ : ∃ old, search.cost? place = some old := by
      rcases hs' with rfl | hs'
      · exact ⟨base, hw.2⟩
      · obtain ⟨old, hold, -⟩ := hi.spread place hp hs'
        exact ⟨old, hold⟩
    obtain rfl := Option.some.inj
      (hcost.symm.trans (hi.cost?_of_settled hclosed hc hp hs' hold))
    -- what waits has waited before at this cost, or was offered one above the base
    refine Nat.le_trans (hi.cost_le_base hc hp hs' hold) ?_
    have hunsettled : search.isSettled other = false := by
      refine Bool.eq_false_iff.2 fun h => ?_
      cases hwaits.1.symm.trans ((hsettled other).2 (Or.inr h))
    rcases hoffered.origin other more hwaits.2 with hk | ⟨-, rfl⟩
    · exact hleast other ho more ⟨hunsettled, hk⟩
    · exact Nat.le_add_right _ _

end Settling

end Step

/-! ### Steps by any rule and in any order -/

/-- Offers as `spread` makes them, to the places of a list in its order. -/
def spreadAlong (graph : Graph) (search : Search) (base : Nat) (order : List Nat) : Search :=
  { search with
    costs := order.foldl (fun costs next => offer costs next (base + visit graph next))
      search.costs }

/-- **The order of offers does not matter.** -/
theorem spreadAlong_eq {graph : Graph} {index : Nat} {order : List Nat}
    (h : order.Perm (neighbours graph index)) (search : Search) (base : Nat) :
    search.spreadAlong graph base order = search.spread graph index base := by
  unfold spreadAlong spread
  congr 1
  exact h.foldl_eq' (fun i _ j _ costs => offer_comm costs i _ j _) search.costs

/-- **A step by any rule and in any order**: any of the cheapest places that wait is settled, and the
places one move away are offered its cost in any order. -/
inductive Step (graph : Graph) (search : Search) : Nat × Nat → Search → Prop where
  | settle {index base : Nat} {order : List Nat}
    (hc : search.IsCheapest graph.size (some (index, base)))
    (ho : order.Perm (neighbours graph index)) :
    Step graph search (index, base) ((search.settle index).spreadAlong graph base order)

section AnyStep
variable {graph : Graph} {search next : Search} {choice : Nat × Nat}
  (h : Step graph search choice next)
include h

theorem Step.isCheapest : search.IsCheapest graph.size (some choice) := by
  cases h with
  | settle hc ho => exact hc

theorem Step.eq_spread : next = (search.settle choice.1).spread graph choice.1 choice.2 := by
  cases h with
  | settle hc ho => exact spreadAlong_eq ho _ _

variable {start : Nat} (hi : Invariant graph start search)
include hi

theorem Step.isSettled_iff (place : Nat) :
    next.isSettled place = true ↔ place = choice.1 ∨ search.isSettled place = true := by
  obtain ⟨hlt, -⟩ := h.isCheapest
  rw [h.eq_spread]
  exact isSettled_settle (by rw [hi.size_settled]; exact hlt) place

variable (hclosed : graph.Closed)
include hclosed

theorem Step.invariant : Invariant graph start next := by
  rw [h.eq_spread]
  exact hi.step hclosed h.isCheapest

/-- The costs of settled places do not change, nor does that of the place that is settled. -/
theorem Step.cost?_eq {place : Nat} (hp : place < graph.size)
    (hs : place = choice.1 ∨ search.isSettled place = true) :
    next.cost? place = search.cost? place := by
  obtain ⟨cost, hcost⟩ : ∃ cost, search.cost? place = some cost := by
    rcases hs with rfl | hs
    · exact ⟨_, h.isCheapest.2.1.2⟩
    · obtain ⟨cost, hcost, -⟩ := hi.spread place hp hs
      exact ⟨cost, hcost⟩
  rw [hcost, h.eq_spread]
  exact hi.cost?_of_settled hclosed h.isCheapest hp hs hcost

end AnyStep

end Search

end RouteCosts
