import Mathlib.Order.Bounds.Defs
import RouteCosts.Graph.LeastCost

/-!
# Walks and what they cost

A walk goes from place to place by single moves. Every visit is paid, the first and the last one
included, and a place that is visited twice is paid twice. `wire` makes one move of every pair of
listed places of which the routes of the first name the second (`mem_neighbours_wire`): this is what
a walk on the listed data means (`Listing.Leads`).
-/

namespace RouteCosts

/-- **A walk** from one place to another, and its total cost. -/
inductive Walk (leads : Nat → Nat → Prop) (price : Nat → Nat) (start : Nat) : Nat → Nat → Prop where
  | here : Walk leads price start start (price start)
  | move {place next total : Nat} : Walk leads price start place total → leads place next →
    Walk leads price start next (total + price next)

theorem Walk.price_le {leads : Nat → Nat → Prop} {price : Nat → Nat} {start place total : Nat}
    (h : Walk leads price start place total) : price start ≤ total := by
  induction h with
  | here => exact Nat.le_refl _
  | move _ _ ih => exact Nat.le_trans ih (Nat.le_add_right _ _)

/-- Walks depend on nothing but the moves and the prices. -/
theorem Walk.congr {leads leads' : Nat → Nat → Prop} {price price' : Nat → Nat}
    (hl : ∀ i k, leads i k ↔ leads' i k) (hp : ∀ i, price i = price' i) (start place total : Nat) :
    Walk leads price start place total ↔ Walk leads' price' start place total := by
  obtain rfl : leads = leads' := funext fun i => funext fun k => propext (hl i k)
  obtain rfl : price = price' := funext hp
  exact Iff.rfl

/-! ### Indices of names -/

namespace Graph

/-- The index of the last location of a name. -/
def lastIndex? (name : String) : List Location → Option Nat
  | [] => none
  | location :: rest =>
    match lastIndex? name rest with
    | some i => some (i + 1)
    | none => if location.name = name then some 0 else none

theorem lastIndex?_eq_none_iff {name : String} {locations : List Location} :
    lastIndex? name locations = none ↔ ∀ l ∈ locations, l.name ≠ name := by
  induction locations with
  | nil => simp [lastIndex?]
  | cons l rest ih =>
    cases h : lastIndex? name rest with
    | some i =>
      have := mt ih.2
      simp only [h, lastIndex?, reduceCtorEq, not_false_iff, forall_const, false_iff] at this ⊢
      exact fun hall => this fun l' hl' => hall l' (List.mem_cons_of_mem _ hl')
    | none =>
      have := ih.1 h
      by_cases hl : l.name = name <;> simp [lastIndex?, h, hl]
      exact this

/-- The index of names is found from the front, and a later location takes the place over. -/
theorem lookup_positions (locations : List Location) (name : String) :
    (Location.positions locations).lookup name = lastIndex? name locations := by
  have hfold : ∀ (start : Nat) (index : List (String × Nat)),
      ((locations.zipIdx start).foldl
          (fun index entry => Assoc.insert entry.1.name entry.2 index) index).lookup name =
        match lastIndex? name locations with
        | some i => some (start + i)
        | none => index.lookup name := by
    induction locations with
    | nil => exact fun start index => rfl
    | cons first rest ih =>
      intro start index
      rw [List.zipIdx_cons, List.foldl_cons, ih, lastIndex?, Assoc.lookup_insert]
      cases lastIndex? name rest with
      | some i => exact congrArg some (by omega)
      | none =>
        by_cases hn : first.name = name
        · simp [hn]
        · simp [hn, Ne.symm hn]
  rw [Location.positions, hfold 0 []]
  cases lastIndex? name locations <;> simp

theorem getElem?_of_lastIndex? {locations : List Location} {name : String} {index : Nat}
    (h : lastIndex? name locations = some index) :
    ∃ location, locations[index]? = some location ∧ location.name = name := by
  induction locations generalizing index with
  | nil => cases h
  | cons first rest ih =>
    rw [lastIndex?] at h
    split at h
    next i hi =>
      obtain rfl := Option.some.inj h
      exact ih hi
    next hi =>
      split at h
      next hname =>
        obtain rfl := Option.some.inj h
        exact ⟨first, rfl, hname⟩
      · cases h

/-- When no two locations share a name, a name stands for the location that bears it. -/
theorem lastIndex?_of_getElem? {locations : List Location}
    (hn : (locations.map Location.name).Nodup) {index : Nat} {location : Location}
    (h : locations[index]? = some location) : lastIndex? location.name locations = some index := by
  induction locations generalizing index with
  | nil => cases h
  | cons first rest ih =>
    obtain ⟨hfirst, hrest⟩ := List.nodup_cons.1 hn
    rw [lastIndex?]
    cases index with
    | zero =>
      obtain rfl := Option.some.inj h
      have hlast : lastIndex? first.name rest = none :=
        lastIndex?_eq_none_iff.2 fun l hl he => hfirst (List.mem_map.2 ⟨l, hl, he⟩)
      rw [hlast]
      exact if_pos rfl
    | succ index =>
      rw [ih hrest h]

/-! ### What wiring makes of routes -/

theorem insert_of_forall_ne {α β : Type} [DecidableEq α] {key : α}
    {entries : List (α × β)} (h : ∀ entry ∈ entries, entry.1 ≠ key) (value : β) :
    Assoc.insert key value entries = entries ++ [(key, value)] := by
  induction entries with
  | nil => rfl
  | cons entry rest ih =>
    rw [Assoc.insert, if_neg (h entry List.mem_cons_self),
      ih fun other ho => h other (List.mem_cons_of_mem _ ho), List.cons_append]

/-- A location's destinations are the names of its routes that stand for something. -/
def Wired (locations : List Location) (routes : List String) (location : Location) : Prop :=
  ∀ name index, (name, index) ∈ location.destinations ↔
    name ∈ routes ∧ lastIndex? name locations = some index

theorem wired_wireRoute {locations : List Location} {routes : List String} {location : Location}
    (h : Wired locations routes location) (name : String) :
    Wired locations (routes ++ [name])
      (wireRoute (Location.positions locations) location name) := by
  have hmem (other : String) : other ∈ routes ++ [name] ↔ other ∈ routes ∨ other = name := by
    rw [List.mem_append, List.mem_singleton]
  unfold wireRoute
  rw [lookup_positions]
  intro other index
  rw [hmem]
  split
  next hd =>
    -- the name was wired before, so it adds nothing to the routes
    obtain ⟨entry, hentry, hname⟩ := List.lookup_isSome_iff.1 hd
    have hrouted : name ∈ routes := ((h name entry.2).1 (eq_of_beq hname ▸ hentry)).1
    rw [h other index]
    refine and_congr_left fun _ => ⟨Or.inl, ?_⟩
    rintro (ho | rfl)
    · exact ho
    · exact hrouted
  next hd =>
    split
    next place hplace =>
      have hnew : ∀ entry ∈ location.destinations, entry.1 ≠ name := fun entry he hn =>
        hd (List.lookup_isSome_iff.2 ⟨entry, he, beq_iff_eq.2 hn.symm⟩)
      rw [Location.addDestination, insert_of_forall_ne hnew, List.mem_append,
        List.mem_singleton, h other index, or_and_right, Prod.mk.injEq]
      refine or_congr_right ⟨?_, ?_⟩
      · rintro ⟨rfl, rfl⟩
        exact ⟨rfl, hplace⟩
      · rintro ⟨rfl, hi⟩
        exact ⟨rfl, Option.some.inj (hi.symm.trans hplace)⟩
    next hplace =>
      rw [h other index, or_and_right]
      refine ⟨Or.inl, ?_⟩
      rintro (ho | ⟨rfl, hi⟩)
      · exact ho
      · cases hplace.symm.trans hi

/-- By induction on the routes, from a location without destinations. -/
theorem wired_wireLocation (locations : List Location) (routes : List String)
    (location : Location) :
    Wired locations routes (wireLocation (Location.positions locations) routes location) := by
  have hfold (more : List String) : ∀ (done : List String) (location : Location),
      Wired locations done location →
        Wired locations (done ++ more)
          (more.foldl (wireRoute (Location.positions locations)) location) := by
    induction more with
    | nil =>
      intro done location h
      rwa [List.append_nil]
    | cons name more ih =>
      intro done location h
      have := ih (done ++ [name]) _ (wired_wireRoute h name)
      rwa [List.append_assoc] at this
  refine hfold routes [] location.clear fun name index => ?_
  exact ⟨nofun, fun h => nomatch h.1⟩

theorem wireLocation_eq (index : List (String × Nat)) (routes : List String)
    (location : Location) : ∃ destinations, wireLocation index routes location =
      { location with destinations := destinations } := by
  have hfold : ∀ location : Location, ∃ destinations,
      routes.foldl (wireRoute index) location =
        { location with destinations := destinations } := by
    induction routes with
    | nil => exact fun location => ⟨location.destinations, rfl⟩
    | cons name routes ih =>
      intro location
      obtain ⟨destinations, h⟩ := ih (wireRoute index location name)
      refine ⟨destinations, h.trans ?_⟩
      rw [wireRoute]
      split
      · rfl
      · split <;> rfl
  exact hfold location.clear

theorem cost_wireLocation (index : List (String × Nat)) (routes : List String)
    (location : Location) : (wireLocation index routes location).cost = location.cost := by
  obtain ⟨destinations, h⟩ := wireLocation_eq index routes location
  rw [h]

theorem name_wireLocation (index : List (String × Nat)) (routes : List String)
    (location : Location) : (wireLocation index routes location).name = location.name := by
  obtain ⟨destinations, h⟩ := wireLocation_eq index routes location
  rw [h]

theorem names_wire (locations : List Location) (routes : String → List String) :
    (wire locations routes).names = locations.map Location.name := by
  unfold names wire
  rw [List.map_map]
  exact List.map_congr_left fun location _ => name_wireLocation _ _ _

theorem getElem?_wire (locations : List Location) (routes : String → List String) (index : Nat) :
    (wire locations routes).locations[index]? =
      locations[index]?.map fun l =>
        wireLocation (Location.positions locations) (routes l.name) l := by
  unfold wire
  rw [List.getElem?_toArray, List.getElem?_map]

end Graph

/-! ### Walks on listed data -/

namespace Listing

/-- **A single move**: the routes of a listed place name the other one. -/
def Leads (locations : List Location) (routes : String → List String) (place next : Nat) : Prop :=
  ∃ first second, locations[place]? = some first ∧ locations[next]? = some second ∧
    second.name ∈ routes first.name

/-- What a visit of a listed place costs. -/
def price (locations : List Location) (place : Nat) : Nat :=
  match locations[place]? with
  | some location => location.cost.toNat
  | none => 0

end Listing

section Wire
variable (locations : List Location) (routes : String → List String)

theorem visit_wire (index : Nat) :
    Search.visit (.wire locations routes) index = Listing.price locations index := by
  rw [Search.visit, Graph.getElem?_wire, Listing.price]
  cases locations[index]? with
  | none => rfl
  | some location => exact congrArg UInt32.toNat (Graph.cost_wireLocation _ _ _)

/-- **The moves of the graph are those of the data**, when no two locations share a name. -/
theorem mem_neighbours_wire (hn : (locations.map Location.name).Nodup) (place next : Nat) :
    next ∈ Search.neighbours (.wire locations routes) place ↔
      Listing.Leads locations routes place next := by
  rw [Search.neighbours, Graph.getElem?_wire]
  cases hp : locations[place]? with
  | none =>
    constructor
    · nofun
    · rintro ⟨first, second, hfirst, -⟩
      cases hp.symm.trans hfirst
  | some first =>
    have hwired := Graph.wired_wireLocation locations (routes first.name) first
    constructor
    · intro hm
      obtain ⟨⟨name, index⟩, hentry, rfl⟩ := List.mem_map.1 hm
      obtain ⟨hroute, hindex⟩ := (hwired name index).1 hentry
      obtain ⟨second, hsecond, rfl⟩ := Graph.getElem?_of_lastIndex? hindex
      exact ⟨first, second, hp, hsecond, hroute⟩
    · rintro ⟨other, second, ho, hsecond, hroute⟩
      obtain rfl := Option.some.inj (hp.symm.trans ho)
      have hindex := Graph.lastIndex?_of_getElem? hn hsecond
      exact List.mem_map.2 ⟨(second.name, next), (hwired _ _).2 ⟨hroute, hindex⟩, rfl⟩

end Wire

end RouteCosts
