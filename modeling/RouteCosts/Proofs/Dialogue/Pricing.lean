import RouteCosts.Proofs.Dialogue.Survey
import RouteCosts.Proofs.Graph.Cost

/-!
# The price of a listed pair

A planner finds names by how they are written; an enquiry looks on its list for the first name that
is the same up to the case of ASCII letters (`FoundAs`). The two agree unless a name is shadowed by
one before it that differs in case alone (`Shadowed`), which the grammar of the files allows. So an
enquiry for two listed names learns what the planner says of those that are found in their place.

* `FoundAs.eq_iff`: a listed name is found as itself if and only if it is not shadowed.
* `costByName_new`: the cost between two listed names is the one between their places.
* `listed_pair_priced`: what the enquiry learns; `shadowed_name_priced`: that it may be the price of
  another pair.
-/

namespace RouteCosts

/-! ### Names that are found -/

section Names
variable {names : List String} {name found : String}

/-- **The listed name that is found for a name**: the first that is the same up to case. -/
def FoundAs (names : List String) (name found : String) : Prop :=
  ∃ index, FirstNamed names name index ∧ names[index]? = some found

/-- A listed name has another one before it that is the same up to case. -/
def Shadowed (names : List String) (name : String) : Prop :=
  ∃ (earlier place : Nat) (other : String), earlier < place ∧ names[earlier]? = some other ∧
    names[place]? = some name ∧ Text.foldCase other = Text.foldCase name

theorem exists_foundAs (h : name ∈ names) : ∃ found, FoundAs names name found := by
  cases hf : names.findIdx? fun listed => Text.sameIgnoringCase listed name with
  | none =>
    have hself := List.findIdx?_eq_none_iff.1 hf name h
    rw [Text.sameIgnoringCase_self] at hself
    cases hself
  | some index =>
    have hfirst := firstNamed_iff.2 hf
    exact ⟨_, index, hfirst, List.getElem?_eq_getElem hfirst.lt⟩

/-- **Names that are not shadowed are found as they are**, and no others. -/
theorem FoundAs.eq_iff (hn : names.Nodup) (hm : name ∈ names) (h : FoundAs names name found) :
    found = name ↔ ¬ Shadowed names name := by
  obtain ⟨index, hfirst, hfound⟩ := h
  constructor
  · rintro rfl ⟨earlier, place, other, hlt, hother, hplace, hsame⟩
    obtain rfl : index = place := by
      refine (List.getElem?_inj hfirst.lt hn).1 ?_
      rw [hfound, hplace]
    exact hfirst.first earlier hlt other hother hsame
  · intro hs
    obtain ⟨place, hplace⟩ := List.mem_iff_getElem?.1 hm
    obtain ⟨listed, hlisted, hsame⟩ := hfirst.named
    obtain rfl : listed = found := Option.some.inj (hlisted.symm.trans hfound)
    rcases Nat.lt_trichotomy index place with hlt | rfl | hlt
    · exact absurd ⟨index, place, listed, hlt, hlisted, hplace, hsame⟩ hs
    · exact Option.some.inj (hlisted.symm.trans hplace)
    · exact absurd rfl (hfirst.first place hlt name hplace)

end Names

/-! ### The survey -/

section Survey
variable {files : DataFiles} {places : List Location}
  (hp : FileSource.parse Listing.locations files.1 = .ok places)
  (clientClock serverClock : Nat → Int64)
include hp

theorem costByName_new {i j : Nat} {first last : String}
    (hi : (places.map Location.name)[i]? = some first)
    (hj : (places.map Location.name)[j]? = some last) :
    (FilePlanner.new.costByName files first last).1 =
      (Graph.wire places (Routes.ofFile files.2).ofStart).cost i j := by
  have hnodup := (listed_of_parse hp).1.nodup
  rw [← Graph.costByName_wire _ hnodup hi hj, ← FilePlanner.graph_refresh_new hp]
  rfl

/-- The first round is about the status, all others are about names and the route. -/
theorem opening_surveyed (hn : places.length < UInt64.size) (route : Option (String × String))
    (now : Int64) :
    let e := surveying files clientClock serverClock (places.length + 2) (Enquiry.opening now)
      (0, .new route) (0, FilePlanner.new)
    Surveyed places (Routes.ofFile files.2).ofStart route e.ending e.client.2 := by
  have hstatus : Server.handler (serverClock 0) files FilePlanner.new (Enquiry.opening now) =
      (some (.stamped (serverClock 0) .statusResponse), FilePlanner.new) := rfl
  have hpage : Enquiry.answer (clientClock 0) (.new route)
      (.stamped (serverClock 0) .statusResponse) =
        (some (.stamped (clientClock 0) (.locationsRequest 0)),
          ⟨.awaitingLocations, route, [], none⟩) := rfl
  intro e
  have he : e = _ := exchange_succ_next (Handler.ticking_eq hstatus) (Handler.ticking_eq hpage)
    (places.length + 1)
  rw [he]
  exact pages_surveyed hp hn route clientClock serverClock (current_new files)
    (List.length_pos_iff.2 (listed_of_parse hp).2) (Nat.le_refl _) (clientClock 0) 1 1

/-- **What an enquiry for two listed names learns.** Each of them is found as a listed name, as
itself unless it is shadowed. If the planner says of the names that are found that their cost is
some number, the enquiry learns that number; if it says that there is no route, the enquiry learns
no cost; and it says nothing else. Costs fit their field, if there are at most two to the
thirty-two places. -/
theorem listed_pair_priced (hn : places.length < UInt64.size) {start finish : String}
    (hs : start ∈ places.map Location.name) (hf : finish ∈ places.map Location.name) (now : Int64) :
    let names := places.map Location.name
    let e := surveying files clientClock serverClock (places.length + 2) (Enquiry.opening now)
      (0, .new (some (start, finish))) (0, FilePlanner.new)
    ∃ first last, FoundAs names start first ∧ FoundAs names finish last ∧
      (first = start ↔ ¬ Shadowed names start) ∧ (last = finish ↔ ¬ Shadowed names finish) ∧
      e.ending ≠ none ∧
      ((∃ cost, (FilePlanner.new.costByName files first last).1 = .ok cost ∧
          e.client.2.cost = some (UInt64.ofNat cost) ∧
          (places.length ≤ UInt32.size → cost < UInt64.size)) ∨
        (FilePlanner.new.costByName files first last).1 = .error (.unreachable first last) ∧
          e.client.2.cost = none) := by
  have hnodup := (listed_of_parse hp).1.nodup
  intro names e
  have hsurveyed : Surveyed places (Routes.ofFile files.2).ofStart (some (start, finish)) e.ending
      e.client.2 := opening_surveyed hp clientClock serverClock hn _ now
  obtain ⟨first, hfirst⟩ := exists_foundAs hs
  obtain ⟨last, hlast⟩ := exists_foundAs hf
  refine ⟨first, last, hfirst, hlast, hfirst.eq_iff hnodup hs, hlast.eq_iff hnodup hf,
    hsurveyed.ended, ?_⟩
  obtain ⟨i, hi, hfoundi⟩ := hfirst
  obtain ⟨j, hj, hfoundj⟩ := hlast
  have hw : Wanted names (some (start, finish)) i j := ⟨start, finish, rfl, hi, hj⟩
  have hilt : i < places.length := List.length_map Location.name ▸ hi.lt
  have hjlt : j < places.length := List.length_map Location.name ▸ hj.lt
  rw [costByName_new hp hfoundi hfoundj]
  rcases Graph.cost_wire_cases (Routes.ofFile files.2).ofStart hnodup hilt hjlt with
    ⟨cost, hcost, hleast⟩ | ⟨⟨error, hcost⟩, hnone⟩
  · exact Or.inl ⟨cost, hcost, hsurveyed.cost_of_fare cost ⟨i, j, hw, hleast⟩,
      fun hle => Graph.cost_wire_lt hnodup hle hilt hcost⟩
  · have herror := Graph.eq_unreachable_of_cost (by rw [Graph.names_wire]; exact hfoundi)
      (by rw [Graph.names_wire]; exact hfoundj) hcost
    refine Or.inr ⟨by rw [hcost, herror], hsurveyed.cost_eq_none ?_⟩
    rintro total ⟨i', j', hw', hleast⟩
    obtain ⟨rfl, rfl⟩ := hw.unique hw'
    exact hnone total hleast.1

end Survey

/-- Three places, of which the second is shadowed, and a route from the first to the third. -/
theorem listed_pair_priced_shadowed :
    let files : DataFiles := (.file (Utf8.bytes "a,1\nA,2\nb,3") ⟨0, 0⟩,
      .file (Utf8.bytes "a,b") ⟨0, 0⟩)
    let names := ["a", "A", "b"]
    let e := surveying files (fun _ => 5) (fun _ => 6) 5 (Enquiry.opening 4)
      (0, .new (some ("A", "b"))) (0, FilePlanner.new)
    ∃ first last, FoundAs names "A" first ∧ FoundAs names "b" last ∧ first ≠ "A" ∧
      (FilePlanner.new.costByName files first last).1 = .ok 4 ∧ e.client.2.cost = some 4 := by
  intro files names e
  have hp : FileSource.parse Listing.locations files.1 =
      .ok [.isolated "a" 1, .isolated "A" 2, .isolated "b" 3] := by decide +kernel
  have hs : "A" ∈ names := by decide
  have hf : "b" ∈ names := by decide
  have hshadowed : Shadowed names "A" := ⟨0, 1, "a", Nat.zero_lt_one, rfl, rfl, rfl⟩
  have hlearnt : e.client.2.cost = some 4 := by decide +kernel
  obtain ⟨first, last, hfirst, hlast, hself, -, -, hpriced⟩ :=
    listed_pair_priced hp (fun _ => 5) (fun _ => 6) (by decide) hs hf 4
  refine ⟨first, last, hfirst, hlast, fun h => hself.1 h hshadowed, ?_, hlearnt⟩
  rcases hpriced with ⟨cost, hcost, hsome, hlt⟩ | ⟨-, hnone⟩
  · have hfour : (UInt64.ofNat cost).toNat = 4 :=
      congrArg UInt64.toNat (Option.some.inj (hsome.symm.trans hlearnt))
    rw [UInt64.toNat_ofNat_of_lt' (hlt (by decide))] at hfour
    rw [hcost, hfour]
  · cases hnone.symm.trans hlearnt

/-- An enquiry for the second of two names that differ in case, which has a price of its own, learns
the price of the first. -/
theorem shadowed_name_priced :
    let files : DataFiles := (.file (Utf8.bytes "a,1\nA,2") ⟨0, 0⟩, .missing)
    let e := surveying files (fun _ => 5) (fun _ => 6) 4 (Enquiry.opening 4)
      (0, .new (some ("A", "A"))) (0, FilePlanner.new)
    FileSource.parse Listing.locations files.1 = .ok [.isolated "a" 1, .isolated "A" 2] ∧
      (FilePlanner.new.costByName files "A" "A").1 = .ok 2 ∧
      e.ending ≠ none ∧ e.client.2.cost = some 1 := by
  decide +kernel

end RouteCosts
