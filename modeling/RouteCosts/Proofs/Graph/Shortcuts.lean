import RouteCosts.Proofs.Graph.Cost

/-!
# The shortcuts of the search

The search for a goal halts as soon as it has chosen the goal, and makes one step less than there
are places. Neither shows in what it finds. In any course of a search, whichever of the cheapest
places it chooses and in whichever order it makes offers, a settled place stays settled at its cost
(`Search.Course.settled`), so places are chosen at costs that never fall (`Search.Course.rising`).
And a search that halts has priced its goal, as has one that goes on until nothing waits: a place
has one price (`Search.shortcuts_sound`).
-/

namespace RouteCosts

namespace Search

section Course
variable {graph : Graph} (hclosed : graph.Closed) {start : Nat} {search : Search}
  (hi : Invariant graph start search) {choices : List (Nat × Nat)} {last : Search}
include hclosed hi

/-- **A settled place stays settled**, and its cost does not change. -/
theorem Course.settled (h : Course graph search choices last) {place : Nat} (hp : place < graph.size)
    (hs : search.isSettled place = true) :
    last.isSettled place = true ∧ last.cost? place = search.cost? place := by
  induction h with
  | start => exact ⟨hs, rfl⟩
  | step h hstep ih =>
    have hmiddle := h.invariant hclosed hi
    exact ⟨(hstep.isSettled_iff hmiddle place).2 (Or.inr ih.1),
      (hstep.cost?_eq hmiddle hclosed hp (Or.inr ih.1)).trans ih.2⟩

/-- The places that were chosen are settled, at the costs at which they were chosen. -/
theorem Course.chosen (h : Course graph search choices last) {choice : Nat × Nat}
    (hm : choice ∈ choices) :
    choice.1 < graph.size ∧ last.isSettled choice.1 = true ∧
      last.cost? choice.1 = some choice.2 := by
  induction h with
  | start => cases hm
  | step h hstep ih =>
    have hmiddle := h.invariant hclosed hi
    rcases List.mem_append.1 hm with hm | hm
    · obtain ⟨hp, hs, hcost⟩ := ih hm
      exact ⟨hp, (hstep.isSettled_iff hmiddle _).2 (Or.inr hs),
        (hstep.cost?_eq hmiddle hclosed hp (Or.inr hs)).trans hcost⟩
    · obtain rfl := List.mem_singleton.1 hm
      obtain ⟨hp, hw, -⟩ := hstep.isCheapest
      exact ⟨hp, (hstep.isSettled_iff hmiddle _).2 (Or.inl rfl),
        (hstep.cost?_eq hmiddle hclosed hp (Or.inl rfl)).trans hw.2⟩

/-- **Places are chosen at costs that never fall**: one that is chosen waits, and costs no less than
those that are settled. -/
theorem Course.rising (h : Course graph search choices last) :
    choices.Pairwise fun choice later => choice.2 ≤ later.2 := by
  induction h with
  | start => exact List.Pairwise.nil
  | step h hstep ih =>
    refine List.pairwise_append.2 ⟨ih, List.pairwise_singleton _ _, fun choice hm later hl => ?_⟩
    obtain rfl := List.mem_singleton.1 hl
    obtain ⟨hp, hs, hcost⟩ := h.chosen hclosed hi hm
    obtain ⟨hlater, hw, -⟩ := hstep.isCheapest
    exact (h.invariant hclosed hi).ordered choice.1 hp hs choice.2 hcost later.1 hlater later.2 hw

theorem Course.length_le (h : Course graph search choices last) : choices.length ≤ graph.size := by
  have hlength := h.length_add_card hclosed hi
  have hcard := card_unsettled_le graph search
  omega

/-- What is known after any steps, and the cost of one more visit, are numbers of 64 bits. -/
theorem Course.sum_lt (h : Course graph search choices last)
    (hb : ∀ place cost, search.cost? place = some cost → cost ≤ 0) (hle : graph.size ≤ UInt32.size)
    {place cost : Nat} (hcost : last.cost? place = some cost) (next : Nat) :
    cost + visit graph next < UInt64.size := by
  have hlength := Nat.le_trans (h.length_le hclosed hi) hle
  calc cost + visit graph next
      ≤ 0 + choices.length * (UInt32.size - 1) + (UInt32.size - 1) :=
        Nat.add_le_add (h.cost_le hclosed hi hb place cost hcost) (visit_le graph next)
    _ ≤ 0 + UInt32.size * (UInt32.size - 1) + (UInt32.size - 1) :=
        Nat.add_le_add_right (Nat.add_le_add_left (Nat.mul_le_mul_right _ hlength) _) _
    _ < UInt64.size := by decide

/-- **A search can go on until nothing waits**, by induction on how many places are not settled. -/
theorem Course.exists_idle (h : Course graph search choices last) :
    ∃ all idle, Course graph search all idle ∧ idle.IsCheapest graph.size none := by
  induction hn : (unsettled graph last).card generalizing choices last with
  | zero =>
    refine ⟨choices, last, h, fun place hp cost hw => ?_⟩
    have hempty := Finset.card_eq_zero.1 hn
    exact Finset.eq_empty_iff_forall_notMem.1 hempty place (mem_unsettled.2 ⟨hp, hw.1⟩)
  | succ count ih =>
    have hcheapest := last.isCheapest graph.size
    cases hc : last.cheapest? graph.size with
    | none =>
      rw [hc] at hcheapest
      exact ⟨choices, last, h, hcheapest⟩
    | some best =>
      rw [hc] at hcheapest
      have hstep := h.step (.settle hcheapest (List.Perm.refl _))
      have hlength := h.length_add_card hclosed hi
      have hlength' := hstep.length_add_card hclosed hi
      rw [List.length_append, List.length_singleton] at hlength'
      exact ih hstep (by omega)

end Course

section Halts
variable {graph : Graph} {goal fuel : Nat} {search : Search} {choices : List (Nat × Nat)}
  {last : Search} (h : Halts graph goal fuel search choices last)
include h

theorem Halts.length_le : choices.length ≤ fuel := by
  cases h with
  | spent h hg hl => exact Nat.le_of_eq hl
  | idle h hg hl hc => exact Nat.le_of_lt hl
  | reached h hg hl hc =>
    rw [List.length_append]
    exact hl

variable (hclosed : graph.Closed) {start : Nat} (hi : Invariant graph start search)
include hclosed hi

theorem Halts.rising : choices.Pairwise fun choice later => choice.2 ≤ later.2 := by
  cases h with
  | spent h hg hl => exact h.rising hclosed hi
  | idle h hg hl hc => exact h.rising hclosed hi
  | reached h hg hl hc => exact (h.step (.settle hc (List.Perm.refl _))).rising hclosed hi

theorem Halts.chosen {choice : Nat × Nat} (hm : choice ∈ choices) :
    last.cost? choice.1 = some choice.2 := by
  cases h with
  | spent h hg hl => exact (h.chosen hclosed hi hm).2.2
  | idle h hg hl hc => exact (h.chosen hclosed hi hm).2.2
  | reached h hg hl hc =>
    rcases List.mem_append.1 hm with hm | hm
    · exact (h.chosen hclosed hi hm).2.2
    · obtain rfl := List.mem_singleton.1 hm
      exact hc.2.1.2

end Halts

/-- **The shortcuts of the search are sound**, by any rule to choose among the cheapest places and
with offers in any order. First, the search of `Graph.cost` is one of those that halt. Second, one
that halts has made one step less than there are places at most, has chosen places at costs that
never fall and that they still have, and knows of the goal what a search knows that goes on until
nothing waits. Third, however far such a search has gone on, the costs of what it has settled are
those of its choices and will not change; it can go on until nothing waits; and no sum is larger
than 64 bits hold, if there are at most two to the thirty-two places. -/
theorem shortcuts_sound {graph : Graph} (hclosed : graph.Closed) {start goal : Nat}
    (hstart : start < graph.size) (hgoal : goal < graph.size) :
    let opening := Search.start graph.size start
    let fuel := graph.size - 1
    (∃ choices, Halts graph goal fuel opening choices (run graph goal fuel opening)) ∧
      (∀ choices stopped, Halts graph goal fuel opening choices stopped →
        choices.length ≤ fuel ∧ choices.Pairwise (fun choice later => choice.2 ≤ later.2) ∧
          (∀ choice ∈ choices, stopped.cost? choice.1 = some choice.2) ∧
            ∀ all idle, Course graph opening all idle → idle.IsCheapest graph.size none →
              stopped.cost? goal = idle.cost? goal) ∧
      ∀ choices middle, Course graph opening choices middle →
        choices.length ≤ graph.size ∧ choices.Pairwise (fun choice later => choice.2 ≤ later.2) ∧
          (∀ choice ∈ choices,
            middle.isSettled choice.1 = true ∧ middle.cost? choice.1 = some choice.2) ∧
          (∀ place < graph.size, middle.isSettled place = true →
            ∀ more last, Course graph middle more last →
              last.isSettled place = true ∧ last.cost? place = middle.cost? place) ∧
          (∃ more idle, Course graph middle more idle ∧ idle.IsCheapest graph.size none) ∧
          (graph.size ≤ UInt32.size → ∀ place cost, middle.cost? place = some cost →
            ∀ next, cost + visit graph next < UInt64.size) := by
  intro opening fuel
  have hi : Invariant graph start opening := invariant_start hstart
  have hcard : (unsettled graph opening).card ≤ fuel + 1 :=
    Nat.le_trans (card_unsettled_le _ _) (Nat.le_add_of_sub_le (Nat.le_refl _))
  refine ⟨exists_halts_run graph goal fuel opening, fun choices stopped h => ?_,
    fun choices middle h => ?_⟩
  · refine ⟨h.length_le, h.rising hclosed hi, fun choice hm => h.chosen hclosed hi hm,
      fun all idle hcourse hidle => ?_⟩
    have hpriced := h.priced hclosed hi hstart hgoal hcard
    have hinvariant := hcourse.invariant hclosed hi
    exact hpriced.unique (hinvariant.priced_of_idle hclosed hstart hgoal hidle)
  · have hmiddle := h.invariant hclosed hi
    refine ⟨h.length_le hclosed hi, h.rising hclosed hi,
      fun choice hm => (h.chosen hclosed hi hm).2,
      fun place hp hs more last hmore => hmore.settled hclosed hmiddle hp hs, ?_,
      fun hle place cost hcost => h.sum_lt hclosed hi (cost?_start_le hstart) hle hcost⟩
    have hhere : Course graph middle [] middle := .start
    exact hhere.exists_idle hclosed hmiddle

/-- Two cheapest places at one cost, a place that leads to itself, a cycle that costs nothing, and a
place that is not reached. -/
theorem shortcuts_sound_ties :
    let graph : Graph := ⟨#[⟨"a", 5, [("c", 2), ("a", 0), ("b", 1)]⟩, ⟨"b", 1, [("d", 3)]⟩,
      ⟨"c", 1, [("d", 3), ("b", 1)]⟩, ⟨"d", 0, [("e", 4)]⟩, ⟨"e", 0, [("d", 3)]⟩,
      ⟨"f", 2, [("a", 0)]⟩], []⟩
    let opening := start graph.size 0
    graph.Closed ∧ (run graph 4 5 opening).cost? 4 = some 1 ∧
      (∃ all idle, Course graph opening all idle ∧ idle.IsCheapest graph.size none) ∧
      ∀ all idle, Course graph opening all idle → idle.IsCheapest graph.size none →
        idle.cost? 4 = some 1 := by
  intro graph opening
  have hclosed : graph.Closed := Graph.closed_iff.2 (by decide)
  have hcost : (run graph 4 5 opening).cost? 4 = some 1 := by decide +kernel
  have hsize : 0 < graph.size ∧ 4 < graph.size := by decide
  obtain ⟨⟨choices, hrun⟩, hhalts, hcourses⟩ := shortcuts_sound hclosed hsize.1 hsize.2
  obtain ⟨-, -, -, -, hends, -⟩ := hcourses [] opening .start
  obtain ⟨-, -, -, hsame⟩ := hhalts choices _ hrun
  exact ⟨hclosed, hcost, hends,
    fun all idle hcourse hidle => (hsame all idle hcourse hidle).symm.trans hcost⟩

end Search

end RouteCosts
