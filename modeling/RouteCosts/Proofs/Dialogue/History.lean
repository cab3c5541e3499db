import RouteCosts.Dialogue.Service
import RouteCosts.Proofs.Graph.Cost
import RouteCosts.Proofs.Graph.Upkeep
import RouteCosts.Proofs.Listing.Names

/-!
# A server after any history

Between two requests to a server its files may have changed in any way, and requests of every kind
may have come before (`Service.heldAfter`). Whatever has happened, the planner of the server is in
order (`Planner.InOrder`): its graph is the one of the data that it holds, and these are as the
grammar of the files wants them. So an index and the name at that index stand for the same place, and
routes asked for by index cost what they cost by name (`Service.route_by_index`).
-/

namespace RouteCosts

/-! ### Planners in order -/

/-- One request to a server: when it comes, what the files are then, and what it says. -/
structure Occasion where
  time : Int64
  files : DataFiles
  request : Message

/-- The planner that a server holds after some requests. -/
def Service.heldAfter (history : List Occasion) : FilePlanner :=
  history.foldl (fun planner o => (respond o.time o.files planner o.request).2) .new

theorem Service.heldAfter_concat (history : List Occasion) (last : Occasion) :
    heldAfter (history ++ [last]) =
      (respond last.time last.files (heldAfter history) last.request).2 :=
  List.foldl_concat _ _ _ _

namespace Planner

/-- **A planner is in order**: its graph is the one that would be wired now, and the locations it
holds are such as a file lists them. -/
structure InOrder (planner : FilePlanner) : Prop where
  current : planner.IsCurrent
  listed : Listing.Listed planner.locationSource.data

theorem inOrder_new : FilePlanner.new.InOrder where
  current := Planner.isCurrent_new rfl _
  listed := Listing.listed_nil

theorem listed_load {source : LocationFile} (h : Listing.Listed source.data) (file : FileState) :
    Listing.Listed (source.load Listing.locations file).2.data := by
  show Listing.Listed (source.toFileSource.load Listing.locations file).2.data
  rcases FileSource.load_cases Listing.locations source.toFileSource file with
    ⟨stamp, -, -, hload⟩ | ⟨-, ⟨data, hgives, hload⟩ | ⟨error, -, hload⟩⟩
  · rwa [hload]
  · obtain ⟨contents, modified, text, -, -, hgrammar⟩ := hgives
    rw [hload]
    exact (Listing.listed_of_locations hgrammar).1
  · rwa [hload]

section InOrder
variable {planner : FilePlanner} (h : planner.InOrder)
include h

theorem InOrder.refresh (files : DataFiles) :
    (planner.refresh files).InOrder where
  current := h.current.refresh LocationFile.announces RouteFile.announces files
  listed := by
    rw [(planner.sources_refresh files).1]
    exact listed_load h.listed files.1

/-- **A request leaves a planner in order**, whether it is answered or not. -/
theorem InOrder.respond (now : Int64) (files : DataFiles) (request : Message) :
    (Service.respond now files planner request).2.InOrder := by
  unfold Service.respond
  cases request.body with
  | locationsRequest start => exact h.refresh files
  | routeRequest start finish => exact h.refresh files
  | _ => exact h

theorem InOrder.names_eq : planner.graph.names = planner.locationSource.data.map Location.name := by
  rw [h.current]
  exact Graph.names_wire _ _

theorem InOrder.closed : planner.graph.Closed := by
  rw [h.current]
  exact Graph.closed_wire h.listed.nodup

/-- **An index and the name at it** stand for the same place. -/
theorem InOrder.costByName_eq {i j : Nat} {first last : String}
    (hi : planner.graph.names[i]? = some first) (hj : planner.graph.names[j]? = some last) :
    planner.graph.costByName first last = planner.graph.cost i j := by
  rw [h.names_eq] at hi hj
  rw [h.current]
  exact Graph.costByName_wire _ h.listed.nodup hi hj

end InOrder

/-- By induction on the requests. -/
theorem inOrder_heldAfter (history : List Occasion) : (Service.heldAfter history).InOrder := by
  induction history using List.reverseRecOn with
  | nil => exact inOrder_new
  | append_singleton history last ih =>
    rw [Service.heldAfter_concat]
    exact ih.respond last.time last.files last.request

end Planner

/-! ### Routes by index and by name -/

namespace Graph

theorem length_names (graph : Graph) : graph.names.length = graph.size := by
  rw [names, List.length_map, Array.length_toList, size]

theorem lt_size_of_names {graph : Graph} {place : Nat} {name : String}
    (h : graph.names[place]? = some name) : place < graph.size := by
  rw [← graph.length_names]
  exact (List.getElem?_eq_some_iff.1 h).1

end Graph

namespace Service

section CostOf
variable {graph : Graph} {start finish : UInt64}

theorem costOf_of_start_le (h : graph.size ≤ start.toNat) :
    costOf graph start finish = .error (.outOfRange start graph.size) :=
  if_neg (Nat.not_lt.2 h)

theorem costOf_of_finish_le (hs : start.toNat < graph.size) (h : graph.size ≤ finish.toNat) :
    costOf graph start finish = .error (.outOfRange finish graph.size) := by
  rw [costOf, if_pos hs, if_neg (Nat.not_lt.2 h)]

/-- Between two places the cost decides: it is the answer, or that there is no route. -/
theorem costOf_cases {first last : String} (hs : graph.names[start.toNat]? = some first)
    (hf : graph.names[finish.toNat]? = some last) :
    (∃ cost, graph.cost start.toNat finish.toNat = .ok cost ∧
        costOf graph start finish = .ok (UInt64.ofNat cost)) ∨
      graph.cost start.toNat finish.toNat = .error (.unreachable first last) ∧
        costOf graph start finish = .error (.route (.unreachable first last)) := by
  unfold costOf
  rw [if_pos (Graph.lt_size_of_names hs), if_pos (Graph.lt_size_of_names hf)]
  cases hc : graph.cost start.toNat finish.toNat with
  | ok cost => exact Or.inl ⟨cost, rfl, rfl⟩
  | error error =>
    obtain rfl := Graph.eq_unreachable_of_cost hs hf hc
    exact Or.inr ⟨rfl, rfl⟩

theorem costOf_ne_unknown (graph : Graph) (start finish : UInt64) (name : String) :
    costOf graph start finish ≠ .error (.route (.unknown name)) := by
  by_cases hs : start.toNat < graph.size
  · by_cases hf : finish.toNat < graph.size
    · rw [← graph.length_names] at hs hf
      rcases costOf_cases (List.getElem?_eq_getElem hs) (List.getElem?_eq_getElem hf) with
        ⟨cost, -, hcost⟩ | ⟨-, hcost⟩
      · rw [hcost]
        nofun
      · rw [hcost]
        nofun
    · rw [costOf_of_finish_le hs (Nat.le_of_not_lt hf)]
      nofun
  · rw [costOf_of_start_le (Nat.le_of_not_lt hs)]
    nofun

end CostOf

/-- **A route by index is the route by name.** Take a server after any requests, with any files at
each of them, and the names that it would list now. A request with an index beyond the names is
refused with that index and the number of names, that of the start first. Any other request says of
the two places what their names do: the same cost, or that the one can not be reached from the
other. No place is unknown. The search looks at no place that is not there and, if there are at most
two to the thirty-two names, adds up nothing that 64 bits do not hold. The message sent in return for
such a request is the answer, or none at all. -/
theorem route_by_index (history : List Occasion) (files : DataFiles) (start finish : UInt64)
    (now : Int64) :
    let planner := heldAfter history
    let fresh := planner.refresh files
    let names := fresh.graph.names
    let answer := (route now files planner start finish).1
    (names.length ≤ start.toNat → answer = .error (.outOfRange start names.length)) ∧
      (start.toNat < names.length → names.length ≤ finish.toNat →
        answer = .error (.outOfRange finish names.length)) ∧
      (∀ first last, names[start.toNat]? = some first → names[finish.toNat]? = some last →
        (∃ cost, (planner.costByName files first last).1 = .ok cost ∧
            answer = .ok (.stamped now (.routeResponse (UInt64.ofNat cost))) ∧
            (names.length ≤ UInt32.size → cost < UInt64.size)) ∨
          (planner.costByName files first last).1 = .error (.unreachable first last) ∧
            answer = .error (.route (.unreachable first last))) ∧
      (∀ name, answer ≠ .error (.route (.unknown name))) ∧
      fresh.graph.Closed ∧
      (names.length ≤ UInt32.size → start.toNat < names.length →
        fresh.graph.SumsFit start.toNat finish.toNat) ∧
      ∀ request, request.body = .routeRequest start finish →
        Service.answer now files planner request = (answer.toOption, fresh) := by
  intro planner fresh names answer
  have horder : fresh.InOrder := (Planner.inOrder_heldAfter history).refresh files
  have hlength : names.length = fresh.graph.size := fresh.graph.length_names
  have hanswer : answer = (costOf fresh.graph start finish).map
      fun c => Message.stamped now (.routeResponse c) := rfl
  rw [hlength, hanswer]
  refine ⟨fun hs => ?_, fun hs hf => ?_, fun first last hs hf => ?_, fun name hn => ?_,
    horder.closed, fun hle hs => Graph.sumsFit horder.closed hle hs _, fun request hr => ?_⟩
  · rw [costOf_of_start_le hs]
    rfl
  · rw [costOf_of_finish_le hs hf]
    rfl
  · have hbyName : (planner.costByName files first last).1 =
        fresh.graph.cost start.toNat finish.toNat := horder.costByName_eq hs hf
    rw [hbyName]
    rcases costOf_cases hs hf with ⟨cost, hcost, hof⟩ | ⟨hcost, hof⟩
    · refine Or.inl ⟨cost, hcost, by rw [hof]; rfl, fun hle => ?_⟩
      exact Graph.cost_lt horder.closed hle (Graph.lt_size_of_names hs) hcost
    · exact Or.inr ⟨hcost, by rw [hof]; rfl⟩
  · have hne := costOf_ne_unknown fresh.graph start finish name
    cases hof : costOf fresh.graph start finish with
    | ok cost =>
      rw [hof] at hn
      cases hn
    | error error =>
      obtain rfl := Except.error.inj (hof ▸ hn)
      exact hne hof
  · unfold Service.answer respond
    rw [hr]
    rfl

/-- The file of locations was another one before, and the file of routes is gone. -/
theorem route_by_index_after_change :
    let early : DataFiles := (.file (Utf8.bytes "b,9") ⟨0, 0⟩, .file (Utf8.bytes "a,b") ⟨0, 0⟩)
    let late : DataFiles := (.file (Utf8.bytes "a,1\nb,2") ⟨1, 0⟩, .missing)
    let planner := heldAfter [⟨3, early, .stamped 1 (.locationsRequest 0)⟩]
    (route 5 late planner 0 1).1 = .ok (.stamped 5 (.routeResponse 3)) ∧
      (route 5 late planner 1 0).1 = .error (.route (.unreachable "b" "a")) ∧
      (route 5 late planner 2 0).1 = .error (.outOfRange 2 2) ∧
      (route 5 late planner 0 2).1 = .error (.outOfRange 2 2) := by
  intro early late planner
  have hnames : (planner.refresh late).graph.names = ["a", "b"] := by decide +kernel
  have hforth : (planner.costByName late "a" "b").1 = .ok 3 := by decide +kernel
  have hback : (planner.costByName late "b" "a").1 = .error (.unreachable "b" "a") := by
    decide +kernel
  let history : List Occasion := [⟨3, early, .stamped 1 (.locationsRequest 0)⟩]
  have hab := (route_by_index history late 0 1 5).2.2.1
  have hba := (route_by_index history late 1 0 5).2.2.1
  have hstart := (route_by_index history late 2 0 5).1
  have hfinish := (route_by_index history late 0 2 5).2.1
  refine ⟨?_, ?_, ?_, ?_⟩
  · rcases hab "a" "b" (by rw [hnames]; rfl) (by rw [hnames]; rfl) with
      ⟨cost, hcost, hanswer, -⟩ | ⟨hcost, -⟩
    · obtain rfl := Except.ok.inj (hcost.symm.trans hforth)
      exact hanswer
    · cases hcost.symm.trans hforth
  · rcases hba "b" "a" (by rw [hnames]; rfl) (by rw [hnames]; rfl) with
      ⟨cost, hcost, -⟩ | ⟨-, hanswer⟩
    · cases hcost.symm.trans hback
    · exact hanswer
  · rw [hnames] at hstart
    exact hstart (by decide)
  · rw [hnames] at hfinish
    exact hfinish (by decide) (by decide)

end Service

end RouteCosts
