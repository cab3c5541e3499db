import RouteCosts.Proofs.Dialogue.Survey

/-!
# What an enquiry keeps to

An enquiry may hear anything: messages that it did not ask for, pages of any kind, costs out of
turn. What it sends in return, and what it learns, keeps to some rules all the same (`Disciplined`).
They are read off the log of its rounds (`Enquiry.rounds`).

* `Enquiry.Standing`: how an enquiry stands after what it has sent last.
* `Enquiry.Goes`: the ways in which a round can go, with `Standing.goes` and `Goes.standing`.
* `Standing.exists_goes`: so every round of a log goes in one of these ways.
* `enquiry_disciplined`: the rules, for all that may be heard.
-/

namespace RouteCosts

/-! ### The log of an enquiry -/

/-- The names that are received in answer to a request, none if it did not ask for a page. -/
def Enquiry.namesFor : Option Body → Body → List String
  | some (.locationsRequest _), .locationsResponse page => page.names
  | _, _ => []

/-- One message received, and what an enquiry makes of it. -/
structure Round where
  /-- What was sent last before, if the enquiry had not ended. -/
  asked : Option Message
  received : Message
  sent : Option Message
  /-- The enquiry after the round. -/
  enquiry : Enquiry

namespace Round

/-- The last message before the round has this body. -/
def Asked (round : Round) (body : Body) : Prop := round.asked.map Message.body = some body

/-- The message sent in return has this body. -/
def Sends (round : Round) (body : Body) : Prop := round.sent.map Message.body = some body

/-- The names of the page that is received, if one was asked for. -/
def names (round : Round) : List String :=
  Enquiry.namesFor (round.asked.map Message.body) round.received.body

/-- A cost is received right after the request for the route. -/
def Prices (round : Round) (cost : UInt64) : Prop :=
  (∃ i j, round.Asked (.routeRequest i j)) ∧ round.received.body = .routeResponse cost

end Round

/-- The rounds of an enquiry that hears some messages, each at some time. -/
def Enquiry.rounds (enquiry : Enquiry) (asked : Option Message) :
    List (Int64 × Message) → List Round
  | [] => []
  | (now, received) :: rest =>
    ⟨asked, received, (enquiry.answer now received).1, (enquiry.answer now received).2⟩ ::
      (enquiry.answer now received).2.rounds (enquiry.answer now received).1 rest

/-- **What an enquiry keeps to**, in the log of its rounds. An index fits a field of 64 bits if the
list it belongs to is no longer than that, as are all that a memory of 64-bit addresses holds. -/
structure Disciplined (route : Option (String × String)) (opening : Message) (log : List Round) :
    Prop where
  opened : ∀ round, log[0]? = some round → round.asked = some opening
  linked : ∀ k earlier later, log[k]? = some earlier → log[k + 1]? = some later →
    later.asked = earlier.sent
  requests : ∀ round ∈ log, ∀ message, round.sent = some message →
    (∃ start, message.body = .locationsRequest start) ∨ ∃ i j, message.body = .routeRequest i j
  /-- The first names are asked for when the server has said that it is there, and only then. -/
  first_page : ∀ k round, log[k]? = some round → round.Sends (.locationsRequest 0) →
    round.enquiry.locations.length < UInt64.size → k = 0 ∧ round.received.body = .statusResponse
  /-- All further requests for names go on where the names end, beyond the request before. -/
  next_page : ∀ k round start, log[k + 1]? = some round → round.Sends (.locationsRequest start) →
    start = UInt64.ofNat round.enquiry.locations.length ∧
      ∃ previous, round.Asked (.locationsRequest previous) ∧
        (round.enquiry.locations.length < UInt64.size → previous < start)
  /-- The route is asked for after the last page, by the first places that bear its names. -/
  route_request : ∀ round ∈ log, ∀ i j, round.Sends (.routeRequest i j) →
    (∃ start page, round.Asked (.locationsRequest start) ∧
      round.received.body = .locationsResponse page ∧
      (page.paginated = false ∨ page.names = [])) ∧
    ∃ first last, Wanted round.enquiry.locations route first last ∧
      i = UInt64.ofNat first ∧ j = UInt64.ofNat last ∧
      i.toNat < round.enquiry.locations.length ∧ j.toNat < round.enquiry.locations.length
  /-- An answer to what was asked is followed by the next request, as long as there is one. -/
  goes_on : ∀ round ∈ log,
    (round.Asked .statusRequest → round.received.body = .statusResponse →
      round.Sends (.locationsRequest 0)) ∧
    ∀ start page, round.Asked (.locationsRequest start) →
      round.received.body = .locationsResponse page →
      (page.paginated = true → page.names ≠ [] →
        round.Sends (.locationsRequest (UInt64.ofNat round.enquiry.locations.length))) ∧
      (page.paginated = false ∨ page.names = [] →
        ∀ first last, Wanted round.enquiry.locations route first last →
          round.Sends (.routeRequest (UInt64.ofNat first) (UInt64.ofNat last)))
  after_route : log.Pairwise fun earlier later =>
    (∃ i j, earlier.Sends (.routeRequest i j)) → later.sent = none
  after_none : log.Pairwise fun earlier later => earlier.sent = none →
    later.sent = none ∧ later.enquiry.locations = earlier.enquiry.locations ∧
      later.enquiry.cost = earlier.enquiry.cost
  /-- The names learnt are those of the pages that were asked for. -/
  locations : ∀ k round, log[k]? = some round →
    round.enquiry.locations = (log.take (k + 1)).flatMap Round.names
  /-- A cost is learnt from the answer to the request for the route, and from nothing else. -/
  cost : ∀ k round, log[k]? = some round → ∀ cost,
    round.enquiry.cost = some cost ↔ ∃ earlier ∈ log.take (k + 1), earlier.Prices cost

namespace Enquiry

/-! ### How an enquiry stands -/

/-- **How an enquiry stands** after it has sent a message, or none. -/
inductive Standing (route : Option (String × String)) : Option Body → Enquiry → Prop where
  | opening : Standing route (some .statusRequest) ⟨.awaitingStatus, route, [], none⟩
  | listing {known : List String} :
    Standing route (some (.locationsRequest (UInt64.ofNat known.length)))
      ⟨.awaitingLocations, route, known, none⟩
  | pricing {known : List String} {i j : UInt64} :
    Standing route (some (.routeRequest i j)) ⟨.awaitingRoute, route, known, none⟩
  | ended {known : List String} {cost : Option UInt64} :
    Standing route none ⟨.done, route, known, cost⟩

/-- A message answers what was sent before it. -/
inductive Fits : Option Body → Body → Prop where
  | status : Fits (some .statusRequest) .statusResponse
  | page {start : UInt64} {page : Page} :
    Fits (some (.locationsRequest start)) (.locationsResponse page)
  | cost {i j cost : UInt64} : Fits (some (.routeRequest i j)) (.routeResponse cost)

/-- **The ways in which a round can go.** -/
inductive Goes (route : Option (String × String)) :
    Option Body → Enquiry → Body → Option Body → Enquiry → Prop where
  | opened : Goes route (some .statusRequest) ⟨.awaitingStatus, route, [], none⟩ .statusResponse
      (some (.locationsRequest 0)) ⟨.awaitingLocations, route, [], none⟩
  | turned {known : List String} {page : Page} (hp : page.paginated = true) (hn : page.names ≠ []) :
    Goes route (some (.locationsRequest (UInt64.ofNat known.length)))
      ⟨.awaitingLocations, route, known, none⟩ (.locationsResponse page)
      (some (.locationsRequest (UInt64.ofNat (known ++ page.names).length)))
      ⟨.awaitingLocations, route, known ++ page.names, none⟩
  | routed {known : List String} {page : Page} {i j : Nat}
    (hp : page.paginated = false ∨ page.names = []) (hw : Wanted (known ++ page.names) route i j) :
    Goes route (some (.locationsRequest (UInt64.ofNat known.length)))
      ⟨.awaitingLocations, route, known, none⟩ (.locationsResponse page)
      (some (.routeRequest (UInt64.ofNat i) (UInt64.ofNat j)))
      ⟨.awaitingRoute, route, known ++ page.names, none⟩
  | listed {known : List String} {page : Page} (hp : page.paginated = false ∨ page.names = [])
    (hw : ∀ i j, ¬ Wanted (known ++ page.names) route i j) :
    Goes route (some (.locationsRequest (UInt64.ofNat known.length)))
      ⟨.awaitingLocations, route, known, none⟩ (.locationsResponse page)
      none ⟨.done, route, known ++ page.names, none⟩
  | priced {known : List String} {i j cost : UInt64} :
    Goes route (some (.routeRequest i j)) ⟨.awaitingRoute, route, known, none⟩
      (.routeResponse cost) none ⟨.done, route, known, some cost⟩
  | refused {asked : Option Body} {before : Enquiry} {received : Body}
    (hs : Standing route asked before) (hf : ¬ Fits asked received) :
    Goes route asked before received none before.finish

variable {route : Option (String × String)}

theorem goes_acceptPage (known : List String) (page : Page) :
    Goes route (some (.locationsRequest (UInt64.ofNat known.length)))
      ⟨.awaitingLocations, route, known, none⟩ (.locationsResponse page)
      (acceptPage ⟨.awaitingLocations, route, known, none⟩ page).1
      (acceptPage ⟨.awaitingLocations, route, known, none⟩ page).2 := by
  let enquiry : Enquiry := ⟨.awaitingLocations, route, known, none⟩
  show Goes route _ enquiry _ (enquiry.acceptPage page).1 (enquiry.acceptPage page).2
  by_cases hmore : page.paginated = true ∧ page.names ≠ []
  · rw [acceptPage_of_paginated enquiry hmore.1 hmore.2]
    exact .turned hmore.1 hmore.2
  · have hlast : page.paginated = false ∨ page.names = [] := by
      by_cases hp : page.paginated = true
      · exact Or.inr (by_contra fun hn => hmore ⟨hp, hn⟩)
      · exact Or.inl (Bool.eq_false_iff.2 hp)
    by_cases hw : ∃ i j, Wanted (known ++ page.names) route i j
    · obtain ⟨i, j, hw⟩ := hw
      rw [acceptPage_of_wanted enquiry hlast hw]
      exact .routed hlast hw
    · have hnone : ∀ i j, ¬ Wanted (known ++ page.names) route i j := fun i j h => hw ⟨i, j, h⟩
      rw [acceptPage_of_not_wanted enquiry hlast hnone]
      exact .listed hlast hnone

/-- An enquiry ends at what it does not expect. -/
theorem Standing.accept_of_not_fits {asked : Option Body} {enquiry : Enquiry} {received : Body}
    (hs : Standing route asked enquiry) (hf : ¬ Fits asked received) :
    enquiry.accept received = (none, enquiry.finish) := by
  cases hs with
  | opening =>
    cases received with
    | statusResponse => exact absurd .status hf
    | _ => rfl
  | listing =>
    cases received with
    | locationsResponse page => exact absurd .page hf
    | _ => rfl
  | pricing =>
    cases received with
    | routeResponse cost => exact absurd .cost hf
    | _ => rfl
  | ended => cases received <;> rfl

/-- **Every round goes in one of the ways.** -/
theorem Standing.goes {asked : Option Body} {enquiry : Enquiry}
    (hs : Standing route asked enquiry) (received : Body) :
    Goes route asked enquiry received (enquiry.accept received).1 (enquiry.accept received).2 := by
  by_cases hf : Fits asked received
  · cases hs with
    | opening =>
      cases hf
      exact .opened
    | listing =>
      cases hf
      exact goes_acceptPage _ _
    | pricing =>
      cases hf
      exact .priced
    | ended => cases hf
  · rw [hs.accept_of_not_fits hf]
    exact .refused hs hf

theorem Standing.finish {asked : Option Body} {enquiry : Enquiry}
    (hs : Standing route asked enquiry) : Standing route none enquiry.finish := by
  cases hs <;> exact .ended

/-! ### What one round does -/

namespace Goes
variable {asked sent : Option Body} {before after : Enquiry} {received : Body}
  (h : Goes route asked before received sent after)
include h

theorem standing : Standing route sent after := by
  cases h with
  | opened => exact @Standing.listing route []
  | turned => exact .listing
  | routed => exact .pricing
  | listed => exact .ended
  | priced => exact .ended
  | refused hs => exact hs.finish

theorem of_sent {body : Body} (hsent : sent = some body) :
    (∃ start, body = .locationsRequest start) ∨ ∃ i j, body = .routeRequest i j := by
  cases h with
  | opened => exact Or.inl ⟨_, (Option.some.inj hsent).symm⟩
  | turned => exact Or.inl ⟨_, (Option.some.inj hsent).symm⟩
  | routed => exact Or.inr ⟨_, _, (Option.some.inj hsent).symm⟩
  | _ => cases hsent

/-- Names are asked for after a page, or at first after the status. -/
theorem of_locationsRequest {start : UInt64} (hsent : sent = some (.locationsRequest start)) :
    (asked = some .statusRequest ∧ received = .statusResponse ∧ start = 0) ∨
      start = UInt64.ofNat after.locations.length ∧
        ∃ previous, asked = some (.locationsRequest previous) ∧
          (after.locations.length < UInt64.size → previous < start) := by
  cases h with
  | opened =>
    cases hsent
    exact Or.inl ⟨rfl, rfl, rfl⟩
  | @turned known page hp hn =>
    cases hsent
    refine Or.inr ⟨rfl, _, rfl, fun hlt => ?_⟩
    -- the page is not empty, so the list has grown since the request that it answers
    have hpositive := List.length_pos_iff.2 hn
    dsimp only at hlt ⊢
    rw [List.length_append] at hlt ⊢
    rw [UInt64.lt_iff_toNat_lt, UInt64.toNat_ofNat_of_lt' hlt, UInt64.toNat_ofNat_of_lt' (by omega)]
    omega
  | _ => cases hsent

/-- The route is asked for after the last page. -/
theorem of_routeRequest {i j : UInt64} (hsent : sent = some (.routeRequest i j)) :
    (∃ start page, asked = some (.locationsRequest start) ∧ received = .locationsResponse page ∧
        (page.paginated = false ∨ page.names = [])) ∧
      ∃ first last, Wanted after.locations route first last ∧
        i = UInt64.ofNat first ∧ j = UInt64.ofNat last ∧
        i.toNat < after.locations.length ∧ j.toNat < after.locations.length := by
  cases h with
  | @routed known page first last hp hw =>
    cases hsent
    have ⟨_, _, _, hfirst, hlast⟩ := hw
    exact ⟨⟨_, page, rfl, rfl, hp⟩, first, last, hw, rfl, rfl,
      Nat.lt_of_le_of_lt (Nat.mod_le _ _) hfirst.lt, Nat.lt_of_le_of_lt (Nat.mod_le _ _) hlast.lt⟩
  | _ => cases hsent

theorem sent_of_status (ha : asked = some .statusRequest) (hr : received = .statusResponse) :
    sent = some (.locationsRequest 0) := by
  subst ha hr
  cases h with
  | opened => rfl
  | refused hs hf => exact absurd .status hf

/-- A page that was asked for is followed by the next one, or by the route if one is wanted. -/
theorem sent_of_page {start : UInt64} {page : Page} (ha : asked = some (.locationsRequest start))
    (hr : received = .locationsResponse page) :
    (page.paginated = true → page.names ≠ [] →
      sent = some (.locationsRequest (UInt64.ofNat after.locations.length))) ∧
    (page.paginated = false ∨ page.names = [] →
      ∀ first last, Wanted after.locations route first last →
        sent = some (.routeRequest (UInt64.ofNat first) (UInt64.ofNat last))) := by
  have hmore (hp : page.paginated = true) (hn : page.names ≠ []) :
      ¬ (page.paginated = false ∨ page.names = []) := by
    rintro (hlast | hlast)
    · rw [hp] at hlast
      cases hlast
    · exact hn hlast
  subst hr
  cases h with
  | turned hp hn => exact ⟨fun _ _ => rfl, fun hlast => absurd hlast (hmore hp hn)⟩
  | routed hlast hw =>
    refine ⟨fun hp hn => absurd hlast (hmore hp hn), fun _ first last hw' => ?_⟩
    obtain ⟨rfl, rfl⟩ := hw.unique hw'
    rfl
  | listed hlast hnone =>
    exact ⟨fun hp hn => absurd hlast (hmore hp hn),
      fun _ first last hw => absurd hw (hnone first last)⟩
  | refused hs hf =>
    subst ha
    exact absurd .page hf

theorem phase_of_none (hsent : sent = none) : after.phase = .done := by
  subst hsent
  cases h.standing
  rfl

theorem phase_of_routeRequest {i j : UInt64} (hsent : sent = some (.routeRequest i j)) :
    after.phase = .awaitingRoute := by
  subst hsent
  cases h.standing
  rfl

theorem locations_eq : after.locations = before.locations ++ namesFor asked received := by
  cases h with
  | priced => exact (List.append_nil _).symm
  | refused hs hf =>
    have hnone : namesFor asked received = [] := by
      unfold namesFor
      split
      · exact absurd .page hf
      · rfl
    rw [hnone, List.append_nil]
    rfl
  | _ => rfl

theorem cost_eq_some_iff {cost : UInt64} : after.cost = some cost ↔
    before.cost = some cost ∨
      (∃ i j, asked = some (.routeRequest i j)) ∧ received = .routeResponse cost := by
  cases h with
  | refused hs hf =>
    refine ⟨Or.inl, fun hp => hp.resolve_right ?_⟩
    rintro ⟨⟨i, j, rfl⟩, rfl⟩
    exact hf .cost
  | _ => simp

end Goes

/-! ### The rounds of a log -/

theorem answer_eq (now : Int64) (enquiry : Enquiry) (received : Message) :
    ((enquiry.answer now received).1.map Message.body, (enquiry.answer now received).2) =
      enquiry.accept received.body := by
  unfold answer
  rcases enquiry.accept received.body with ⟨_ | body, next⟩ <;> rfl

theorem answer_of_done {enquiry : Enquiry} (h : enquiry.phase = .done) (now : Int64)
    (received : Message) : enquiry.answer now received = (none, enquiry) := by
  obtain ⟨phase, route, locations, cost⟩ := enquiry
  obtain rfl : phase = .done := h
  rfl

theorem answer_of_awaitingRoute {enquiry : Enquiry} (h : enquiry.phase = .awaitingRoute)
    (now : Int64) (received : Message) :
    (enquiry.answer now received).1 = none ∧ (enquiry.answer now received).2.phase = .done := by
  obtain ⟨phase, route, locations, cost⟩ := enquiry
  obtain rfl : phase = .awaitingRoute := h
  obtain ⟨header, body⟩ := received
  cases body <;> exact ⟨rfl, rfl⟩

theorem rounds_cons (enquiry : Enquiry) (asked : Option Message) (first : Int64 × Message)
    (rest : List (Int64 × Message)) :
    enquiry.rounds asked (first :: rest) =
      ⟨asked, first.2, (enquiry.answer first.1 first.2).1, (enquiry.answer first.1 first.2).2⟩ ::
        (enquiry.answer first.1 first.2).2.rounds (enquiry.answer first.1 first.2).1 rest := rfl

/-- An enquiry that is over stays as it is and says nothing. -/
theorem rounds_of_done {enquiry : Enquiry} (h : enquiry.phase = .done) (asked : Option Message)
    (heard : List (Int64 × Message)) :
    ∀ round ∈ enquiry.rounds asked heard, round.sent = none ∧ round.enquiry = enquiry := by
  induction heard generalizing asked with
  | nil => exact List.forall_mem_nil _
  | cons first rest ih =>
    rw [rounds_cons, answer_of_done h]
    exact List.forall_mem_cons.2 ⟨⟨rfl, rfl⟩, ih none⟩

theorem rounds_of_awaitingRoute {enquiry : Enquiry} (h : enquiry.phase = .awaitingRoute)
    (asked : Option Message) (heard : List (Int64 × Message)) :
    ∀ round ∈ enquiry.rounds asked heard, round.sent = none := by
  cases heard with
  | nil => exact List.forall_mem_nil _
  | cons first rest =>
    obtain ⟨hnone, hdone⟩ := answer_of_awaitingRoute h first.1 first.2
    rw [rounds_cons]
    exact List.forall_mem_cons.2 ⟨hnone, fun round hr => (rounds_of_done hdone _ rest round hr).1⟩

theorem rounds_map_received (enquiry : Enquiry) (asked : Option Message)
    (heard : List (Int64 × Message)) :
    (enquiry.rounds asked heard).map Round.received = heard.map Prod.snd := by
  induction heard generalizing enquiry asked with
  | nil => rfl
  | cons first rest ih => rw [rounds_cons, List.map_cons, List.map_cons, ih]

theorem asked_of_succ {enquiry : Enquiry} {asked : Option Message} {heard : List (Int64 × Message)}
    {k : Nat} {earlier later : Round} (he : (enquiry.rounds asked heard)[k]? = some earlier)
    (hl : (enquiry.rounds asked heard)[k + 1]? = some later) : later.asked = earlier.sent := by
  induction heard generalizing enquiry asked k with
  | nil => cases he
  | cons first rest ih =>
    rw [rounds_cons, List.getElem?_cons_succ] at hl
    cases k with
    | zero =>
      cases he
      cases rest with
      | nil => cases hl
      | cons second rest =>
        cases hl
        rfl
    | succ k =>
      rw [rounds_cons, List.getElem?_cons_succ] at he
      exact ih he hl

namespace Standing
variable {asked : Option Message} {enquiry : Enquiry}

/-- The first round of a log. -/
theorem goes_answer (hs : Standing route (asked.map Message.body) enquiry) (now : Int64)
    (received : Message) :
    Goes route (asked.map Message.body) enquiry received.body
      ((enquiry.answer now received).1.map Message.body) (enquiry.answer now received).2 := by
  have h := hs.goes received.body
  rwa [← answer_eq now] at h

/-- **Every round of a log goes in one of the ways.** -/
theorem exists_goes (hs : Standing route (asked.map Message.body) enquiry)
    {heard : List (Int64 × Message)} {round : Round} (h : round ∈ enquiry.rounds asked heard) :
    ∃ before, Goes route (round.asked.map Message.body) before round.received.body
      (round.sent.map Message.body) round.enquiry := by
  induction heard generalizing enquiry asked with
  | nil => cases h
  | cons first rest ih =>
    have hgoes := hs.goes_answer first.1 first.2
    rcases List.mem_cons.1 h with rfl | h
    · exact ⟨enquiry, hgoes⟩
    · exact ih hgoes.standing h

/-- After the request for the route, and after a round without answer, nothing more is said. -/
theorem pairwise_rounds (hs : Standing route (asked.map Message.body) enquiry)
    (heard : List (Int64 × Message)) :
    (enquiry.rounds asked heard).Pairwise fun earlier later =>
      ((∃ i j, earlier.Sends (.routeRequest i j)) → later.sent = none) ∧
        (earlier.sent = none → later.sent = none ∧ later.enquiry = earlier.enquiry) := by
  induction heard generalizing enquiry asked with
  | nil => exact List.Pairwise.nil
  | cons first rest ih =>
    have hgoes := hs.goes_answer first.1 first.2
    -- the first round against the others; those are a log of their own
    refine List.pairwise_cons.2 ⟨fun later hl => ⟨?_, ?_⟩, ih hgoes.standing⟩
    · rintro ⟨i, j, hsent⟩
      exact rounds_of_awaitingRoute (hgoes.phase_of_routeRequest hsent) _ rest later hl
    · intro hsent
      exact rounds_of_done (hgoes.phase_of_none (Option.map_eq_none_iff.2 hsent)) _ rest later hl

theorem locations_eq (hs : Standing route (asked.map Message.body) enquiry)
    {heard : List (Int64 × Message)} {k : Nat} {round : Round}
    (h : (enquiry.rounds asked heard)[k]? = some round) :
    round.enquiry.locations =
      enquiry.locations ++ ((enquiry.rounds asked heard).take (k + 1)).flatMap Round.names := by
  induction heard generalizing enquiry asked k with
  | nil => cases h
  | cons first rest ih =>
    have hgoes := hs.goes_answer first.1 first.2
    rw [rounds_cons] at h ⊢
    rw [List.take_succ_cons, List.flatMap_cons]
    cases k with
    | zero =>
      cases h
      rw [List.take_zero, List.flatMap_nil, List.append_nil]
      exact hgoes.locations_eq
    | succ k =>
      rw [List.getElem?_cons_succ] at h
      rw [ih hgoes.standing h, hgoes.locations_eq, List.append_assoc]
      rfl

theorem cost_eq_some_iff (hs : Standing route (asked.map Message.body) enquiry)
    {heard : List (Int64 × Message)} {k : Nat} {round : Round}
    (h : (enquiry.rounds asked heard)[k]? = some round) {cost : UInt64} :
    round.enquiry.cost = some cost ↔ enquiry.cost = some cost ∨
      ∃ earlier ∈ (enquiry.rounds asked heard).take (k + 1), earlier.Prices cost := by
  induction heard generalizing enquiry asked k with
  | nil => cases h
  | cons first rest ih =>
    have hgoes := hs.goes_answer first.1 first.2
    rw [rounds_cons] at h ⊢
    rw [List.take_succ_cons, List.exists_mem_cons_iff]
    cases k with
    | zero =>
      cases h
      rw [List.take_zero, hgoes.cost_eq_some_iff]
      exact or_congr_right (or_iff_left fun ⟨_, h, _⟩ => List.not_mem_nil h).symm
    | succ k =>
      rw [List.getElem?_cons_succ] at h
      rw [ih hgoes.standing h, hgoes.cost_eq_some_iff, or_assoc]
      rfl

/-- After the first round the status has been asked for. -/
theorem asked_ne_statusRequest (hs : Standing route (asked.map Message.body) enquiry)
    {heard : List (Int64 × Message)} {k : Nat} {round : Round}
    (h : (enquiry.rounds asked heard)[k + 1]? = some round) : ¬ round.Asked .statusRequest := by
  obtain ⟨earlier, he⟩ : ∃ earlier, (enquiry.rounds asked heard)[k]? = some earlier := by
    obtain ⟨hlt, -⟩ := List.getElem?_eq_some_iff.1 h
    exact ⟨_, List.getElem?_eq_getElem (Nat.lt_of_succ_lt hlt)⟩
  obtain ⟨before, hgoes⟩ := hs.exists_goes (List.mem_of_getElem? he)
  unfold Round.Asked
  rw [asked_of_succ he h]
  intro hsent
  rcases hgoes.of_sent hsent with ⟨_, hb⟩ | ⟨_, _, hb⟩ <;> cases hb

end Standing

end Enquiry

/-- **An enquiry keeps to its rules**, whatever it hears and at whatever times: what a server may
say that knows nothing of them, or does not mean well, is heard like anything else. -/
theorem enquiry_disciplined (route : Option (String × String)) (now : Int64)
    (heard : List (Int64 × Message)) :
    let log := (Enquiry.new route).rounds (some (Enquiry.opening now)) heard
    log.map Round.received = heard.map Prod.snd ∧
      Disciplined route (Enquiry.opening now) log := by
  have hs : Enquiry.Standing route ((some (Enquiry.opening now)).map Message.body)
      (Enquiry.new route) := .opening
  have hpairwise := hs.pairwise_rounds heard
  refine ⟨Enquiry.rounds_map_received _ _ _, ?_⟩
  constructor
  case opened =>
    intro round h
    cases heard with
    | nil => cases h
    | cons first rest =>
      cases h
      rfl
  case linked => exact fun k earlier later he hl => Enquiry.asked_of_succ he hl
  case requests =>
    intro round h message hsent
    obtain ⟨before, hgoes⟩ := hs.exists_goes h
    exact hgoes.of_sent (by rw [hsent]; rfl)
  case first_page =>
    intro k round h hsent hlt
    obtain ⟨before, hgoes⟩ := hs.exists_goes (List.mem_of_getElem? h)
    rcases hgoes.of_locationsRequest hsent with ⟨hasked, hreceived, -⟩ | ⟨-, _, -, hless⟩
    · cases k with
      | zero => exact ⟨rfl, hreceived⟩
      | succ k => exact absurd hasked (hs.asked_ne_statusRequest h)
    · exact absurd (hless hlt) UInt64.not_lt_zero
  case next_page =>
    intro k round start h hsent
    obtain ⟨before, hgoes⟩ := hs.exists_goes (List.mem_of_getElem? h)
    rcases hgoes.of_locationsRequest hsent with ⟨hasked, -⟩ | hnext
    · exact absurd hasked (hs.asked_ne_statusRequest h)
    · exact hnext
  case route_request =>
    intro round h i j hsent
    obtain ⟨before, hgoes⟩ := hs.exists_goes h
    exact hgoes.of_routeRequest hsent
  case goes_on =>
    intro round h
    obtain ⟨before, hgoes⟩ := hs.exists_goes h
    exact ⟨hgoes.sent_of_status, fun start page => hgoes.sent_of_page⟩
  case after_route => exact hpairwise.imp And.left
  case after_none =>
    refine hpairwise.imp fun h hnone => ?_
    obtain ⟨hsent, henquiry⟩ := h.2 hnone
    exact ⟨hsent, by rw [henquiry], by rw [henquiry]⟩
  case locations =>
    intro k round h
    rw [hs.locations_eq h]
    rfl
  case cost =>
    intro k round h cost
    rw [hs.cost_eq_some_iff h]
    exact or_iff_right nofun

end RouteCosts
