import RouteCosts.Proofs.Dialogue.Survey

/-!
# Sessions that share a server

All sessions of a server ask the same planner, one request at a time (`Turn`, `Server.answers`). As
long as the files stay, none of them can tell: a planner that was asked before is either as new or
as it is after its first request (`Current`), and both answer alike, whatever the files are.

* `Service.respond_of_current`: what a planner that is current answers, and that it stays current.
* `Service.respond_at`: the time of a request shows in the time of its answer only.
* `sessions_independent`: the answers to a run of turns, and to one session among others.
-/

namespace RouteCosts

/-! ### Answers and their time -/

/-- A message as it would have been made at another time. -/
def Message.at (message : Message) (now : Int64) : Message :=
  { message with header := { message.header with timestamp := now } }

theorem Service.page_at {σ τ ε ζ : Type} [LocationSource σ ε] [RouteSource τ ζ] (now time : Int64)
    (outside : ε × ζ) (planner : Planner σ τ) (start : UInt64) :
    (page now outside planner start).1 = (page time outside planner start).1.map (·.at now) := by
  unfold page
  dsimp only
  cases pageOf (planner.refresh outside).graph.names start <;> rfl

theorem Service.route_at {σ τ ε ζ : Type} [LocationSource σ ε] [RouteSource τ ζ] (now time : Int64)
    (outside : ε × ζ) (planner : Planner σ τ) (start finish : UInt64) :
    (route now outside planner start finish).1 =
      (route time outside planner start finish).1.map (·.at now) := by
  unfold route
  dsimp only
  cases costOf (planner.refresh outside).graph start finish <;> rfl

/-- **The time of a request shows in the time of its answer only**, also if the answer is a
reason. -/
theorem Service.respond_at {σ τ ε ζ : Type} [LocationSource σ ε] [RouteSource τ ζ]
    (now time : Int64) (outside : ε × ζ) (planner : Planner σ τ) (request : Message) :
    (respond now outside planner request).1 =
      (respond time outside planner request).1.map (·.at now) := by
  unfold respond
  cases request.body with
  | locationsRequest start => exact page_at now time outside planner start
  | routeRequest start finish => exact route_at now time outside planner start finish
  | _ => rfl

/-! ### A planner that is current -/

section Current
variable {files : DataFiles} {planner : FilePlanner} (hc : Current files planner)
include hc

/-- **A planner that is current answers as a new one does**, and is current after it. -/
theorem Service.respond_of_current (now : Int64) (request : Message) :
    (respond now files planner request).1 = (respond now files FilePlanner.new request).1 ∧
      Current files (respond now files planner request).2 := by
  have hc' : planner.refresh files = FilePlanner.new.refresh files := hc
  have hnext : Current files (planner.refresh files) := hc'.symm ▸ current_refresh files
  unfold respond
  cases request.body with
  | locationsRequest start =>
    refine ⟨?_, hnext⟩
    unfold page
    dsimp only
    rw [hc']
  | routeRequest start finish =>
    refine ⟨?_, hnext⟩
    unfold route
    dsimp only
    rw [hc']
  -- nothing else makes the planner look at the files
  | _ => exact ⟨rfl, hc⟩

/-- What a server answers that is current: what a new one would, if the request were its first. -/
theorem Server.handler_of_current (now time : Int64) (request : Message) :
    (handler now files planner request).1 =
        (handler time files FilePlanner.new request).1.map (·.at now) ∧
      Current files (handler now files planner request).2 := by
  obtain ⟨hanswer, hnext⟩ := Service.respond_of_current hc now request
  refine ⟨?_, hnext⟩
  show (Service.respond now files planner request).1.toOption =
    (Service.respond time files FilePlanner.new request).1.toOption.map _
  rw [hanswer, Service.respond_at now time]
  cases (Service.respond time files FilePlanner.new request).1 <;> rfl

end Current

/-! ### Turns -/

/-- One request, the session that it comes from, and when it comes. -/
structure Turn (ι : Type) where
  session : ι
  time : Int64
  request : Message

section Turns
variable {ι : Type}

/-- What a server answers that takes the requests of all its sessions in turn. -/
def Server.answers (files : DataFiles) : FilePlanner → List (Turn ι) → List (Option Message)
  | _, [] => []
  | planner, turn :: rest =>
    (handler turn.time files planner turn.request).1 ::
      answers files (handler turn.time files planner turn.request).2 rest

/-- What a new server answers to a turn that is its first, at a time of its own. -/
def Server.firstAnswer (files : DataFiles) (time : Int64) (turn : Turn ι) : Option Message :=
  (handler time files FilePlanner.new turn.request).1.map (·.at turn.time)

theorem Server.answers_of_current {files : DataFiles} {planner : FilePlanner}
    (hc : Current files planner) (time : Int64) (turns : List (Turn ι)) :
    answers files planner turns = turns.map (firstAnswer files time) := by
  induction turns generalizing planner with
  | nil => rfl
  | cons turn rest ih =>
    obtain ⟨hanswer, hnext⟩ := handler_of_current hc turn.time time turn.request
    rw [answers, hanswer, ih hnext]
    rfl

/-- The answers that one session gets in a run of turns, which begins with a new server. -/
def Server.answersTo [DecidableEq ι] (session : ι) (files : DataFiles) (turns : List (Turn ι)) :
    List (Option Message) :=
  ((turns.zip (answers files .new turns)).filter (·.1.session = session)).map Prod.snd

theorem Server.answersTo_eq [DecidableEq ι] (session : ι) (files : DataFiles)
    (turns : List (Turn ι)) (time : Int64) :
    answersTo session files turns =
      (turns.filter (·.session = session)).map (firstAnswer files time) := by
  unfold answersTo
  rw [answers_of_current (current_new files) time turns]
  induction turns with
  | nil => rfl
  | cons turn rest ih =>
    rw [List.map_cons, List.zip_cons_cons, List.filter_cons, List.filter_cons]
    by_cases hs : turn.session = session
    · simp only [hs, decide_true, if_true, List.map_cons, ih]
    · simp only [hs, decide_false, Bool.false_eq_true, if_false, ih]

/-- **Sessions do not meet.** Whatever is in the files, as long as they stay: every request, of any
session and in any order, is answered as if it were the first that a new server gets, at whatever
time that is. So the requests that came before leave no trace, whether they were answered or
refused; and what a session is answered depends on its own requests alone, whatever other sessions
ask in the meantime. -/
theorem sessions_independent (files : DataFiles) (turns : List (Turn ι)) :
    (∀ time, Server.answers files .new turns =
        turns.map fun turn =>
          (Server.handler time files FilePlanner.new turn.request).1.map (·.at turn.time)) ∧
      (∀ more : List (Turn ι), Server.answers files .new (turns ++ more) =
        Server.answers files .new turns ++ Server.answers files .new more) ∧
      ∀ [DecidableEq ι] (session : ι) (others : List (Turn ι)),
        turns.filter (·.session = session) = others.filter (·.session = session) →
          Server.answersTo session files turns = Server.answersTo session files others := by
  have answers (time : Int64) (turns : List (Turn ι)) :=
    Server.answers_of_current (current_new files) time turns
  refine ⟨fun time => answers time turns, fun more => ?_, fun session others h => ?_⟩
  · rw [answers 0, answers 0, answers 0, List.map_append]
  · rw [Server.answersTo_eq session files turns 0, Server.answersTo_eq session files others 0, h]

end Turns

/-- Two sessions, of which the second asks for a page and a route that there are not. -/
theorem sessions_independent_refused :
    let files : DataFiles := (.file (Utf8.bytes "a,7") ⟨0, 0⟩, .missing)
    let own : List (Turn Nat) := [⟨0, 3, .stamped 1 .statusRequest⟩,
      ⟨0, 5, .stamped 1 (.routeRequest 0 0)⟩]
    let other : List (Turn Nat) := [⟨1, 2, .stamped 1 (.locationsRequest 9)⟩,
      ⟨1, 4, .stamped 1 (.routeRequest 0 8)⟩, ⟨1, 4, .stamped 1 (.routeResponse 8)⟩]
    Server.answersTo 0 files (other ++ own) = Server.answersTo 0 files own ∧
      Server.answersTo 0 files own =
        [some (.stamped 3 .statusResponse), some (.stamped 5 (.routeResponse 7))] := by
  intro files own other
  obtain ⟨-, -, hsame⟩ := sessions_independent files (other ++ own)
  exact ⟨hsame 0 own rfl, by decide +kernel⟩

end RouteCosts
