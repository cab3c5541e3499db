import RouteCosts.Network.Client
import RouteCosts.Proofs.Session.Serving

/-!
# The connection does not show

A client and a server that are connected by two streams of bytes hold the conversation that their
handlers would hold if they called each other directly. What one end does is a function of the
stream it reads (`clientEnd_eq`, `serverEnd_eq`), and a stream that begins the answers of the other
end is heard as the first of these answers (`exists_framing_of_prefix`), wherever its reads part.

The main statement, `exchange_over_streams`, has three parts. At any moment of a run each end has
read some of what the other one has written, and the calls made so far are those of so many rounds
of the direct exchange. Once each end has read all that the other has written, the exchange has
ended, and the results are the right ones. And for any number of rounds, the streams of the exchange
themselves, in any reads, make the two ends act out exactly these rounds.
-/

namespace RouteCosts

variable {η θ : Type}

/-! ### The two ends -/

/-- One end of a connection after a conversation. -/
structure End (ε σ : Type) where
  result : Except ε Unit
  /-- The messages that the handler was called with. -/
  calls : List Message
  state : σ
  written : List UInt8

/-- The bytes that a client has written on its connection. -/
def Client.written (client : Client) : List UInt8 :=
  match client.session with
  | none => []
  | some session => session.line.written

/-- What a client has done whose connection brings some reads. -/
def clientEnd (endpoint : Endpoint) (handler : Handler η) (opening : Message) (state : η)
    (reads : List (List UInt8)) (departures : List Departure) : End ClientError η :=
  let session := Session.new (.new Kind.maxLength (reads.map .data) departures) none
  let run := Client.run ⟨endpoint, some session⟩ handler.noting opening ([], state)
  ⟨run.1, run.2.2.1, run.2.2.2, run.2.1.written⟩

/-- What a server has done whose connection brings some reads, and whose writer tries interrupted
writes again or does not. -/
def serverEnd (patience : Option Nat) (retries : Bool) (handler : Handler η) (state : η)
    (reads : List (List UInt8)) (departures : List Departure) : End SessionError η :=
  let session := Session.new (.new Kind.maxLength (reads.map .data) departures) patience
  let run := session.serve handler.noting ([], state) retries
  ⟨run.1, run.2.2.1, run.2.2.2, run.2.1.line.written⟩

section Ends
variable {reads : List (List UInt8)} (hne : ∀ read ∈ reads, read ≠ [])
  {departures : List Departure} (framing : Framing reads.flatten) (handler : Handler η) (state : η)
include hne

/-- **What a client does** is the course of its handler through the frames it reads. -/
theorem clientEnd_eq (hd : ∀ departure ∈ departures, departure.Succeeds .blocking)
    (endpoint : Endpoint) (opening : Message) :
    clientEnd endpoint handler opening state reads departures =
      (let course := handler.course state (framing.frames.map Frame.message);
        ⟨if course.ended then .ok () else .error (.session (.ofFault framing.fault)), course.heard,
          course.state, (opening :: course.answers).flatMap Message.encode⟩) := by
  have hup := (Session.upcoming_new reads departures none).trans framing.join
  obtain ⟨after, ha, hw⟩ := Session.enquire_follows handler.noting framing.leftover
    (Session.plain_new hne departures none) hup ([], state) hd opening
  rw [Handler.course_noting] at ha hw
  unfold clientEnd Client.run
  dsimp only
  rw [ha]
  dsimp only [Client.written]
  rw [hw]
  cases (handler.course state (framing.frames.map Frame.message)).ended <;> rfl

/-- **What a server does** is the course of its handler through the frames it reads. -/
theorem serverEnd_eq {retries : Bool}
    (hd : ∀ departure ∈ departures, departure.Succeeds (.cooperative retries))
    (patience : Option Nat) :
    serverEnd patience retries handler state reads departures =
      (let course := handler.course state (framing.frames.map Frame.message);
        ⟨if course.ended ∨ framing.rest = [] then .ok () else .error (.ofFault framing.fault),
          course.heard, course.state, course.answers.flatMap Message.encode⟩) := by
  have hup := (Session.upcoming_new reads departures patience).trans framing.join
  obtain ⟨after, ha, hc, -⟩ := Session.serve_follows handler.noting framing.leftover
    (Session.plain_new hne departures patience) hup ([], state) hd
  rw [Handler.course_noting] at ha hc
  unfold serverEnd
  dsimp only
  rw [ha]
  dsimp only
  rw [Session.ending_cooperative, hc.written]
  rfl

end Ends

/-! ### What is heard of a row of messages -/

/-- **A stream that begins a row of messages** made at some time is heard as the first of them; the
whole row, as all of them, with nothing left. -/
theorem exists_framing_of_prefix {messages : List Message}
    (hm : ∀ message ∈ messages, message.IsStamped)
    {stream : List UInt8} (h : stream <+: messages.flatMap Message.encode) :
    ∃ framing : Framing stream, framing.frames.map Frame.message <+: messages ∧
      framing.fault = none ∧ (stream = messages.flatMap Message.encode →
        framing.frames.map Frame.message = messages ∧ framing.rest = []) := by
  obtain ⟨frames, rfl, hb⟩ := Frame.exists_frames hm
  rw [← hb] at h
  obtain ⟨taken, rest, ht, hj, hu⟩ := exists_take_of_prefix h
  refine ⟨⟨taken, rest, none, hj, .unfinished hu⟩, ht.map _, rfl, fun he => ?_⟩
  rw [← hb, ← List.append_nil (frames.flatMap Frame.bytes), hj] at he
  obtain ⟨rfl, rfl⟩ := Framing.frames_eq he (.unfinished hu) (.unfinished unfinished_nil)
  exact ⟨rfl, rfl⟩

/-! ### Both ends together -/

/-- **Two ends have acted out an exchange**: their handlers were called as in the exchange, and if
it has ended, they have returned accordingly. -/
structure Exchange.ActedOut (e : Exchange η θ) (client : End ClientError η)
    (server : End SessionError θ) : Prop where
  asked : server.calls = e.asked
  told : client.calls = e.told
  server_state : server.state = e.server
  client_state : client.state = e.client
  client_ended : e.ending = some .client → client.result = .ok () ∧ server.result = .ok ()
  server_ended : e.ending = some .server →
    server.result = .ok () ∧ client.result = .error (.session .closed)

/-- The opening and the answers of a client are messages made at some time. -/
theorem Handler.Stamps.opening_answers {client : Handler η} (hc : client.Stamps) (now : Int64)
    (body : Body) (x : η) (told : List Message) :
    ∀ message ∈ Message.stamped now body :: (client.course x told).answers, message.IsStamped := by
  intro message hm
  rcases List.mem_cons.1 hm with rfl | hm
  · exact ⟨now, body, rfl⟩
  · exact hc.answers x told message hm

theorem exchange_stamped {client : Handler η} {server : Handler θ} (hc : client.Stamps)
    (hs : server.Stamps) (now : Int64) (body : Body) (x : η) (y : θ) (rounds : Nat) :
    let e := exchange client server rounds (.stamped now body) x y
    (∀ message ∈ e.asked, message.IsStamped) ∧ ∀ message ∈ e.told, message.IsStamped := by
  obtain ⟨answers, ha, hp, -⟩ := course_told client server rounds (.stamped now body) x y
  have hclient := hc.opening_answers now body x
    (exchange client server rounds (.stamped now body) x y).told
  have hserver := hs.answers y (exchange client server rounds (.stamped now body) x y).asked
  rw [ha] at hclient
  rw [course_asked] at hserver
  exact ⟨fun message hm => hclient message (hp.subset hm), hserver⟩

section Connected
variable {client : Handler η} {server : Handler θ} (hc : client.Stamps) (hs : server.Stamps)
  (now : Int64) (body : Body) (x : η) (y : θ) (endpoint : Endpoint) (patience : Option Nat)
  {toClient toServer : List (List UInt8)} (hclient : ∀ read ∈ toClient, read ≠ [])
  (hserver : ∀ read ∈ toServer, read ≠ []) {fromClient fromServer : List Departure}
  (hfromClient : ∀ departure ∈ fromClient, departure.Succeeds .blocking)
  {retries : Bool}
  (hfromServer : ∀ departure ∈ fromServer, departure.Succeeds (.cooperative retries))
include hc hs hclient hserver hfromClient hfromServer

/-- The streams of an exchange, in any reads, make the two ends act it out. -/
theorem actedOut_of_streams (rounds : Nat) :
    let e := exchange client server rounds (.stamped now body) x y
    let c := clientEnd endpoint client (.stamped now body) x toClient fromClient
    let s := serverEnd patience retries server y toServer fromServer
    toClient.flatten = e.told.flatMap Message.encode →
    toServer.flatten = e.asked.flatMap Message.encode →
      e.ActedOut c s ∧ toClient.flatten = s.written ∧ toServer.flatten <+: c.written ∧
        (e.ending ≠ none → toServer.flatten = c.written) := by
  intro e c s ht ha
  obtain ⟨hasked, htold⟩ := exchange_stamped hc hs now body x y rounds
  obtain ⟨cut, -, hfault, hcut⟩ := exists_framing_of_prefix htold ⟨[], (List.append_nil _).trans ht⟩
  obtain ⟨cut', -, -, hcut'⟩ := exists_framing_of_prefix hasked ⟨[], (List.append_nil _).trans ha⟩
  obtain ⟨hframes, hrest⟩ := hcut ht
  obtain ⟨hframes', hrest'⟩ := hcut' ha
  obtain ⟨answers, hcourse, hp, hended⟩ := course_told client server rounds (.stamped now body) x y
  have hcourse' := course_asked client server rounds (.stamped now body) x y
  have hC : c = _ := clientEnd_eq hclient cut client x hfromClient endpoint (.stamped now body)
  have hS : s = _ := serverEnd_eq hserver cut' server y hfromServer patience
  rw [hframes, hfault, hcourse] at hC
  rw [hframes', hrest', hcourse'] at hS
  clear_value c s
  subst hC hS
  dsimp only
  refine ⟨⟨rfl, rfl, rfl, rfl, fun he => ?_, fun he => ?_⟩, ht, ?_, fun he => ?_⟩
  · exact ⟨if_pos (decide_eq_true he), if_pos (Or.inr rfl)⟩
  · refine ⟨if_pos (Or.inr rfl), if_neg fun hd => ?_⟩
    cases he.symm.trans (of_decide_eq_true hd)
  · obtain ⟨more, hm⟩ := hp
    refine ⟨more.flatMap Message.encode, ?_⟩
    rw [ha, ← List.flatMap_append, hm]
  · exact ha.trans (congrArg _ (hended he))

/-- **At any moment of a run**: if each end has read some of what the other one has written, the
calls made are those of so many rounds. -/
theorem calls_of_prefix :
    let opening := Message.stamped now body
    let c := clientEnd endpoint client opening x toClient fromClient
    let s := serverEnd patience retries server y toServer fromServer
    toClient.flatten <+: s.written → toServer.flatten <+: c.written →
      (let e := exchange client server s.calls.length opening x y;
        s.calls = e.asked ∧ s.state = e.server) ∧
      (let e := exchange client server c.calls.length opening x y;
        c.calls = e.told ∧ c.state = e.client) := by
  intro opening c s ht ha
  obtain ⟨cut⟩ := Framing.exists_framing toClient.flatten
  obtain ⟨cut'⟩ := Framing.exists_framing toServer.flatten
  have hC : c = _ := clientEnd_eq hclient cut client x hfromClient endpoint opening
  have hS : s = _ := serverEnd_eq hserver cut' server y hfromServer patience
  rw [hS] at ht
  rw [hC] at ha
  -- the cuts are the ones that a stream of messages has: a stream has no other
  obtain ⟨heard, hheard, -, -⟩ := exists_framing_of_prefix (hs.answers y _) ht
  obtain ⟨heard', hheard', -, -⟩ := exists_framing_of_prefix (hc.opening_answers now body x _) ha
  obtain rfl : heard = cut := Subsingleton.elim _ _
  obtain rfl : heard' = cut' := Subsingleton.elim _ _
  rw [hC, hS]
  exact course_eq_exchange client server hheard' hheard

/-- **At the end of a run**: if each end has read all that the other one has written, the exchange
has ended, and the two ends have acted it out. -/
theorem actedOut_of_all_read :
    let opening := Message.stamped now body
    let c := clientEnd endpoint client opening x toClient fromClient
    let s := serverEnd patience retries server y toServer fromServer
    toClient.flatten = s.written → toServer.flatten = c.written →
      ∃ rounds, (exchange client server rounds opening x y).ending ≠ none ∧
        (exchange client server rounds opening x y).ActedOut c s := by
  intro opening c s ht ha
  obtain ⟨cut⟩ := Framing.exists_framing toClient.flatten
  obtain ⟨cut'⟩ := Framing.exists_framing toServer.flatten
  have hC : c = _ := clientEnd_eq hclient cut client x hfromClient endpoint opening
  have hS : s = _ := serverEnd_eq hserver cut' server y hfromServer patience
  rw [hS] at ht
  rw [hC] at ha
  obtain ⟨heard, -, -, hheard⟩ :=
    exists_framing_of_prefix (hs.answers y _) ⟨[], (List.append_nil _).trans ht⟩
  obtain ⟨heard', -, -, hheard'⟩ :=
    exists_framing_of_prefix (hc.opening_answers now body x _) ⟨[], (List.append_nil _).trans ha⟩
  obtain rfl : heard = cut := Subsingleton.elim _ _
  obtain rfl : heard' = cut' := Subsingleton.elim _ _
  obtain ⟨hframes, -⟩ := hheard ht
  obtain ⟨hframes', -⟩ := hheard' ha
  obtain ⟨hended, hasked, htold⟩ := exchange_ended client server hframes' hframes
  have hstreams := actedOut_of_streams hc hs now body x y endpoint patience hclient hserver
    hfromClient hfromServer
  refine ⟨_, hended, (hstreams _ (ht.trans ?_) (ha.trans ?_)).1⟩
  · exact congrArg (List.flatMap Message.encode) (hframes.symm.trans htold)
  · exact congrArg (List.flatMap Message.encode) (hframes'.symm.trans hasked)

/-- **The connection does not show.** Take any opening, any handlers whose messages are made at some
time, and any two ends with their reads, on which all writes succeed. First, if each end has read some of what the other one has
written, the calls made are those of so many rounds of the direct exchange. Second, if each end has
read all of it, the exchange has ended and the two ends have acted it out. Third, for every number
of rounds, if the reads are the streams of the exchange, the two ends have acted out exactly these
rounds, and have written what was read. -/
theorem exchange_over_streams :
    let opening := Message.stamped now body
    let c := clientEnd endpoint client opening x toClient fromClient
    let s := serverEnd patience retries server y toServer fromServer
    (toClient.flatten <+: s.written → toServer.flatten <+: c.written →
      (let e := exchange client server s.calls.length opening x y;
        s.calls = e.asked ∧ s.state = e.server) ∧
      (let e := exchange client server c.calls.length opening x y;
        c.calls = e.told ∧ c.state = e.client)) ∧
    (toClient.flatten = s.written → toServer.flatten = c.written →
      ∃ rounds, (exchange client server rounds opening x y).ending ≠ none ∧
        (exchange client server rounds opening x y).ActedOut c s) ∧
    ∀ rounds,
      let e := exchange client server rounds opening x y
      toClient.flatten = e.told.flatMap Message.encode →
      toServer.flatten = e.asked.flatMap Message.encode →
        e.ActedOut c s ∧ toClient.flatten = s.written ∧ toServer.flatten <+: c.written ∧
          (e.ending ≠ none → toServer.flatten = c.written) := by
  intro opening c s
  refine ⟨?_, ?_, ?_⟩
  · exact calls_of_prefix hc hs now body x y endpoint patience hclient hserver hfromClient
      hfromServer
  · exact actedOut_of_all_read hc hs now body x y endpoint patience hclient hserver hfromClient
      hfromServer
  · exact actedOut_of_streams hc hs now body x y endpoint patience hclient hserver hfromClient
      hfromServer

end Connected

/-- A client that asks once more, over streams in reads that part anywhere. -/
theorem exchange_over_streams_once_more :
    let asking : Handler Nat := fun left _ =>
      if left = 0 then (none, left) else (some (.stamped 2 .statusRequest), left - 1)
    let counting : Handler Nat :=
      fun count _ => (some (.stamped 3 (.routeResponse (UInt64.ofNat count))), count + 1)
    let opening := Message.stamped 1 (.locationsRequest 0)
    let asked := [opening, .stamped 2 .statusRequest]
    let told := [Message.stamped 3 (.routeResponse 0), .stamped 3 (.routeResponse 1)]
    let toClient := [(told.flatMap Message.encode).take 7, (told.flatMap Message.encode).drop 7]
    let toServer := [(asked.flatMap Message.encode).take 30, (asked.flatMap Message.encode).drop 30]
    let c := clientEnd .standard asking opening 1 toClient [.accept 9]
    let s := serverEnd none false counting 0 toServer []
    s.calls = asked ∧ c.calls = told ∧ c.result = .ok () ∧ s.result = .ok () := by
  intro asking counting opening asked told toClient toServer c s
  have hasking : asking.Stamps := by
    intro left message answer h
    by_cases hl : left = 0
    · simp only [asking, hl, if_true] at h
      cases h
    · simp only [asking, hl, if_false] at h
      exact ⟨2, .statusRequest, (Option.some.inj h).symm⟩
  have hcounting : counting.Stamps := fun count _ answer h =>
    ⟨3, .routeResponse (UInt64.ofNat count), (Option.some.inj h).symm⟩
  obtain ⟨-, -, hrounds⟩ := exchange_over_streams hasking hcounting 1 (.locationsRequest 0) 1 0
    .standard none (show ∀ read ∈ toClient, read ≠ [] by decide)
    (show ∀ read ∈ toServer, read ≠ [] by decide)
    (show ∀ departure ∈ [Departure.accept 9], departure.Succeeds .blocking from
      fun departure h => by
        obtain rfl := List.mem_singleton.1 h
        exact Nat.succ_pos 8)
    (show ∀ departure ∈ [], Departure.Succeeds (.cooperative false) departure from nofun)
  have he : exchange asking counting 2 opening 1 0 = ⟨asked, told, 0, 2, some .client⟩ := rfl
  obtain ⟨hacted, -⟩ := hrounds 2 (by decide) (by decide)
  rw [he] at hacted
  obtain ⟨hclient, hserver⟩ := hacted.client_ended rfl
  exact ⟨hacted.asked, hacted.told, hclient, hserver⟩

end RouteCosts
