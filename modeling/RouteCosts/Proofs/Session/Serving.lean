import RouteCosts.Proofs.Session.Conversing
import RouteCosts.Proofs.Session.Waiting
import RouteCosts.Proofs.Wire.RoundTrip

/-!
# Serving a stream of requests

The side that answers calls its handler with the messages of the frames in the stream, and with
nothing else, until it gives no answer; the bytes written are its answers. How the stream was cut
into reads shows nowhere (`serve_framing`), except in the count of bytes received when it is not
read to its end (`Served`). The log of calls and writes is what the course of the handler shows: no
frame is handled before the one before it was answered. So it is when the loop is stopped after any
number of rounds.
-/

namespace RouteCosts.Session

variable {η : Type}

/-- **What serving has done** when the handler has gone its course through the frames of a stream:
the result, the state of the handler, the calls and writes in their order, the bytes written, and
the four counts. -/
structure Served {bytes : List UInt8} (framing : Framing bytes) (course : Course η)
    (run : Except SessionError Unit × Session × η) (log : List Deed) : Prop where
  result : run.1 = if course.ended ∨ framing.rest = [] then .ok ()
    else .error (.ofFault framing.fault)
  state : run.2.2 = course.state
  /-- Every answer is written completely before the next call. -/
  order : log = course.deeds
  calls : log.filterMap Deed.called? = course.heard
  written : run.2.1.line.written = course.answers.flatMap Message.encode
  /-- All frames were handled and answered, if the handler did not stop before. -/
  complete : course.ended = false → course.heard = framing.frames.map Frame.message ∧
    course.answers.length = framing.frames.length
  messagesReceived : run.2.1.stats.messagesReceived = course.heard.length
  messagesSent : run.2.1.stats.messagesSent = course.answers.length
  bytesSent : run.2.1.stats.bytesSent = (course.answers.flatMap Message.encode).length
  handled_le : ((framing.frames.take course.heard.length).flatMap Frame.bytes).length ≤
    run.2.1.stats.bytesReceived
  bytesReceived_le : run.2.1.stats.bytesReceived ≤ bytes.length
  /-- The stream was read to its end, if neither the handler nor a header stopped it. -/
  bytesReceived_eq : course.ended = false → framing.fault = none →
    run.2.1.stats.bytesReceived = bytes.length

/-- **Serving answers the requests in the stream.** Whatever the handler and the bytes, the latter
have a cut into frames and a rest, and in whatever non-empty reads they come, and in whatever pieces
the answers are written, the handler goes its course through the frames. So it does if the loop is
stopped after some rounds. -/
theorem serve_framing (handler : Handler η) (state : η) (bytes : List UInt8) :
    ∃ framing : Framing bytes, ∀ (reads : List (List UInt8)) (departures : List Departure)
      (patience : Option Nat) (retries : Bool), reads.flatten = bytes →
      (∀ read ∈ reads, read ≠ []) →
      (∀ departure ∈ departures, departure.Succeeds (.cooperative retries)) →
      let session := new (.new Kind.maxLength (reads.map .data) departures) patience
      Served framing (handler.course state (framing.frames.map Frame.message))
          (session.serve handler state retries) (session.deeds handler state retries) ∧
        ∀ rounds ≤ framing.frames.length,
          let part := handler.course state ((framing.frames.take rounds).map Frame.message)
          (noted (.cooperative retries) handler rounds session state []).2.2 = part.deeds ∧
            (converse (.cooperative retries) handler rounds session state).2.2 = part.state ∧
            (converse (.cooperative retries) handler rounds session state).2.1.line.written =
              part.answers.flatMap Message.encode := by
  obtain ⟨framing⟩ := Framing.exists_framing bytes
  refine ⟨framing, fun reads departures patience retries hb hne hd => ?_⟩
  intro session
  have hs : session.Plain := plain_new hne departures patience
  have hup := (upcoming_new reads departures patience).trans (hb.trans framing.join)
  refine ⟨?_, fun rounds hr => ?_⟩
  · obtain ⟨after, ha, hc, hx⟩ := noted_all (.cooperative retries) handler framing.leftover hs hd hup
      (length_lt_rounds hup) state
    rw [serve, ← noted_eq_converse _ _ _ _ _ [], deeds, ha]
    have hcount : after.stats.bytesReceived + (after.line.arrivals.flatMap Arrival.bytes).length =
        bytes.length := by
      rw [hc.bytesReceived, ← hb, ← upcoming_new reads departures patience]
      exact Nat.zero_add _
    exact {
      result := ending_cooperative _ _ _ _
      state := rfl
      order := rfl
      calls := Course.filterMap_deeds _
      written := hc.written
      complete := fun he => by
        rw [← List.length_map (f := Frame.message)]
        exact handler.course_of_not_ended he
      messagesReceived := hc.messagesReceived.trans (Nat.zero_add _)
      messagesSent := hc.messagesSent.trans (Nat.zero_add _)
      bytesSent := hc.bytesSent.trans (Nat.zero_add _)
      handled_le := Nat.le_trans (Nat.le_of_eq (Nat.zero_add _).symm) hc.handled
      bytesReceived_le := by
        dsimp only
        omega
      bytesReceived_eq := fun he hf => by
        dsimp only
        rw [← hcount, hx he hf]
        rfl }
  · obtain ⟨after, ha, hc, -⟩ := noted_follows (.cooperative retries) handler
      framing.leftover hs hd hup rounds state []
    rw [← noted_eq_converse _ _ _ _ _ [], ha]
    exact ⟨rfl, rfl, hc.written⟩

/-- Two requests and the start of a third, in two reads. -/
theorem serve_two_requests :
    let first := Message.stamped 7 .statusRequest
    let second := Message.stamped 8 (.locationsRequest 3)
    let counting : Handler Nat :=
      fun count _ => (some (.stamped 9 (.routeResponse (UInt64.ofNat count))), count + 1)
    let reads := [first.encode ++ second.encode.take 5, second.encode.drop 5 ++ [0, 0]]
    let session := new (.new Kind.maxLength (reads.map .data) [.accept 3]) none
    let run := session.serve counting 0 false
    let answers := [Message.stamped 9 (.routeResponse 0), Message.stamped 9 (.routeResponse 1)]
    run.1 = .error .closed ∧ run.2.2 = 2 ∧
      session.deeds counting 0 false = deedsOf [first, second] answers ∧
      run.2.1.line.written = answers.flatMap Message.encode := by
  intro first second counting reads session run answers
  obtain ⟨framing, hserve⟩ := serve_framing counting 0 reads.flatten
  let cut : Framing reads.flatten :=
    ⟨[.ofBody 7 .statusRequest, .ofBody 8 (.locationsRequest 3)], [0, 0], none, by decide,
      .unfinished (Or.inl (by decide))⟩
  obtain rfl : framing = cut := Subsingleton.elim _ _
  obtain ⟨hserved, -⟩ := hserve reads [.accept 3] none false rfl (by decide)
    (fun departure h => by
      obtain rfl := List.mem_singleton.1 h
      exact Nat.succ_pos 2)
  have hframes : cut.frames.map Frame.message = [first, second] := by
    show [(Frame.ofBody _ _).message, (Frame.ofBody _ _).message] = _
    rw [Frame.message_ofBody, Frame.message_ofBody]
  have hcourse : counting.course 0 [first, second] = ⟨[first, second], answers, 2, false⟩ := rfl
  rw [hframes, hcourse] at hserved
  change Served cut _ run _ at hserved
  clear_value run
  refine ⟨?_, hserved.state, hserved.order, hserved.written⟩
  rw [hserved.result, if_neg (by decide)]
  rfl

end RouteCosts.Session
