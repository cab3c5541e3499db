import RouteCosts.Proofs.Session.Deeds
import RouteCosts.Proofs.Session.Receiving

/-!
# Conversations over a stream of bytes

The two sides of a conversation differ in how they write and in what they make of the end of the
stream (`ending`). When nothing but bytes comes and all writes succeed, the handler goes its course
through the messages of the frames upcoming, whatever the reads and writes are, and the log of the
conversation is what the course shows (`noted_follows`). `Conversed` says what has been sent,
received and counted.
-/

namespace RouteCosts

/-! ### Writes that succeed -/

/-- A write or flush of some writer that succeeds, at once or when it is tried again. -/
def Departure.Succeeds (writer : Writer) : Departure → Prop
  | accept limit => 0 < limit
  | failure fault => writer.repeats fault
  | flush result => result = none

theorem Writer.writeAll_succeeds {writer : Writer} {departures : List Departure}
    (h : ∀ departure ∈ departures, departure.Succeeds writer) (bytes : List UInt8) :
    ∃ left, left <:+ departures ∧ writer.writeAll bytes departures = (none, bytes, left) := by
  induction departures generalizing bytes with
  | nil => exact ⟨[], List.suffix_rfl, rfl⟩
  | cons departure rest ih =>
    have hrest : ∀ departure ∈ rest, departure.Succeeds writer :=
      fun d hd => h d (List.mem_cons_of_mem _ hd)
    have hfirst := h departure List.mem_cons_self
    rw [writeAll.eq_def]
    dsimp only
    by_cases he : bytes.isEmpty
    · obtain rfl := List.isEmpty_iff.1 he
      exact ⟨departure :: rest, List.suffix_rfl, rfl⟩
    rw [if_neg he]
    cases departure with
    | flush result => exact ⟨.flush result :: rest, List.suffix_rfl, rfl⟩
    | failure fault =>
      obtain ⟨left, hl, hw⟩ := ih hrest bytes
      refine ⟨left, hl.trans (List.suffix_cons _ _), ?_⟩
      exact (if_pos hfirst).trans hw
    | accept limit =>
      cases limit with
      | zero => exact absurd hfirst (Nat.lt_irrefl 0)
      | succ limit =>
        obtain ⟨left, hl, hw⟩ := ih hrest (bytes.drop (limit + 1))
        refine ⟨left, hl.trans (List.suffix_cons _ _), ?_⟩
        dsimp only
        rw [hw, List.take_append_drop]

theorem Writer.send_succeeds {writer : Writer} {line : Line}
    (h : ∀ departure ∈ line.departures, departure.Succeeds writer) (bytes : List UInt8) :
    ∃ left, left <:+ line.departures ∧
      writer.send line bytes = (none, ⟨line.arrivals, left, line.written ++ bytes⟩) := by
  obtain ⟨left, hl, hw⟩ := writeAll_succeeds h bytes
  unfold send
  rw [hw]
  rcases left with _ | ⟨departure, left⟩
  · exact ⟨[], hl, rfl⟩
  cases departure with
  | accept limit => exact ⟨_, hl, rfl⟩
  | failure fault => exact ⟨_, hl, rfl⟩
  | flush result =>
    obtain rfl : result = none := h _ (hl.subset List.mem_cons_self)
    exact ⟨left, (List.suffix_cons _ _).trans hl, rfl⟩

/-- The session when a message was written and counted, and these answers to writes are left. -/
def Session.withSent (session : Session) (left : List Departure) (message : Message) : Session :=
  { session with
    line := ⟨session.line.arrivals, left, session.line.written ++ message.encode⟩ }.countSent
      message.encode.length

theorem Session.send_succeeds {writer : Writer} {session : Session}
    (h : ∀ departure ∈ session.line.departures, departure.Succeeds writer) (message : Message) :
    ∃ left, left <:+ session.line.departures ∧
      session.send writer message = (.ok message.encode.length, session.withSent left message) := by
  obtain ⟨left, hl, hw⟩ := Writer.send_succeeds h message.encode
  refine ⟨left, hl, ?_⟩
  unfold Session.send
  dsimp only
  rw [hw]
  rfl

namespace Session

variable {η : Type}

theorem Plain.withSent {session : Session} (hs : session.Plain) (left : List Departure)
    (message : Message) : (session.withSent left message).Plain :=
  ⟨hs.chunk, hs.pending_lt⟩

/-! ### The next message -/

/-- How a conversation ends for want of a frame: the cooperative side takes the end of the stream
between two messages for the end of the conversation. -/
def ending (writer : Writer) (rest : List UInt8) (fault : Option FrameError) :
    Except SessionError Unit :=
  match writer with
  | .blocking => .error (.ofFault fault)
  | .cooperative _ => if rest = [] then .ok () else .error (.ofFault fault)

theorem ending_cooperative (retries ended : Bool) (rest : List UInt8) (fault : Option FrameError) :
    (if ended then .ok () else ending (.cooperative retries) rest fault) =
      if ended ∨ rest = [] then .ok () else .error (.ofFault fault) := by
  cases ended with
  | true => rw [if_pos rfl, if_pos (Or.inl rfl)]
  | false => simp only [ending, Bool.false_eq_true, if_false, false_or]

theorem next_frame (writer : Writer) {session : Session} (hs : session.Plain) {frame : Frame}
    {rest : List UInt8} (h : session.upcoming = frame.bytes ++ rest) :
    ∃ after, session.next writer = (.ok frame.message, after) ∧ Took session after rest := by
  obtain ⟨after, ha, ht, -⟩ := wait_frame hs h
  refine ⟨after, ?_, ht⟩
  cases writer with
  | blocking => rw [next, ha]
  | cooperative retries =>
    rw [next, receive_eq hs, ha]
    rfl

theorem next_leftover (writer : Writer) {session : Session} (hs : session.Plain)
    {fault : Option FrameError} (h : Leftover session.upcoming fault) :
    ∃ after, session.next writer = (.error (ending writer session.upcoming fault), after) ∧
      Missed session after fault := by
  obtain ⟨after, ha, hm⟩ := wait_leftover hs h
  refine ⟨after, ?_, hm⟩
  cases writer with
  | blocking =>
    rw [next, ha]
    rfl
  | cooperative retries =>
    rw [next, receive_eq hs, ha, ending]
    cases fault with
    | none =>
      rw [SessionError.ofFault, cooperative]
      by_cases he : session.upcoming = []
      · rw [if_pos he, if_pos (List.isEmpty_iff.2 he)]
      · rw [if_neg he, if_neg fun hn => he (List.isEmpty_iff.1 hn)]
    | some error =>
      have he : session.upcoming ≠ [] := by
        rintro hn
        rw [hn] at h
        cases (Leftover.unfinished unfinished_nil).unique h
      rw [if_neg he]
      rfl

/-! ### The course of a conversation -/

/-- **What a conversation has done** when its handler has gone its course through some frames. -/
structure Conversed (before after : Session) (course : Course η) (frames : List Frame) : Prop where
  written : after.line.written = before.line.written ++ course.answers.flatMap Message.encode
  messagesReceived :
    after.stats.messagesReceived = before.stats.messagesReceived + course.heard.length
  messagesSent : after.stats.messagesSent = before.stats.messagesSent + course.answers.length
  bytesSent : after.stats.bytesSent =
    before.stats.bytesSent + (course.answers.flatMap Message.encode).length
  /-- Every byte that came is counted. -/
  bytesReceived : after.stats.bytesReceived + (after.line.arrivals.flatMap Arrival.bytes).length =
    before.stats.bytesReceived + (before.line.arrivals.flatMap Arrival.bytes).length
  /-- All bytes of the frames that were handled have come. -/
  handled :
    before.stats.bytesReceived + ((frames.take course.heard.length).flatMap Frame.bytes).length ≤
      after.stats.bytesReceived + before.pending.length

theorem conversed_nil (session : Session) (state : η) (frames : List Frame) :
    Conversed session session ⟨[], [], state, false⟩ frames where
  written := (List.append_nil _).symm
  messagesReceived := rfl
  messagesSent := rfl
  bytesSent := rfl
  bytesReceived := rfl
  handled := Nat.le_add_right _ _

section Step
variable {before mid after : Session} {frame : Frame} {rest : List UInt8} {frames : List Frame}

/-- A message was looked for in vain. -/
theorem Missed.conversed {fault : Option FrameError} (h : Missed before after fault) (state : η) :
    Conversed before after ⟨[], [], state, false⟩ [] where
  written := h.written.trans (List.append_nil _).symm
  messagesReceived := h.messagesReceived
  messagesSent := h.messagesSent
  bytesSent := h.bytesSent
  bytesReceived := h.bytesReceived
  handled := by
    have hcount := h.bytesReceived
    obtain ⟨taken, ht⟩ := h.arrivals
    rw [← ht, List.flatMap_append, List.length_append] at hcount
    show before.stats.bytesReceived + 0 ≤ _
    omega

section Took
variable (ht : Took before mid rest) (hup : before.upcoming = frame.bytes ++ rest)
include ht hup

theorem Took.bytesReceived_eq :
    before.stats.bytesReceived + frame.bytes.length + mid.pending.length =
      mid.stats.bytesReceived + before.pending.length := by
  have hcount := ht.bytesReceived
  have hbefore := congrArg List.length hup
  have hmid := congrArg List.length ht.upcoming
  rw [Session.upcoming, List.length_append, List.length_append] at hbefore
  rw [Session.upcoming, List.length_append] at hmid
  omega

/-- A message was handled, and not answered. -/
theorem Took.conversed (state : η) :
    Conversed before mid ⟨[frame.message], [], state, true⟩ (frame :: frames) where
  written := ht.written.trans (List.append_nil _).symm
  messagesReceived := ht.messagesReceived
  messagesSent := ht.messagesSent
  bytesSent := ht.bytesSent
  bytesReceived := ht.bytesReceived
  handled := by
    have hcount := ht.bytesReceived_eq hup
    show before.stats.bytesReceived + (frame.bytes ++ []).length ≤ _
    rw [List.append_nil]
    omega

/-- A message was handled and answered, and the conversation went on. -/
theorem Took.conversed_cons {answer : Message} {left : List Departure} {course : Course η}
    (h : Conversed (mid.withSent left answer) after course frames) :
    Conversed before after
      { course with
        heard := frame.message :: course.heard
        answers := answer :: course.answers } (frame :: frames) where
  written := by
    rw [h.written, List.flatMap_cons, ← List.append_assoc, ← ht.written]
    rfl
  messagesReceived := by
    rw [h.messagesReceived]
    show mid.stats.messagesReceived + _ = _
    rw [ht.messagesReceived, List.length_cons]
    omega
  messagesSent := by
    rw [h.messagesSent]
    show mid.stats.messagesSent + 1 + _ = _
    rw [ht.messagesSent, List.length_cons]
    omega
  bytesSent := by
    rw [h.bytesSent]
    show mid.stats.bytesSent + answer.encode.length + _ = _
    rw [ht.bytesSent, List.flatMap_cons, List.length_append]
    omega
  bytesReceived := h.bytesReceived.trans ht.bytesReceived
  handled := by
    have hcount := ht.bytesReceived_eq hup
    have hmore : mid.stats.bytesReceived +
        ((frames.take course.heard.length).flatMap Frame.bytes).length ≤
          after.stats.bytesReceived + mid.pending.length := h.handled
    show before.stats.bytesReceived +
      (frame.bytes ++ (frames.take course.heard.length).flatMap Frame.bytes).length ≤ _
    rw [List.length_append]
    omega

end Took

end Step

/-- **A conversation follows the course of its handler** through the messages of the frames
upcoming, and its log is what the course shows, by induction on the rounds. It stops after the
rounds it was given, or when the handler gives no answer; otherwise it ends with what is left after
the frames. -/
theorem noted_follows (writer : Writer) (handler : Handler η) {frames : List Frame}
    {rest : List UInt8} {fault : Option FrameError} (hl : Leftover rest fault) {session : Session}
    (hs : session.Plain) (hd : ∀ departure ∈ session.line.departures, departure.Succeeds writer)
    (h : session.upcoming = frames.flatMap Frame.bytes ++ rest) (rounds : Nat) (state : η)
    (log : List Deed) :
    let course := handler.course state ((frames.take rounds).map Frame.message)
    ∃ after, noted writer handler rounds session state log =
        (if course.ended ∨ rounds ≤ frames.length then .ok () else ending writer rest fault,
          (after, course.state), log ++ course.deeds) ∧
      Conversed session after course frames ∧
      (course.ended = false → frames.length < rounds → fault = none →
        after.line.arrivals = []) := by
  induction rounds generalizing frames session state log with
  | zero =>
    refine ⟨session, ?_, conversed_nil _ _ _, fun _ hlt => absurd hlt (Nat.not_lt_zero _)⟩
    rw [if_pos (Or.inr (Nat.zero_le _)), List.take_zero]
    exact congrArg (fun log => (_, _, log)) (List.append_nil log).symm
  | succ rounds ih =>
    cases frames with
    | nil =>
      rw [List.flatMap_nil, List.nil_append] at h
      obtain ⟨after, ha, hm⟩ := next_leftover writer hs (h ▸ hl)
      refine ⟨after, ?_, hm.conversed state, fun _ _ => hm.exhausted⟩
      rw [noted_missed ha, h]
      exact congrArg (fun log => (_, _, log)) (List.append_nil log).symm
    | cons frame frames =>
      rw [List.flatMap_cons, List.append_assoc] at h
      obtain ⟨mid, hmid, ht⟩ := next_frame writer hs h
      rw [List.take_succ_cons, List.map_cons]
      rcases hh : handler state frame.message with ⟨_ | answer, state'⟩
      · rw [Handler.course_cons_none hh]
        refine ⟨mid, ?_, ht.conversed h state', nofun⟩
        rw [noted_unanswered hmid hh, if_pos (Or.inl rfl)]
        rfl
      · have hd' : ∀ departure ∈ mid.line.departures, departure.Succeeds writer := by
          rw [ht.departures]
          exact hd
        obtain ⟨left, hleft, hsend⟩ := send_succeeds hd' answer
        have hwrote : (mid.withSent left answer).line.written.drop mid.line.written.length =
            answer.encode := List.drop_left
        rw [Handler.course_cons_some hh]
        obtain ⟨after, ha, hc, hx⟩ := ih
          ((ht.plain hs).withSent left answer) (fun departure hm => hd' departure (hleft.subset hm))
          ht.upcoming state' (log ++ [.called frame.message] ++ [.wrote answer.encode])
        refine ⟨after, ?_, ht.conversed_cons h hc, fun he hlt => hx he (Nat.lt_of_succ_lt_succ hlt)⟩
        rw [noted_answered hmid hh hsend, hwrote, ha]
        simp only [List.length_cons, Nat.add_le_add_iff_right, List.append_assoc]
        rfl

theorem noted_all (writer : Writer) (handler : Handler η) {frames : List Frame}
    {rest : List UInt8} {fault : Option FrameError} (hl : Leftover rest fault) {session : Session}
    (hs : session.Plain) (hd : ∀ departure ∈ session.line.departures, departure.Succeeds writer)
    (h : session.upcoming = frames.flatMap Frame.bytes ++ rest) {rounds : Nat}
    (hr : frames.length < rounds) (state : η) :
    let course := handler.course state (frames.map Frame.message)
    ∃ after, noted writer handler rounds session state [] =
        (if course.ended then .ok () else ending writer rest fault, (after, course.state),
          course.deeds) ∧
      Conversed session after course frames ∧
      (course.ended = false → fault = none → after.line.arrivals = []) := by
  obtain ⟨after, ha, hc, hx⟩ := noted_follows writer handler hl hs hd h rounds state []
  rw [List.take_of_length_le (Nat.le_of_lt hr)] at ha hc hx
  refine ⟨after, ?_, hc, fun he => hx he hr⟩
  simp only [ha, Nat.not_le.2 hr, or_false, List.nil_append]

theorem length_lt_rounds {session : Session} {frames : List Frame} {rest : List UInt8}
    (h : session.upcoming = frames.flatMap Frame.bytes ++ rest) :
    frames.length < session.backlog + 1 := by
  have hlength := Frame.length_le_flatMap_bytes frames
  rw [← length_upcoming, h, List.length_append]
  omega

section Whole
variable {writer : Writer} (handler : Handler η) {frames : List Frame} {rest : List UInt8}
  {fault : Option FrameError} (hl : Leftover rest fault) {session : Session} (hs : session.Plain)
  (hd : ∀ departure ∈ session.line.departures, departure.Succeeds writer)
  (h : session.upcoming = frames.flatMap Frame.bytes ++ rest) (state : η)
include hl hs hd h

theorem converse_all {rounds : Nat} (hr : frames.length < rounds) :
    let course := handler.course state (frames.map Frame.message)
    ∃ after, converse writer handler rounds session state =
        (if course.ended then .ok () else ending writer rest fault, after, course.state) ∧
      Conversed session after course frames ∧
      (course.ended = false → fault = none → after.line.arrivals = []) := by
  obtain ⟨after, ha, hc, hx⟩ := noted_all writer handler hl hs hd h hr state
  refine ⟨after, ?_, hc, hx⟩
  rw [← noted_eq_converse _ _ _ _ _ [], ha]

end Whole

section Sides
variable (handler : Handler η) {frames : List Frame} {rest : List UInt8} {fault : Option FrameError}
  (hl : Leftover rest fault) {session : Session} (hs : session.Plain)
  (h : session.upcoming = frames.flatMap Frame.bytes ++ rest) (state : η)
include hl hs h

/-- **Serving** goes the course through all frames upcoming. -/
theorem serve_follows
    {retries : Bool}
    (hd : ∀ departure ∈ session.line.departures, departure.Succeeds (.cooperative retries)) :
    let course := handler.course state (frames.map Frame.message)
    ∃ after, session.serve handler state retries =
        (if course.ended then .ok () else ending (.cooperative retries) rest fault, after,
          course.state) ∧
      Conversed session after course frames ∧
      (course.ended = false → fault = none → after.line.arrivals = []) :=
  converse_all handler hl hs hd h state (length_lt_rounds h)

/-- **Enquiring** sends the opening, and goes the course through all frames upcoming. -/
theorem enquire_follows
    (hd : ∀ departure ∈ session.line.departures, departure.Succeeds .blocking) (opening : Message) :
    let course := handler.course state (frames.map Frame.message)
    ∃ after, session.enquire handler opening state =
        (if course.ended then .ok () else ending .blocking rest fault, after, course.state) ∧
      after.line.written =
        session.line.written ++ (opening :: course.answers).flatMap Message.encode := by
  obtain ⟨left, hleft, hsend⟩ := send_succeeds hd opening
  have hup : (session.withSent left opening).upcoming = frames.flatMap Frame.bytes ++ rest := h
  obtain ⟨after, ha, hc, -⟩ := converse_all handler hl (hs.withSent left opening)
    (fun departure hm => hd departure (hleft.subset hm)) hup state (length_lt_rounds hup)
  refine ⟨after, ?_, ?_⟩
  · rw [enquire_sent handler state hsend]
    exact ha
  · rw [hc.written, List.flatMap_cons, ← List.append_assoc]
    rfl

end Sides

end Session

end RouteCosts
