import RouteCosts.Proofs.Session.Looking
import RouteCosts.Proofs.Session.Sending
import RouteCosts.Proofs.Session.Serving

/-!
# Serving on a slow line

The patience of a cooperative session is for each read by itself. A stall before a read that is
shorter shows nowhere, however many reads are slowed (`converse_delayed`): the next read has all
of the patience again, and handling and answering take none of it. A stall that is longer ends the
conversation when it is met, after all frames before it were handled and answered, unless something
among the reads, the writes or the answers has ended it before (`converse_looks`). The main
statement is `serve_patience`.
-/

namespace RouteCosts

/-- A read that has to wait before it meets anything. -/
def Arrival.IsStall : Arrival → Prop
  | stall _ => True
  | _ => False

/-- The stalls before a read that is slowed or not: its own, or a short one if it has none. -/
def Slowed (patience : Option Nat) (own stalls : List Nat) : Prop :=
  stalls = own ∨
    own = [] ∧ ∃ delay, (∀ limit, patience = some limit → delay < limit) ∧ stalls = [delay]

/-- The second script is the first with short stalls put in, at most one before each read and none
where there are others. A read at the end of the script may be slowed too. -/
inductive Delayed (patience : Option Nat) : List Arrival → List Arrival → Prop where
  | finish (own stalls : List Nat) (hs : Slowed patience own stalls) :
    Delayed patience (own.map .stall) (stalls.map .stall)
  | read (own stalls : List Nat) (hs : Slowed patience own stalls) {arrival : Arrival}
    (ha : ¬ arrival.IsStall) {script other : List Arrival} (h : Delayed patience script other) :
    Delayed patience (own.map .stall ++ arrival :: script) (stalls.map .stall ++ arrival :: other)

theorem flatMap_bytes_stalls (stalls : List Nat) :
    (stalls.map Arrival.stall).flatMap Arrival.bytes = [] := by
  rw [List.flatMap_map, List.flatMap_eq_nil_iff]
  exact fun delay _ => rfl

theorem flatMap_within_stalls (limit : Nat) (stalls : List Nat) :
    (stalls.map Arrival.stall).flatMap (Arrival.within limit) = stalls.map .stall := by
  rw [List.flatMap_map]
  exact List.map_eq_flatMap.symm

theorem Delayed.flatMap_bytes {patience : Option Nat} {script other : List Arrival}
    (h : Delayed patience script other) :
    other.flatMap Arrival.bytes = script.flatMap Arrival.bytes := by
  induction h with
  | finish own stalls hs => rw [flatMap_bytes_stalls, flatMap_bytes_stalls]
  | read own stalls hs ha h ih =>
    rw [List.flatMap_append, List.flatMap_append, flatMap_bytes_stalls, flatMap_bytes_stalls,
      List.flatMap_cons, List.flatMap_cons, ih]

/-- Reads that are not slowed may come first. -/
theorem Delayed.append_left {patience : Option Nat} {script other front : List Arrival}
    (hf : ∀ arrival ∈ front, ¬ arrival.IsStall) (h : Delayed patience script other) :
    Delayed patience (front ++ script) (front ++ other) := by
  induction front with
  | nil => exact h
  | cons arrival front ih =>
    exact .read [] [] (Or.inl rfl) (hf arrival List.mem_cons_self)
      (ih fun a ha => hf a (List.mem_cons_of_mem _ ha))

/-- What is cut to size meets the same stalls, before its first piece. -/
theorem Arrival.exists_within {arrival : Arrival} (ha : ¬ arrival.IsStall) (limit : Nat) :
    ∃ first rest, arrival.within limit = first :: rest ∧
      ∀ piece ∈ first :: rest, ¬ piece.IsStall := by
  cases arrival with
  | data bytes =>
    obtain ⟨first, rest, hp⟩ : ∃ first rest, pieces limit bytes.length bytes = first :: rest := by
      unfold pieces
      split
      · exact ⟨_, _, rfl⟩
      · split
        · exact ⟨_, _, rfl⟩
        · exact ⟨_, _, rfl⟩
    refine ⟨.data first, rest.map .data, by rw [within, hp, List.map_cons], fun piece h => ?_⟩
    rw [← List.map_cons] at h
    obtain ⟨bytes, -, rfl⟩ := List.mem_map.1 h
    exact id
  | failure fault => exact ⟨_, [], rfl, fun piece h => List.mem_singleton.1 h ▸ id⟩
  | stall delay => exact absurd trivial ha

theorem Delayed.within {patience : Option Nat} {script other : List Arrival}
    (h : Delayed patience script other) (limit : Nat) :
    Delayed patience (script.flatMap (Arrival.within limit))
      (other.flatMap (Arrival.within limit)) := by
  induction h with
  | finish own stalls hs =>
    rw [flatMap_within_stalls, flatMap_within_stalls]
    exact .finish own stalls hs
  | read own stalls hs ha h ih =>
    obtain ⟨first, rest, hw, hall⟩ := Arrival.exists_within ha limit
    rw [List.flatMap_append, List.flatMap_append, flatMap_within_stalls, flatMap_within_stalls,
      List.flatMap_cons, List.flatMap_cons, hw, List.cons_append, List.cons_append]
    exact .read own stalls hs (hall first List.mem_cons_self)
      (ih.append_left fun piece hp => hall piece (List.mem_cons_of_mem _ hp))

namespace Session

/-! ### Short stalls -/

section Stalls
variable (session : Session) (framer : Framer)

/-- After some stalls a look goes on with its reads, or has taken too long, whatever they are. -/
theorem receiveFrom_stalls (stalls : List Nat) (left : Option Nat) :
    (∃ time, ∀ reads, session.receiveFrom framer left (stalls.map .stall ++ reads) =
      session.receiveFrom framer time reads) ∨
    ∃ later : List Nat, ∀ reads, session.receiveFrom framer left (stalls.map .stall ++ reads) =
      (.error (.transport .readTimedOut), session.withArrivals (later.map .stall ++ reads)) := by
  induction stalls generalizing left with
  | nil => exact Or.inl ⟨left, fun reads => rfl⟩
  | cons delay stalls ih =>
    cases left with
    | none => exact ih none
    | some time =>
      by_cases hlt : time < delay
      · refine Or.inr ⟨(delay - time) :: stalls, fun reads => ?_⟩
        rw [List.map_cons, List.cons_append, receiveFrom, if_pos hlt]
        rfl
      · simp only [List.map_cons, List.cons_append, receiveFrom, if_neg hlt]
        exact ih (some (time - delay))

/-- A stall within the patience leaves a part of it. -/
theorem receiveFrom_short {delay : Nat} {patience : Option Nat}
    (h : ∀ limit, patience = some limit → delay < limit) (reads : List Arrival) :
    session.receiveFrom framer patience (.stall delay :: reads) =
      session.receiveFrom framer (patience.map (· - delay)) reads := by
  cases patience with
  | none => rfl
  | some limit =>
    rw [receiveFrom, if_neg (Nat.lt_asymm (h limit rfl)), Option.map_some]

end Stalls

/-- **Two looks with one outcome.** After a message the reads to come are again the same but for
short stalls. -/
def LooksAlike (run other : Except SessionError (Option Message) × Session) : Prop :=
  ∃ left, other = (run.1, run.2.withArrivals left) ∧
    ∀ message, run.1 = .ok (some message) → Delayed run.2.patience run.2.line.arrivals left

/-- Slowing the next read shows nowhere if the time that is left for it does not. -/
theorem receiveFrom_slowed {session : Session} {framer : Framer} {own stalls : List Nat}
    (hs : Slowed session.patience own stalls) {script other : List Arrival}
    (h : ∀ time time', LooksAlike (session.receiveFrom framer time script)
      (session.receiveFrom framer time' other)) :
    LooksAlike (session.receiveFrom framer session.patience (own.map .stall ++ script))
      (session.receiveFrom framer session.patience (stalls.map .stall ++ other)) := by
  rcases hs with rfl | ⟨rfl, delay, hshort, rfl⟩
  · rcases receiveFrom_stalls session framer stalls session.patience with ⟨time, ht⟩ | ⟨later, hl⟩
    · rw [ht, ht]
      exact h time time
    · rw [hl, hl]
      exact ⟨later.map .stall ++ other, rfl, nofun⟩
  · have hread := receiveFrom_short session framer hshort other
    show LooksAlike (session.receiveFrom framer session.patience script)
      (session.receiveFrom framer session.patience (.stall delay :: other))
    rw [hread]
    exact h _ _

/-- **Short stalls show nowhere in a look**, by induction on the slowed reads. -/
theorem receiveFrom_delayed {session : Session} {framer : Framer} {reads other : List Arrival}
    (h : Delayed session.patience reads other) :
    LooksAlike (session.receiveFrom framer session.patience reads)
      (session.receiveFrom framer session.patience other) := by
  generalize hp : session.patience = patience at h
  induction h generalizing session framer with
  | finish own stalls hs =>
    subst hp
    rw [← List.append_nil (own.map _), ← List.append_nil (stalls.map _)]
    refine receiveFrom_slowed hs fun time time' => ⟨[], rfl, fun _ _ => ?_⟩
    exact .finish [] [] (Or.inl rfl)
  | @read own stalls hs arrival ha script other h ih =>
    subst hp
    refine receiveFrom_slowed hs fun time time' => ?_
    rcases arrival with (_ | ⟨byte, bytes⟩) | fault | delay
    · exact ⟨other, rfl, fun _ _ => h⟩
    · obtain ⟨answer, more, haccept⟩ := exists_accept framer (byte :: bytes)
      rw [receiveFrom, receiveFrom, haccept]
      rcases answer with next | message | error
      · exact ih rfl
      · exact ⟨other, rfl, fun _ _ => h⟩
      · exact ⟨other, rfl, fun _ _ => h⟩
    · exact ⟨other, rfl, fun _ _ => h⟩
    · exact absurd trivial ha

theorem receive_delayed {session : Session} {other : List Arrival}
    (h : Delayed session.patience session.line.arrivals other) :
    LooksAlike session.receive (session.withArrivals other).receive := by
  obtain ⟨answer, more, haccept⟩ := exists_accept (.holding []) session.pending
  rw [receive_withArrivals, receive, replay_eq, haccept]
  rcases answer with next | message | error
  · exact receiveFrom_delayed h
  · exact ⟨other, rfl, fun _ _ => h⟩
  · exact ⟨other, rfl, fun _ _ => h⟩

theorem next_delayed {retries : Bool} {session : Session} {other : List Arrival}
    (h : Delayed session.patience session.line.arrivals other) :
    let look := session.next (.cooperative retries)
    ∃ left, (session.withArrivals other).next (.cooperative retries) =
        (look.1, look.2.withArrivals left) ∧
      ∀ message, look.1 = .ok message → Delayed look.2.patience look.2.line.arrivals left := by
  obtain ⟨left, hlook, hleft⟩ := receive_delayed h
  unfold next
  rw [hlook]
  generalize session.receive = look at hleft ⊢
  rcases look with ⟨error | _ | message, mid⟩
  · exact ⟨left, rfl, nofun⟩
  · exact ⟨left, rfl, nofun⟩
  · exact ⟨left, rfl, fun _ _ => hleft message rfl⟩

variable {η : Type}

/-- **Short stalls show nowhere in a conversation**, by induction on the rounds. -/
theorem converse_delayed (retries : Bool) (handler : Handler η) (rounds : Nat) {session : Session}
    {other : List Arrival} (h : Delayed session.patience session.line.arrivals other) (state : η) :
    let run := converse (.cooperative retries) handler rounds session state
    ∃ left, converse (.cooperative retries) handler rounds (session.withArrivals other) state =
      (run.1, run.2.1.withArrivals left, run.2.2) := by
  induction rounds generalizing session other state with
  | zero => exact ⟨other, rfl⟩
  | succ rounds ih =>
    obtain ⟨left, hother, hleft⟩ := next_delayed h
    rcases hnext : session.next (.cooperative retries) with ⟨result | message, mid⟩
    · rw [hnext] at hother
      rw [converse_missed hnext, converse_missed hother]
      exact ⟨left, rfl⟩
    · rw [hnext] at hother hleft
      rcases hh : handler state message with ⟨_ | answer, state'⟩
      · rw [converse_unanswered hnext hh, converse_unanswered hother hh]
        exact ⟨left, rfl⟩
      · obtain ⟨-, harrivals, hpatience⟩ := (send_sends (.cooperative retries) mid answer).keeps
        rcases hsend : mid.send (.cooperative retries) answer with ⟨error | sent, last⟩
        · rw [converse_unsent hnext hh hsend,
            converse_unsent hother hh (send_withArrivals hsend left)]
          exact ⟨left, rfl⟩
        · rw [hsend] at harrivals hpatience
          rw [converse_answered hnext hh hsend,
            converse_answered hother hh (send_withArrivals hsend left)]
          refine ih ?_ state'
          rw [harrivals, hpatience]
          exact hleft message rfl

/-! ### Long stalls -/

/-- **Two runs that cannot be told apart**: the same result, the same calls and state, and sessions
that differ in the reads to come only. -/
structure SameRun (run other : Except SessionError Unit × Session × List Message × η) : Prop where
  result : other.1 = run.1
  session : run.2.1.Alike other.2.1
  calls : other.2.2 = run.2.2

/-- **A run that ended for want of a read**, after all frames that came were handled and answered,
and no other. -/
structure TimedOut {bytes : List UInt8} (framing : Framing bytes) (course : Course η)
    (run : Except SessionError Unit × Session × List Message × η) : Prop where
  result : run.1 = .error (.transport .readTimedOut)
  calls : run.2.2 = (framing.frames.map Frame.message, course.state)
  answered : course.answers.length = framing.frames.length
  written : run.2.1.line.written = course.answers.flatMap Message.encode
  messagesReceived : run.2.1.stats.messagesReceived = framing.frames.length
  messagesSent : run.2.1.stats.messagesSent = framing.frames.length
  bytesReceived : run.2.1.stats.bytesReceived = bytes.length
  bytesSent : run.2.1.stats.bytesSent = (course.answers.flatMap Message.encode).length

section New
variable (script more : List Arrival) (departures : List Departure) (patience : Option Nat)

theorem sized_new : (new (.new Kind.maxLength script departures) patience).Sized where
  chunk_le := fun arrival ha => by
    obtain ⟨whole, -, ha⟩ := List.mem_flatMap.1 ha
    rcases whole with (_ | ⟨byte, bytes⟩) | fault | delay
    · obtain rfl := List.mem_singleton.1 ha
      exact Nat.zero_le _
    · obtain ⟨piece, hp, rfl⟩ := List.mem_map.1 ha
      exact (mem_pieces (by decide) (Nat.le_refl _) (List.cons_ne_nil _ _) hp).2
    · obtain rfl := List.mem_singleton.1 ha
      exact Nat.zero_le _
    · obtain rfl := List.mem_singleton.1 ha
      exact Nat.zero_le _
  pending_lt := show 0 < Kind.maxLength by decide

theorem upcoming_new_script :
    (new (.new Kind.maxLength script departures) patience).upcoming =
      script.flatMap Arrival.bytes :=
  flatMap_bytes_within Kind.maxLength script

theorem new_append :
    new (.new Kind.maxLength (script ++ more) departures) patience =
      (new (.new Kind.maxLength script departures) patience).followedBy
        (more.flatMap (Arrival.within Kind.maxLength)) := by
  unfold Line.new
  rw [List.flatMap_append]
  rfl

end New

theorem length_le_backlog {session : Session} {frames : List Frame} {rest : List UInt8}
    (h : session.upcoming = frames.flatMap Frame.bytes ++ rest) (more : List Arrival) :
    frames.length ≤ (session.followedBy more).backlog := by
  have hup : (session.followedBy more).upcoming =
      frames.flatMap Frame.bytes ++ (rest ++ more.flatMap Arrival.bytes) := by
    show session.pending ++ (session.line.arrivals ++ more).flatMap Arrival.bytes = _
    rw [List.flatMap_append, ← List.append_assoc, ← List.append_assoc, ← h]
    rfl
  exact Nat.le_of_lt_succ (length_lt_rounds hup)

/-- A conversation that has answered all frames of a script, and used it up, has timed out when it
stops there. -/
theorem timedOut_of_conversed {script : List Arrival} {departures : List Departure}
    {patience : Option Nat} {framing : Framing (script.flatMap Arrival.bytes)} {course : Course η}
    (hheard : course.heard = framing.frames.map Frame.message)
    (hanswered : course.answers.length = (framing.frames.map Frame.message).length)
    {after : Session} {noted : List Message × η}
    (hc : Conversed (new (.new Kind.maxLength script departures) patience) after
      ⟨course.heard, course.answers, noted, course.ended⟩ framing.frames)
    (ha : after.line.arrivals = []) (left : List Arrival) :
    TimedOut framing course
      (.error (.transport .readTimedOut), after.withArrivals left, course.heard, course.state) := by
  rw [List.length_map] at hanswered
  have hlength : course.heard.length = framing.frames.length := by
    rw [hheard, List.length_map]
  have hcount : after.stats.bytesReceived = (script.flatMap Arrival.bytes).length := by
    have hall := hc.bytesReceived
    rw [ha] at hall
    rw [← upcoming_new_script script departures patience]
    exact hall.trans (Nat.zero_add _)
  exact {
    result := rfl
    calls := Prod.ext hheard rfl
    answered := hanswered
    written := hc.written
    messagesReceived := hc.messagesReceived.trans ((Nat.zero_add _).trans hlength)
    messagesSent := hc.messagesSent.trans ((Nat.zero_add _).trans hanswered)
    bytesReceived := hcount
    bytesSent := hc.bytesSent.trans (Nat.zero_add _) }

/-- **The patience is for each read, and for nothing else.** Short stalls, at most one before each
read, change nothing that can be seen of serving. Whatever has come before a long stall, serving
either times out there, when it has handled and answered all frames that have come; or something has
hindered it, and it has ended in the same way whatever comes after. All of this holds whether or not
interrupted writes are tried again. -/
theorem serve_patience (handler : Handler η) (state : η) (departures : List Departure)
    (patience : Option Nat) (retries : Bool) :
    let session := fun script => new (.new Kind.maxLength script departures) patience
    let run := fun script => (session script).serve handler.noting ([], state) retries
    (∀ script delayed, Delayed patience script delayed → SameRun (run script) (run delayed)) ∧
    ∀ before, ∃ framing : Framing (before.flatMap Arrival.bytes),
      let course := handler.course state (framing.frames.map Frame.message)
      (∀ limit delay rest, patience = some limit → limit < delay →
          TimedOut framing course (run (before ++ .stall delay :: rest))) ∨
        Hindered retries (session before) course.ended framing.fault ∧
          ∀ more, SameRun (run before) (run (before ++ more)) := by
  intro session run
  refine ⟨fun script delayed h => ?_, fun before => ?_⟩
  · have hcut : Delayed (session script).patience (session script).line.arrivals
        (delayed.flatMap (Arrival.within Kind.maxLength)) := h.within Kind.maxLength
    have hbacklog : (session delayed).backlog = (session script).backlog := by
      rw [← length_upcoming, ← length_upcoming, upcoming_new_script, upcoming_new_script,
        h.flatMap_bytes]
    obtain ⟨left, hrun⟩ :=
      converse_delayed retries handler.noting ((session script).backlog + 1) hcut ([], state)
    have hdelayed : run delayed = ((run script).1, (run script).2.1.withArrivals left,
        (run script).2.2) := by
      show converse _ _ ((session delayed).backlog + 1) _ _ = _
      rw [hbacklog]
      exact hrun
    rw [hdelayed]
    exact ⟨rfl, ⟨left, rfl⟩, rfl⟩
  · obtain ⟨framing⟩ := Framing.exists_framing (before.flatMap Arrival.bytes)
    refine ⟨framing, ?_⟩
    intro course
    have hup : (session before).upcoming = framing.frames.flatMap Frame.bytes ++ framing.rest :=
      (upcoming_new_script before departures patience).trans framing.join
    have hrun (more : List Arrival) : run (before ++ more) =
        ((session before).followedBy (more.flatMap (Arrival.within Kind.maxLength))).serve
          handler.noting ([], state) retries := by
      rw [← new_append]
    have hcourse := handler.course_noting [] state (framing.frames.map Frame.message)
    cases converse_looks handler.noting framing.leftover
      (sized_new before departures patience) hup ([], state) with
    | waiting after he hc ha hlook =>
      rw [hcourse] at he hc hlook
      obtain ⟨hheard, hanswered⟩ := handler.course_of_not_ended he
      refine Or.inl fun limit delay rest hp hlt => ?_
      obtain ⟨left, hlast⟩ := hlook limit delay (rest.flatMap (Arrival.within Kind.maxLength)) _
        hp hlt (length_le_backlog hup _)
      rw [show run (before ++ .stall delay :: rest) = _ from (hrun _).trans hlast]
      exact timedOut_of_conversed hheard hanswered hc ha left
    | ended result after last why hlook =>
      rw [hcourse] at why
      have hall (more : List Arrival) : run (before ++ more) = (result,
          after.followedBy (more.flatMap (Arrival.within Kind.maxLength)), last) :=
        (hrun more).trans (hlook _ _ (length_le_backlog hup _))
      refine Or.inr ⟨why, fun more => ?_⟩
      rw [hall more, ← List.append_nil before, hall]
      exact ⟨rfl, ⟨_, rfl⟩, rfl⟩

/-- An interrupted write that is not tried again ends the conversation before the stall. -/
example :
    let request := Message.stamped 7 .statusRequest
    let echo : Handler Unit := fun _ message => (some message, ())
    let fault : Fault := ⟨.interrupted, "interrupted"⟩
    let line := Line.new Kind.maxLength [.data request.encode, .stall 11] [.failure fault]
    let run := (new line (some 10)).serve echo () false
    run.1 = .error (.transport fault) ∧ run.2.1.line.written = [] := ⟨rfl, rfl⟩

/-- A request in two slow reads, and the start of a second one that does not come in time. -/
theorem serve_slow_requests :
    let first := Message.stamped 7 .statusRequest
    let second := Message.stamped 8 (.locationsRequest 3)
    let counting : Handler Nat :=
      fun count _ => (some (.stamped 9 (.routeResponse (UInt64.ofNat count))), count + 1)
    let reads := [first.encode.take 5, first.encode.drop 5 ++ second.encode.take 5]
    let slow := [.stall 9, .data (first.encode.take 5), .stall 9,
      .data (first.encode.drop 5 ++ second.encode.take 5)]
    let run := fun script =>
      (new (.new Kind.maxLength script []) (some 10)).serve counting.noting ([], 0) false
    let late := run (reads.map .data ++ .stall 11 :: [.data (second.encode.drop 5)])
    (run slow).1 = (run (reads.map .data)).1 ∧ (run slow).2.2 = (run (reads.map .data)).2.2 ∧
      late.1 = .error (.transport .readTimedOut) ∧ late.2.2 = ([first], 1) ∧
      late.2.1.line.written = (Message.stamped 9 (.routeResponse 0)).encode := by
  intro first second counting reads slow run late
  obtain ⟨hshort, hlong⟩ := serve_patience counting 0 [] (some 10) false
  have hslowed : Slowed (some 10) [] [9] :=
    Or.inr ⟨rfl, 9, fun limit hl => Option.some.inj hl ▸ by decide, rfl⟩
  have hscript : Delayed (some 10) (reads.map .data) slow :=
    .read [] [9] hslowed id (.read [] [9] hslowed id (.finish [] [] (Or.inl rfl)))
  have hsame : SameRun (run (reads.map .data)) (run slow) := hshort _ _ hscript
  refine ⟨hsame.result, hsame.calls, ?_⟩
  obtain ⟨framing, hend⟩ := hlong (reads.map .data)
  let cut : Framing ((reads.map Arrival.data).flatMap Arrival.bytes) :=
    ⟨[.ofBody 7 .statusRequest], second.encode.take 5, none, by decide,
      .unfinished (Or.inl (by decide))⟩
  obtain rfl : framing = cut := Subsingleton.elim _ _
  have hframes : cut.frames.map Frame.message = [first] := by
    show [(Frame.ofBody _ _).message] = _
    rw [Frame.message_ofBody]
  have hcourse : counting.course 0 [first] =
      ⟨[first], [.stamped 9 (.routeResponse 0)], 1, false⟩ := rfl
  rw [hframes, hcourse] at hend
  rcases hend with hout | ⟨why, -⟩
  · have hlate := hout 10 11 [.data (second.encode.drop 5)] rfl (by decide)
    change TimedOut cut _ late at hlate
    clear_value late
    refine ⟨hlate.result, ?_, ?_⟩
    · rw [hlate.calls, hframes]
    · rw [hlate.written]
      rfl
  · cases why with
    | unanswered h => cases h
    | refused h => cases h
    | unwritten hm hf => cases hm
    | obstructed h => exact absurd h (plain_new (by decide) [] (some 10)).not_obstacle

end Session

end RouteCosts
