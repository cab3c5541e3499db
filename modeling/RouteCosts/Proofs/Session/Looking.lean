import Mathlib.Algebra.GroupWithZero.Nat
import RouteCosts.Proofs.Session.Conversing
import RouteCosts.Proofs.Session.Scripts
import RouteCosts.Proofs.Session.Sending

/-!
# One look for a message

A cooperative session looks for a message on reads that may bring anything, and more reads follow
them (`followedBy`). One of three things happens, whatever the other reads are: a frame is there and
its message is taken; a bad header or an `Obstacle` among the reads ends the conversation; or all
reads are used up and the session waits on the other ones, and gives up if the first of them stalls
for longer than its patience (`receive_looks`). So it is with a whole conversation on such reads
(`converse_looks`).
-/

namespace RouteCosts.Session

/-- The session when other reads come after its own. -/
def followedBy (session : Session) (more : List Arrival) : Session :=
  session.withArrivals (session.line.arrivals ++ more)

/-- No read brings more than a buffer has room for, and less than a whole buffer is pending. -/
structure Sized (session : Session) : Prop where
  chunk_le : ∀ arrival ∈ session.line.arrivals, arrival.bytes.length ≤ Kind.maxLength
  pending_lt : session.pending.length < Kind.maxLength

theorem Sized.withSent {session : Session} (hs : session.Sized) (left : List Departure)
    (message : Message) : (session.withSent left message).Sized :=
  ⟨hs.chunk_le, hs.pending_lt⟩

theorem Took.sized {before after : Session} {rest : List UInt8} (h : Took before after rest)
    (hs : before.Sized) : after.Sized :=
  ⟨fun arrival ha => hs.chunk_le arrival (h.arrivals.subset ha), h.pending_lt⟩

/-- **What stops a session among its reads**: the end of the stream, a fault, or stalls one after
the other that take longer than a read may take. -/
inductive Obstacle (patience : Option Nat) (reads : List Arrival) : Prop
  | closed (h : .data [] ∈ reads)
  | failed {fault : Fault} (h : .failure fault ∈ reads)
  | overdue {limit : Nat} (hp : patience = some limit) (stalls : List Nat)
    (h : stalls.map .stall <:+: reads) (hs : limit < stalls.sum)

theorem Obstacle.of_reads {before after : Session} (h : Reads before after)
    (ho : Obstacle after.patience after.line.arrivals) :
    Obstacle before.patience before.line.arrivals := by
  cases ho with
  | closed hm => exact .closed (h.arrivals.subset hm)
  | failed hm => exact .failed (h.arrivals.subset hm)
  | overdue hp stalls hi hs =>
    exact .overdue (h.patience ▸ hp) stalls (hi.trans h.arrivals.isInfix) hs

theorem Plain.not_obstacle {session : Session} (hs : session.Plain) :
    ¬ Obstacle session.patience session.line.arrivals := by
  rintro (h | h | ⟨-, stalls, h, hlt⟩)
  · exact (hs.chunk _ h).1 rfl
  · exact hs.chunk _ h
  · cases stalls with
    | nil => exact absurd hlt (Nat.not_lt_zero _)
    | cons delay stalls => exact hs.chunk _ (h.subset List.mem_cons_self)

/-- **What comes of a look for a message** in some bytes, when the reads that follow are not known
yet. -/
inductive Looks (session : Session) (bytes : List UInt8)
    (look : List Arrival → Except SessionError (Option Message) × Session) : Prop
  | took (frame : Frame) (rest : List UInt8) (after : Session) (hb : bytes = frame.bytes ++ rest)
    (ht : Took session after rest)
    (h : ∀ more, look more = (.ok (some frame.message), after.followedBy more))
  | stopped (outcome : Except SessionError Unit) (after : Session)
    (why : (∃ error, BadHeader bytes error) ∨ Obstacle session.patience session.line.arrivals)
    (h : ∀ more, look more = (outcome.map fun _ => none, after.followedBy more))
  /-- All that has come is read, and more is looked for. -/
  | waiting (after : Session) (hu : Unfinished bytes) (hm : Missed session after none)
    (h : ∀ limit delay rest, session.patience = some limit → limit < delay →
      ∃ left, look (.stall delay :: rest) =
        (.error (.transport .readTimedOut), after.withArrivals left))

theorem Looks.congr {session : Session} {bytes : List UInt8}
    {look other : List Arrival → Except SessionError (Option Message) × Session}
    (h : Looks session bytes look) (he : ∀ more, other more = look more) :
    Looks session bytes other :=
  (funext he : other = look) ▸ h

/-- What was read before the look is part of it. -/
theorem Looks.of_reads {session mid : Session} {bytes : List UInt8}
    {look : List Arrival → Except SessionError (Option Message) × Session} (hr : Reads session mid)
    (hc : mid.stats.messagesReceived = session.stats.messagesReceived)
    (h : Looks mid bytes look) : Looks session bytes look := by
  cases h with
  | took frame rest after hb ht h =>
    exact .took frame rest after hb
      { ht with
        toReads := hr.trans ht.toReads
        messagesReceived := ht.messagesReceived.trans (congrArg (· + 1) hc) } h
  | stopped outcome after why h => exact .stopped outcome after (why.imp_right (.of_reads hr)) h
  | waiting after hu hm h =>
    exact .waiting after hu
      { hm with
        toReads := hr.trans hm.toReads
        messagesReceived := hm.messagesReceived.trans hc }
      fun limit delay rest hp => h limit delay rest (hr.patience.trans hp)

/-- Stalls that were waited for bring nothing. -/
theorem reads_stalls (session : Session) (stalls : List Nat) (reads : List Arrival) :
    Reads (session.withArrivals (stalls.map .stall ++ reads)) (session.withArrivals reads) := by
  induction stalls with
  | nil => exact reads_idle (session.withArrivals reads) _ _
  | cons delay stalls ih => exact (reads_pass session (.stall delay) rfl _).trans ih

/-- **A stall after other stalls**, if the look goes on with the reads after it. -/
theorem receiveFrom_stall {session : Session} {framer : Framer} {bytes : List UInt8}
    {stalls : List Nat} (hs : ∀ limit, session.patience = some limit → stalls.sum ≤ limit)
    (delay : Nat) (reads : List Arrival)
    (hmore : (∀ limit, session.patience = some limit → (stalls ++ [delay]).sum ≤ limit) →
      Looks (session.withArrivals ((stalls ++ [delay]).map .stall ++ reads)) bytes fun more =>
        session.receiveFrom framer (session.patience.map (· - (stalls ++ [delay]).sum))
          (reads ++ more)) :
    Looks (session.withArrivals (stalls.map .stall ++ .stall delay :: reads)) bytes fun more =>
      session.receiveFrom framer (session.patience.map (· - stalls.sum))
        (.stall delay :: reads ++ more) := by
  have hall : (stalls ++ [delay]).map Arrival.stall ++ reads =
      stalls.map .stall ++ .stall delay :: reads := by
    rw [List.map_append, List.append_assoc]
    rfl
  rw [List.sum_append, List.sum_singleton, hall] at hmore
  cases hlimit : session.patience with
  | none =>
    rw [hlimit] at hmore
    exact hmore nofun
  | some limit =>
    have hle := hs limit hlimit
    rw [hlimit] at hmore
    by_cases hlt : limit - stalls.sum < delay
    · refine .stopped (.error (.transport .readTimedOut))
        (session.withArrivals (.stall (delay - (limit - stalls.sum)) :: reads))
        (Or.inr (.overdue hlimit (stalls ++ [delay]) ?_ ?_)) fun more => ?_
      · rw [← hall]
        exact (List.prefix_append _ _).isInfix
      · rw [List.sum_append, List.sum_singleton]
        omega
      · rw [List.cons_append, Option.map_some, receiveFrom, if_pos hlt]
        rfl
    · have hsum : ∀ other, some limit = some other → stalls.sum + delay ≤ other := by
        rintro other ⟨⟩
        omega
      refine (hmore hsum).congr fun more => ?_
      rw [List.cons_append, Option.map_some, receiveFrom, if_neg hlt, Option.map_some,
        Nat.sub_add_eq]

section ReceiveFrom
variable {session : Session} (hp : session.pending = []) {held : List UInt8} (hu : Unfinished held)
include hp hu

/-- **A chunk that comes after some stalls**, if the look goes on with the reads after it. -/
theorem receiveFrom_chunk (stalls : List Nat) {byte : UInt8} {bytes : List UInt8}
    (hlen : (byte :: bytes).length ≤ Kind.maxLength) {reads : List Arrival} (left : Option Nat)
    (hmore : Unfinished (held ++ byte :: bytes) →
      Looks ((session.countRead (byte :: bytes)).withArrivals reads)
        ((held ++ byte :: bytes) ++ reads.flatMap Arrival.bytes) fun more =>
          (session.countRead (byte :: bytes)).receiveFrom (.holding (held ++ byte :: bytes))
            session.patience (reads ++ more)) :
    Looks (session.withArrivals (stalls.map .stall ++ .data (byte :: bytes) :: reads))
      (held ++ (byte :: bytes) ++ reads.flatMap Arrival.bytes) fun more =>
        session.receiveFrom (.holding held) left (.data (byte :: bytes) :: reads ++ more) := by
  have hread := (reads_stalls session stalls _).trans
    (reads_countRead session (byte :: bytes) reads)
  rcases trichotomy (held ++ byte :: bytes) with ⟨frame, rest, hf⟩ | hu' | ⟨error, he⟩
  · have hp' : (session.countRead (byte :: bytes)).pending = [] := hp
    refine .took frame _ _ ?_ (took_frame hp' hu hf hlen hread rfl) fun more => ?_
    · rw [hf, List.append_assoc]
    · rw [List.cons_append, receiveFrom, accept_frame _ hu hf]
      rfl
  · refine ((hmore hu').of_reads hread rfl).congr fun more => ?_
    rw [List.cons_append, receiveFrom, accept_unfinished _ hu hu']
    rfl
  · refine .stopped (.error (.protocol error))
      ((session.countRead (byte :: bytes)).withArrivals reads)
      (Or.inl ⟨error, he.append _⟩) fun more => ?_
    rw [List.cons_append, receiveFrom, accept_badHeader _ hu he]
    rfl

end ReceiveFrom

/-- Before any stall there is all of the patience. -/
theorem map_sub_nil (patience : Option Nat) :
    (patience.map fun limit => limit - List.sum []) = patience := by
  rw [List.sum_nil]
  exact Option.map_id_apply

/-- **A look on some reads**, by induction on the reads, after some stalls that the present read has
waited for already. -/
theorem receiveFrom_looks {reads : List Arrival}
    (hr : ∀ arrival ∈ reads, arrival.bytes.length ≤ Kind.maxLength) {held : List UInt8}
    (hu : Unfinished held) {session : Session} (hp : session.pending = []) (stalls : List Nat)
    (hs : ∀ limit, session.patience = some limit → stalls.sum ≤ limit) :
    Looks (session.withArrivals (stalls.map .stall ++ reads))
      (held ++ reads.flatMap Arrival.bytes) fun more =>
        session.receiveFrom (.holding held) (session.patience.map (· - stalls.sum))
          (reads ++ more) := by
  induction reads generalizing held session stalls with
  | nil =>
    have hall : Unfinished (held ++ [].flatMap Arrival.bytes) := by
      rw [List.flatMap_nil, List.append_nil]
      exact hu
    refine .waiting _ hall ⟨reads_stalls session stalls [], rfl, fun _ => rfl⟩
      fun limit delay rest hlimit hlt => ?_
    have hleft : limit - stalls.sum < delay := Nat.lt_of_le_of_lt (Nat.sub_le _ _) hlt
    rw [List.nil_append, show session.patience = some limit from hlimit, Option.map_some,
      receiveFrom, if_pos hleft]
    exact ⟨_, rfl⟩
  | cons arrival reads ih =>
    have hr' := fun a ha => hr a (List.mem_cons_of_mem _ ha)
    rw [List.flatMap_cons, ← List.append_assoc]
    rcases arrival with (_ | ⟨byte, bytes⟩) | fault | delay
    · refine .stopped (if (Framer.holding held).fed = 0 then .ok () else .error .closed)
        (session.withArrivals reads) (Or.inr (.closed ?_)) fun more => ?_
      · exact List.mem_append_right _ List.mem_cons_self
      · rw [List.cons_append, receiveFrom]
        split <;> rfl
    · refine receiveFrom_chunk hp hu stalls (hr _ List.mem_cons_self) _ fun hu' => ?_
      have hp' : (session.countRead (byte :: bytes)).pending = [] := hp
      have hmore := ih hr' hu' hp' [] fun limit _ => Nat.zero_le _
      refine hmore.congr fun more => ?_
      rw [map_sub_nil]
      rfl
    · exact .stopped (.error (.transport fault)) (session.withArrivals reads)
        (Or.inr (.failed (List.mem_append_right _ List.mem_cons_self))) fun more => rfl
    · rw [show (Arrival.stall delay).bytes = [] from rfl, List.append_nil]
      exact receiveFrom_stall hs delay reads (ih hr' hu hp (stalls ++ [delay]))

/-- **A look for a message**, first among the bytes pending and then on the reads. -/
theorem receive_looks {session : Session} (hs : session.Sized) :
    Looks session session.upcoming fun more => (session.followedBy more).receive := by
  have hidle := reads_idle session [] session.stats.messagesReceived
  rcases trichotomy session.pending with ⟨frame, rest, hf⟩ | hu | ⟨error, he⟩
  · refine .took frame _ _ ?_ (took_pending hf hs.pending_lt) fun more => ?_
    · rw [upcoming, hf, List.append_assoc]
    · rw [followedBy, receive_withArrivals, replay_eq, accept_frame _ unfinished_nil
        (show [] ++ session.pending = frame.bytes ++ rest from hf)]
      rfl
  · have hp : { session with pending := [] }.pending = [] := rfl
    have hmore := receiveFrom_looks hs.chunk_le hu hp [] fun limit _ => Nat.zero_le _
    refine (hmore.of_reads hidle rfl).congr fun more => ?_
    rw [followedBy, receive_withArrivals, replay_eq, accept_unfinished _ unfinished_nil
      (show Unfinished ([] ++ session.pending) from hu), map_sub_nil]
    rfl
  · refine .stopped (.error (.protocol error)) { session with pending := [] }
      (Or.inl ⟨error, he.append _⟩) fun more => ?_
    rw [followedBy, receive_withArrivals, replay_eq, accept_badHeader _ unfinished_nil
      (show BadHeader ([] ++ session.pending) error from he)]
    rfl

/-! ### A conversation up to a long stall -/

variable {η : Type} {retries : Bool}

/-- **What ends a conversation early**: an answer that is not given, a bad header, an answer that
cannot be written, or an obstacle among the reads. -/
inductive Hindered (retries : Bool) (session : Session) (ended : Bool)
    (fault : Option FrameError) : Prop
  | unanswered (h : ended = true)
  | refused {error : FrameError} (h : fault = some error)
  | unwritten {departure : Departure} (hm : departure ∈ session.line.departures)
    (hf : ¬ departure.Succeeds (.cooperative retries))
  | obstructed (h : Obstacle session.patience session.line.arrivals)

/-- After its first answer a conversation is hindered by the same. -/
theorem Hindered.of_rest {session mid : Session} {ended : Bool} {fault : Option FrameError}
    (hr : Reads session mid) {left : List Departure} (hl : left <:+ mid.line.departures)
    {answer : Message} (h : Hindered retries (mid.withSent left answer) ended fault) :
    Hindered retries session ended fault := by
  cases h with
  | unanswered h => exact .unanswered h
  | refused h => exact .refused h
  | unwritten hm hf => exact .unwritten (hr.departures ▸ hl.subset hm) hf
  | obstructed h => exact .obstructed (.of_reads hr h)

/-- **What comes of a conversation** through some frames, when the reads that follow are not known
yet and there are rounds enough. -/
inductive Conversation (retries : Bool) (handler : Handler η) (session : Session) (state : η)
    (frames : List Frame) (fault : Option FrameError) : Prop
  /-- All frames are handled and answered, and the conversation waits for more. -/
  | waiting (after : Session)
    (he : (handler.course state (frames.map Frame.message)).ended = false)
    (hc : Conversed session after (handler.course state (frames.map Frame.message)) frames)
    (ha : after.line.arrivals = [])
    (h : ∀ limit delay more rounds, session.patience = some limit → limit < delay →
      frames.length ≤ rounds →
      ∃ left, converse (.cooperative retries) handler (rounds + 1)
          (session.followedBy (.stall delay :: more)) state =
        (.error (.transport .readTimedOut), after.withArrivals left,
          (handler.course state (frames.map Frame.message)).state))
  | ended (result : Except SessionError Unit) (after : Session) (last : η)
    (why : Hindered retries session (handler.course state (frames.map Frame.message)).ended fault)
    (h : ∀ more rounds, frames.length ≤ rounds →
      converse (.cooperative retries) handler (rounds + 1) (session.followedBy more) state =
        (result, after.followedBy more, last))

theorem next_stopped {session after : Session} {outcome : Except SessionError Unit}
    (h : session.receive = (outcome.map fun _ => none, after)) :
    session.next (.cooperative retries) = (.error outcome, after) := by
  rw [next, h]
  cases outcome <;> rfl

theorem next_took {session after : Session} {message : Message}
    (h : session.receive = (.ok (some message), after)) :
    session.next (.cooperative retries) = (.ok message, after) := by
  rw [next, h]

theorem send_followedBy {writer : Writer} {session last : Session} {message : Message}
    {sent : Except SessionError Nat} (h : session.send writer message = (sent, last))
    (more : List Arrival) :
    (session.followedBy more).send writer message = (sent, last.followedBy more) := by
  have hkeeps := (send_sends writer session message).keeps.2.1
  rw [h] at hkeeps
  rw [followedBy, send_withArrivals h, followedBy, hkeeps]

/-- A message was taken and answered, and the conversation goes on. -/
theorem Conversation.cons {handler : Handler η} {session mid : Session} {state state' : η}
    {frame : Frame} {frames : List Frame} {fault : Option FrameError} {answer : Message}
    (hh : handler state frame.message = (some answer, state')) {rest : List UInt8}
    (ht : Took session mid rest) (hup : session.upcoming = frame.bytes ++ rest)
    {left : List Departure} (hl : left <:+ mid.line.departures)
    (hstep : ∀ more rounds,
      converse (.cooperative retries) handler (rounds + 1) (session.followedBy more) state =
        converse (.cooperative retries) handler rounds
          ((mid.withSent left answer).followedBy more) state')
    (h : Conversation retries handler (mid.withSent left answer) state' frames fault) :
    Conversation retries handler session state (frame :: frames) fault := by
  have hcourse := Handler.course_cons_some hh (frames.map Frame.message)
  cases h with
  | waiting after he hc ha hrun =>
    refine .waiting after ?_ ?_ ha fun limit delay more rounds hp hlt hr => ?_
    · rw [List.map_cons, hcourse]
      exact he
    · rw [List.map_cons, hcourse]
      exact ht.conversed_cons hup hc
    · obtain ⟨rounds, rfl⟩ := Nat.exists_eq_add_one.2 (Nat.zero_lt_of_lt hr)
      obtain ⟨last, hlast⟩ := hrun limit delay more rounds (ht.patience.trans hp) hlt
        (Nat.le_of_succ_le_succ hr)
      refine ⟨last, ?_⟩
      rw [hstep, List.map_cons, hcourse]
      exact hlast
  | ended result after last why hrun =>
    refine .ended result after last ?_ fun more rounds hr => ?_
    · rw [List.map_cons, hcourse]
      exact why.of_rest ht.toReads hl
    · obtain ⟨rounds, rfl⟩ := Nat.exists_eq_add_one.2 (Nat.zero_lt_of_lt hr)
      rw [hstep]
      exact hrun more rounds (Nat.le_of_succ_le_succ hr)

/-- **A conversation before a long stall**, by induction on the frames. -/
theorem converse_looks (handler : Handler η) {frames : List Frame} {rest : List UInt8}
    {fault : Option FrameError} (hl : Leftover rest fault) {session : Session}
    (hs : session.Sized) (h : session.upcoming = frames.flatMap Frame.bytes ++ rest) (state : η) :
    Conversation retries handler session state frames fault := by
  induction frames generalizing session state with
  | nil =>
    rw [List.flatMap_nil, List.nil_append] at h
    cases receive_looks hs with
    | took frame rest' after hb ht hlook =>
      rw [h] at hb
      exact absurd (hb ▸ hl) Leftover.not_frame_append
    | stopped outcome after why hlook =>
      exact .ended outcome after state
        (why.elim (fun ⟨error, he⟩ => .refused (hl.unique (.refused (h ▸ he)))) .obstructed)
        fun more rounds _ => converse_missed (next_stopped (hlook more)) rounds
    | waiting after hu hm hlook =>
      refine .waiting after rfl (hm.conversed state) (hm.exhausted rfl)
        fun limit delay more rounds hp hlt _ => ?_
      obtain ⟨left, hleft⟩ := hlook limit delay more hp hlt
      have hmapped : (session.followedBy (.stall delay :: more)).receive =
          ((Except.error (.transport .readTimedOut) : Except SessionError Unit).map fun _ => none,
            after.withArrivals left) := hleft
      exact ⟨left, converse_missed (next_stopped hmapped) rounds⟩
  | cons frame frames ih =>
    rw [List.flatMap_cons, List.append_assoc] at h
    cases receive_looks hs with
    | waiting after hu hm hlook => exact absurd (h ▸ hu) Unfinished.not_frame_append
    | stopped outcome after why hlook =>
      exact .ended outcome after state
        (why.elim (fun ⟨error, he⟩ => absurd (h ▸ he) BadHeader.not_frame_append) .obstructed)
        fun more rounds _ => converse_missed (next_stopped (hlook more)) rounds
    | took taken rest' mid hb ht hlook =>
      obtain ⟨rfl, rfl⟩ := Frame.eq_of_append_eq (h.symm.trans hb)
      rcases hh : handler state frame.message with ⟨_ | answer, state'⟩
      · have hcourse := Handler.course_cons_none hh (frames.map Frame.message)
        exact .ended (.ok ()) mid state' (.unanswered (by rw [List.map_cons, hcourse]))
          fun more rounds _ => converse_unanswered (next_took (hlook more)) hh rounds
      rcases hsend : mid.send (.cooperative retries) answer with ⟨error | sent, last⟩
      · obtain ⟨departure, hm, hf⟩ := fails_of_send hsend
        exact .ended (.error error) last state' (.unwritten (ht.departures ▸ hm) hf)
          fun more rounds _ => converse_unsent (next_took (hlook more)) hh
            (send_followedBy hsend more) rounds
      · obtain ⟨left, hleft, rfl⟩ := eq_withSent_of_send hsend
        exact (ih ((ht.sized hs).withSent left answer) ht.upcoming state').cons hh ht h hleft
          fun more => converse_answered (next_took (hlook more)) hh (send_followedBy hsend more)

end RouteCosts.Session
