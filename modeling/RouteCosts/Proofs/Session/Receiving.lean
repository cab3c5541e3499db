import RouteCosts.Proofs.Wire.Feeding
import RouteCosts.Session.Conversation

/-!
# Receiving from a stream of bytes

On a line that brings nothing but bytes, what a session will receive depends on its `upcoming`
bytes alone, those pending and those still to come, and not on the reads that bring them. If they
begin with a frame, the message of the frame is received and the bytes after it are upcoming next
(`wait_frame`); if they do not, waiting fails, and `Leftover` says how (`wait_leftover`).

The loop is followed with the framer `holding` some unfinished bytes (`waitFrom_frame`,
`waitFrom_leftover`). The cooperative loop makes the same reads as the blocking one and differs
only where the stream ends before the first byte of a message (`receive_eq`).
-/

namespace RouteCosts

/-! ### Reads that bring bytes -/

/-- A read that brings bytes, as many as the buffer of a session has room for at most. -/
def Arrival.IsChunk : Arrival → Prop
  | data bytes => bytes ≠ [] ∧ bytes.length ≤ Kind.maxLength
  | _ => False

theorem Arrival.IsChunk.exists_cons {arrival : Arrival} (h : arrival.IsChunk) :
    ∃ byte bytes, arrival = data (byte :: bytes) ∧ (byte :: bytes).length ≤ Kind.maxLength := by
  cases arrival with
  | data bytes =>
    obtain ⟨byte, rest, rfl⟩ := List.exists_cons_of_ne_nil h.1
    exact ⟨byte, rest, rfl, h.2⟩
  | failure fault => exact h.elim
  | stall delay => exact h.elim

theorem mem_pieces {limit fuel : Nat} {bytes piece : List UInt8} (hlimit : 0 < limit)
    (hfuel : bytes.length ≤ fuel) (hne : bytes ≠ []) (h : piece ∈ pieces limit fuel bytes) :
    piece ≠ [] ∧ piece.length ≤ limit := by
  induction fuel generalizing bytes with
  | zero => exact absurd (List.length_eq_zero_iff.1 (Nat.le_zero.1 hfuel)) hne
  | succ fuel ih =>
    rw [pieces] at h
    split at h
    · next hl =>
      obtain rfl := List.mem_singleton.1 h
      exact ⟨hne, hl⟩
    · next hl =>
      rcases List.mem_cons.1 h with rfl | h
      · refine ⟨fun he => ?_, List.length_take_le _ _⟩
        have := congrArg List.length he
        rw [List.length_take, List.length_nil] at this
        omega
      · have hd : (bytes.drop limit).length = bytes.length - limit := List.length_drop
        exact ih (by omega) (fun he => by rw [he, List.length_nil] at hd; omega) h

theorem isChunk_of_mem_new {reads : List (List UInt8)} (hne : ∀ read ∈ reads, read ≠ [])
    {departures : List Departure} {arrival : Arrival}
    (h : arrival ∈ (Line.new Kind.maxLength (reads.map .data) departures).arrivals) :
    arrival.IsChunk := by
  obtain ⟨whole, hw, h⟩ := List.mem_flatMap.1 h
  obtain ⟨read, hr, rfl⟩ := List.mem_map.1 hw
  obtain ⟨piece, hp, rfl⟩ := List.mem_map.1 h
  exact mem_pieces (by decide) (Nat.le_refl _) (hne read hr) hp

/-- A script that is cut to size brings the same bytes. -/
theorem flatMap_bytes_within (limit : Nat) (script : List Arrival) :
    (script.flatMap (Arrival.within limit)).flatMap Arrival.bytes =
      script.flatMap Arrival.bytes := by
  rw [List.flatMap_assoc]
  exact congrArg (script.flatMap ·) (funext (bytes_within limit))

theorem bytes_new (reads : List (List UInt8)) (departures : List Departure) :
    (Line.new Kind.maxLength (reads.map .data) departures).arrivals.flatMap Arrival.bytes =
      reads.flatten := by
  rw [Line.new, flatMap_bytes_within, List.flatMap_map]
  exact List.flatMap_id

/-! ### Unfinished bytes -/

theorem Unfinished.length_lt {held chunk rest : List UInt8} {frame : Frame} (hu : Unfinished held)
    (h : held ++ chunk = frame.bytes ++ rest) : held.length < frame.bytes.length := by
  rcases List.append_eq_append_iff.1 h with ⟨more, hm, -⟩ | ⟨more, rfl, -⟩
  · rw [hm, List.length_append]
    refine Nat.lt_add_of_pos_right (List.length_pos_iff.2 ?_)
    rintro rfl
    rw [List.append_nil] at hm
    refine Unfinished.not_frame_append (?_ : Unfinished (frame.bytes ++ []))
    rw [List.append_nil, hm]
    exact hu
  · exact absurd hu Unfinished.not_frame_append

/-- The error of a session that finds no frame. -/
def SessionError.ofFault : Option FrameError → SessionError
  | none => closed
  | some error => protocol error

namespace Session

/-- Count a message that was received. -/
def countReceived (session : Session) : Session :=
  { session with
    stats := { session.stats with messagesReceived := session.stats.messagesReceived + 1 } }

section Accept
variable (session : Session) {held chunk : List UInt8} (hu : Unfinished held)
include hu

/-- A chunk that brings a frame to its end: the message is there, and what follows is kept. -/
theorem accept_frame {frame : Frame} {rest : List UInt8}
    (h : held ++ chunk = frame.bytes ++ rest) :
    session.accept (.holding held) chunk =
      (.message frame.message,
        { session with pending := session.pending ++ rest }.countReceived) := by
  have hl := hu.length_lt h
  have hk : frame.message.body.kind.length = frame.bytes.length := by
    rw [Frame.message, Message.ofBytes, Message.kind_absorb]
    exact (congrArg Kind.length (Body.kind_blank _)).trans frame.length_bytes.symm
  have hdrop : chunk.drop (frame.bytes.length - held.length) = rest := by
    have hd := congrArg (List.drop frame.bytes.length) h
    rw [List.drop_left, List.drop_append, List.drop_of_length_le (by omega), List.nil_append] at hd
    exact hd
  have hs := FrameStage.ofBytes_append_frame frame rest
  unfold accept
  rw [Framer.feed_holding hu, h, hs]
  simp only [FrameStage.status, Framer.take?, Framer.holding, hs, hk, hdrop]
  rfl

theorem accept_unfinished (h : Unfinished (held ++ chunk)) :
    session.accept (.holding held) chunk = (.more (.holding (held ++ chunk)), session) := by
  have ho := FrameStage.isOpen_ofBytes h
  unfold accept
  rw [Framer.feed_holding hu]
  cases hs : FrameStage.ofBytes (held ++ chunk) with
  | awaitingHeader => rfl
  | awaitingBody kind => rfl
  | complete message => rw [hs] at ho; exact ho.elim
  | rejected error => rw [hs] at ho; exact ho.elim

theorem accept_badHeader {error : FrameError} (h : BadHeader (held ++ chunk) error) :
    session.accept (.holding held) chunk = (.refused error, session) := by
  unfold accept
  rw [Framer.feed_holding hu, FrameStage.ofBytes_of_badHeader h]
  rfl

end Accept

/-! ### What receiving leaves alone -/

/-- The bytes that a session has not taken a message from yet: those pending and those to come. -/
def upcoming (session : Session) : List UInt8 :=
  session.pending ++ session.line.arrivals.flatMap Arrival.bytes

theorem length_upcoming (session : Session) : session.upcoming.length = session.backlog :=
  List.length_append

/-- Nothing but bytes comes on the line, and less than a whole buffer is pending. -/
structure Plain (session : Session) : Prop where
  chunk : ∀ arrival ∈ session.line.arrivals, arrival.IsChunk
  pending_lt : session.pending.length < Kind.maxLength

/-- **What receiving leaves alone.** Some reads are made, and the bytes they bring are counted;
nothing is written, and nothing else of the session changes but what is pending and the count of
messages received. -/
structure Reads (before after : Session) : Prop where
  arrivals : after.line.arrivals <:+ before.line.arrivals
  departures : after.line.departures = before.line.departures
  written : after.line.written = before.line.written
  patience : after.patience = before.patience
  messagesSent : after.stats.messagesSent = before.stats.messagesSent
  bytesSent : after.stats.bytesSent = before.stats.bytesSent
  /-- Every byte that came is counted. -/
  bytesReceived : after.stats.bytesReceived + (after.line.arrivals.flatMap Arrival.bytes).length =
    before.stats.bytesReceived + (before.line.arrivals.flatMap Arrival.bytes).length

theorem Reads.trans {a b c : Session} (h : Reads a b) (h' : Reads b c) : Reads a c where
  arrivals := h'.arrivals.trans h.arrivals
  departures := h'.departures.trans h.departures
  written := h'.written.trans h.written
  patience := h'.patience.trans h.patience
  messagesSent := h'.messagesSent.trans h.messagesSent
  bytesSent := h'.bytesSent.trans h.bytesSent
  bytesReceived := h'.bytesReceived.trans h.bytesReceived

/-- Nothing is read if only what is pending and the count of messages received change. -/
theorem reads_idle (session : Session) (pending : List UInt8) (messagesReceived : Nat) :
    Reads session { session with
      pending := pending
      stats := { session.stats with messagesReceived := messagesReceived } } where
  arrivals := List.suffix_rfl
  departures := rfl
  written := rfl
  patience := rfl
  messagesSent := rfl
  bytesSent := rfl
  bytesReceived := rfl

theorem reads_countRead (session : Session) (chunk : List UInt8) (reads : List Arrival) :
    Reads (session.withArrivals (.data chunk :: reads))
      ((session.countRead chunk).withArrivals reads) where
  arrivals := List.suffix_cons _ _
  departures := rfl
  written := rfl
  patience := rfl
  messagesSent := rfl
  bytesSent := rfl
  bytesReceived := by
    simp only [withArrivals, countRead, List.flatMap_cons, Arrival.bytes, List.length_append]
    omega

/-- **A message was received**: besides what `Reads` says, the bytes after its frame are upcoming,
less than a whole buffer of them is pending, and the message is counted. -/
structure Took (before after : Session) (rest : List UInt8) : Prop extends Reads before after where
  upcoming : after.upcoming = rest
  pending_lt : after.pending.length < Kind.maxLength
  messagesReceived : after.stats.messagesReceived = before.stats.messagesReceived + 1

/-- **No message was received**, for want of a frame: besides what `Reads` says, no message is
counted, and unless a header was refused all reads were made. -/
structure Missed (before after : Session) (fault : Option FrameError) : Prop
    extends Reads before after where
  messagesReceived : after.stats.messagesReceived = before.stats.messagesReceived
  exhausted : fault = none → after.line.arrivals = []

theorem Took.plain {before after : Session} {rest : List UInt8} (h : Took before after rest)
    (hp : before.Plain) : after.Plain where
  chunk := fun arrival ha => hp.chunk arrival (h.arrivals.subset ha)
  pending_lt := h.pending_lt

/-- **A chunk brings a frame to its end**: the message is counted, and what follows is pending. -/
theorem took_frame {before session : Session} (hp : session.pending = [])
    {held chunk rest : List UInt8} (hu : Unfinished held) {frame : Frame}
    (h : held ++ chunk = frame.bytes ++ rest) (hlen : chunk.length ≤ Kind.maxLength)
    {reads : List Arrival} (hr : Reads before (session.withArrivals reads))
    (hc : session.stats.messagesReceived = before.stats.messagesReceived) :
    Took before
      ({ session with pending := session.pending ++ rest }.countReceived.withArrivals reads)
      (rest ++ reads.flatMap Arrival.bytes) where
  toReads := hr.trans (reads_idle _ _ _)
  upcoming := by
    show (session.pending ++ rest) ++ reads.flatMap Arrival.bytes = _
    rw [hp, List.nil_append]
  pending_lt := by
    have hlt := hu.length_lt h
    have hsize := congrArg List.length h
    rw [List.length_append, List.length_append] at hsize
    show (session.pending ++ rest).length < _
    rw [hp, List.nil_append]
    omega
  messagesReceived := congrArg (· + 1) hc

/-- **A frame is pending**: its message is counted, and nothing is read. -/
theorem took_pending {session : Session} {frame : Frame} {rest : List UInt8}
    (h : session.pending = frame.bytes ++ rest) (hlt : session.pending.length < Kind.maxLength) :
    Took session { session with pending := rest }.countReceived
      (rest ++ session.line.arrivals.flatMap Arrival.bytes) where
  toReads := reads_idle session rest _
  upcoming := rfl
  pending_lt := by
    rw [h, List.length_append] at hlt
    exact Nat.lt_of_le_of_lt (Nat.le_add_left _ _) hlt
  messagesReceived := rfl

/-! ### The two loops -/

/-- What the cooperative loop answers where the blocking one gives an answer. `idle` says that no
byte of a message is there or to come. -/
def cooperative (idle : Bool) : Except SessionError Message → Except SessionError (Option Message)
  | .ok message => .ok (some message)
  | .error .closed => if idle then .ok none else .error .closed
  | .error error => .error error

section WaitFrom
variable {reads : List Arrival} (hr : ∀ arrival ∈ reads, arrival.IsChunk) {held : List UInt8}
  (hu : Unfinished held)
include hr hu

/-- **Waiting on a frame.** By induction on the reads: each of them either brings the frame to its
end or leaves the framer with a longer part of it. -/
theorem waitFrom_frame {session : Session} (hp : session.pending = []) {frame : Frame}
    {rest : List UInt8} (h : held ++ reads.flatMap Arrival.bytes = frame.bytes ++ rest) :
    ∃ after, session.waitFrom (.holding held) reads = (.ok frame.message, after) ∧
      Took (session.withArrivals reads) after rest := by
  induction reads generalizing session held with
  | nil =>
    rw [List.flatMap_nil, List.append_nil] at h
    exact absurd (h ▸ hu) Unfinished.not_frame_append
  | cons arrival reads ih =>
    obtain ⟨byte, bytes, rfl, hlen⟩ := (hr arrival List.mem_cons_self).exists_cons
    have hr' := fun a ha => hr a (List.mem_cons_of_mem _ ha)
    have hread := reads_countRead session (byte :: bytes) reads
    rw [List.flatMap_cons, Arrival.bytes, ← List.append_assoc] at h
    rw [waitFrom]
    by_cases hl : frame.bytes.length ≤ (held ++ byte :: bytes).length
    · obtain ⟨more, hm⟩ : frame.bytes <+: held ++ byte :: bytes :=
        List.prefix_of_prefix_length_le ⟨rest, h.symm⟩ (List.prefix_append _ _) hl
      have hp' : (session.countRead (byte :: bytes)).pending = [] := hp
      rw [← hm, List.append_assoc] at h
      rw [accept_frame _ hu hm.symm, ← List.append_cancel_left h]
      exact ⟨_, rfl, took_frame hp' hu hm.symm hlen hread rfl⟩
    · have hpre : held ++ byte :: bytes <+: frame.bytes :=
        List.prefix_of_prefix_length_le (List.prefix_append _ _) ⟨rest, h.symm⟩ (by omega)
      have hu' : Unfinished (held ++ byte :: bytes) := Or.inr ⟨frame, hpre, by omega⟩
      rw [accept_unfinished _ hu hu']
      have hp' : (session.countRead (byte :: bytes)).pending = [] := hp
      obtain ⟨after, ha, ht⟩ := ih hr' hu' hp' h
      exact ⟨after, ha, { ht with toReads := hread.trans ht.toReads }⟩

/-- **Waiting in vain.** All is read if the bytes stay unfinished; a bad header ends it sooner. -/
theorem waitFrom_leftover (session : Session) {fault : Option FrameError}
    (h : Leftover (held ++ reads.flatMap Arrival.bytes) fault) :
    ∃ after, session.waitFrom (.holding held) reads = (.error (.ofFault fault), after) ∧
      Missed (session.withArrivals reads) after fault := by
  induction reads generalizing session held with
  | nil =>
    rw [List.flatMap_nil, List.append_nil] at h
    obtain rfl := (Leftover.unfinished hu).unique h
    exact ⟨_, rfl, ⟨reads_idle _ _ _, rfl, fun _ => rfl⟩⟩
  | cons arrival reads ih =>
    obtain ⟨byte, bytes, rfl, -⟩ := (hr arrival List.mem_cons_self).exists_cons
    have hr' := fun a ha => hr a (List.mem_cons_of_mem _ ha)
    have hread := reads_countRead session (byte :: bytes) reads
    rw [List.flatMap_cons, Arrival.bytes, ← List.append_assoc] at h
    rw [waitFrom]
    rcases trichotomy (held ++ byte :: bytes) with ⟨frame, rest, hf⟩ | hu' | ⟨error, he⟩
    · rw [hf, List.append_assoc] at h
      exact absurd h Leftover.not_frame_append
    · rw [accept_unfinished _ hu hu']
      obtain ⟨after, ha, hm⟩ := ih hr' hu' (session.countRead (byte :: bytes)) h
      exact ⟨after, ha, { hm with toReads := hread.trans hm.toReads }⟩
    · obtain rfl := (Leftover.refused (he.append _)).unique h
      rw [accept_badHeader _ hu he]
      exact ⟨_, rfl, ⟨hread, rfl, fun hn => absurd hn (Option.some_ne_none error)⟩⟩

/-- The cooperative loop makes the same reads. It differs only where the stream ends: with no byte
of the message there, that is no error. -/
theorem receiveFrom_eq (session : Session) (left : Option Nat) :
    session.receiveFrom (.holding held) left reads =
      (cooperative (held ++ reads.flatMap Arrival.bytes).isEmpty
        (session.waitFrom (.holding held) reads).1,
        (session.waitFrom (.holding held) reads).2) := by
  induction reads generalizing session held left with
  | nil =>
    rw [receiveFrom, waitFrom, List.flatMap_nil, List.append_nil]
    cases held <;> rfl
  | cons arrival reads ih =>
    obtain ⟨byte, bytes, rfl, -⟩ := (hr arrival List.mem_cons_self).exists_cons
    have hr' := fun a ha => hr a (List.mem_cons_of_mem _ ha)
    rw [receiveFrom, waitFrom, List.flatMap_cons, Arrival.bytes, ← List.append_assoc]
    rcases trichotomy (held ++ byte :: bytes) with ⟨frame, rest, hf⟩ | hu' | ⟨error, he⟩
    · rw [accept_frame _ hu hf]
      rfl
    · rw [accept_unfinished _ hu hu']
      exact ih hr' hu' _ _
    · rw [accept_badHeader _ hu he]
      rfl

end WaitFrom

/-! ### One message -/

/-- What is pending is fed to a new framer as a chunk of its own. -/
theorem replay_eq (session : Session) :
    session.replay = { session with pending := [] }.accept (.holding []) session.pending := by
  unfold replay
  split
  · next h =>
    obtain ⟨line, pending, patience, stats⟩ := session
    obtain rfl : pending = [] := List.isEmpty_iff.1 h
    rw [accept_unfinished _ unfinished_nil unfinished_nil]
    rfl
  · rfl

/-- **Waiting for a message that is upcoming.** If all of its frame is pending already, nothing is
read. -/
theorem wait_frame {session : Session} (hs : session.Plain) {frame : Frame} {rest : List UInt8}
    (h : session.upcoming = frame.bytes ++ rest) :
    ∃ after, session.wait = (.ok frame.message, after) ∧ Took session after rest ∧
      (frame.bytes <+: session.pending → after.line = session.line) := by
  have hlt := hs.pending_lt
  by_cases hl : frame.bytes.length ≤ session.pending.length
  · obtain ⟨more, hm⟩ : frame.bytes <+: session.pending :=
      List.prefix_of_prefix_length_le ⟨rest, h.symm⟩ (List.prefix_append _ _) hl
    have hreplay := accept_frame { session with pending := [] } unfinished_nil
      (show [] ++ session.pending = frame.bytes ++ more from hm.symm)
    unfold wait
    rw [upcoming, ← hm, List.append_assoc] at h
    rw [replay_eq, hreplay, ← List.append_cancel_left h]
    exact ⟨_, rfl, took_pending hm.symm hlt, fun _ => rfl⟩
  · have hpre : session.pending <+: frame.bytes :=
      List.prefix_of_prefix_length_le (List.prefix_append _ _) ⟨rest, h.symm⟩ (by omega)
    have hu : Unfinished session.pending := Or.inr ⟨frame, hpre, by omega⟩
    have hreplay := accept_unfinished { session with pending := [] } unfinished_nil
      (show Unfinished ([] ++ session.pending) from hu)
    unfold wait
    rw [replay_eq, hreplay]
    obtain ⟨after, ha, ht⟩ := waitFrom_frame hs.chunk hu
      (show { session with pending := [] }.pending = [] from rfl) h
    exact ⟨after, ha, { ht with toReads := (reads_idle session [] _).trans ht.toReads },
      fun hf => absurd hf.length_le hl⟩

/-- **Waiting for a message that will not come.** -/
theorem wait_leftover {session : Session} (hs : session.Plain) {fault : Option FrameError}
    (h : Leftover session.upcoming fault) :
    ∃ after, session.wait = (.error (.ofFault fault), after) ∧ Missed session after fault := by
  rcases trichotomy session.pending with ⟨frame, rest, hf⟩ | hu | ⟨error, he⟩
  · rw [upcoming, hf, List.append_assoc] at h
    exact absurd h Leftover.not_frame_append
  · have hreplay := accept_unfinished { session with pending := [] } unfinished_nil
      (show Unfinished ([] ++ session.pending) from hu)
    unfold wait
    rw [replay_eq, hreplay]
    obtain ⟨after, ha, hm⟩ := waitFrom_leftover hs.chunk hu { session with pending := [] } h
    exact ⟨after, ha, { hm with toReads := (reads_idle session [] _).trans hm.toReads }⟩
  · obtain rfl := (Leftover.refused (he.append _)).unique h
    have hreplay := accept_badHeader { session with pending := [] } unfinished_nil
      (show BadHeader ([] ++ session.pending) error from he)
    unfold wait
    rw [replay_eq, hreplay]
    exact ⟨_, rfl, ⟨reads_idle session [] _, rfl,
      fun hn => absurd hn (Option.some_ne_none error)⟩⟩

/-- **Receiving is waiting**, but for the end of the stream between two messages. -/
theorem receive_eq {session : Session} (hs : session.Plain) :
    session.receive = (cooperative session.upcoming.isEmpty session.wait.1, session.wait.2) := by
  unfold receive wait
  rw [replay_eq]
  rcases trichotomy session.pending with ⟨frame, rest, hf⟩ | hu | ⟨error, he⟩
  · rw [accept_frame _ unfinished_nil (show [] ++ session.pending = frame.bytes ++ rest from hf)]
    rfl
  · rw [accept_unfinished _ unfinished_nil (show Unfinished ([] ++ session.pending) from hu)]
    exact receiveFrom_eq hs.chunk hu _ _
  · rw [accept_badHeader _ unfinished_nil (show BadHeader ([] ++ session.pending) error from he)]
    rfl

end Session

end RouteCosts
