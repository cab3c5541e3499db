import RouteCosts.Proofs.Session.Receiving

/-!
# Sessions on another script

What a framer makes of a chunk does not depend on the session (`exists_accept`), and what a session
makes of the reads it is given does not depend on the reads of its own line. So two sessions that
differ in their reads only (`withArrivals`) do the same until they have made different ones.
-/

namespace RouteCosts

/-- How many messages came of a chunk. -/
def Accepted.messages : Accepted → Nat
  | message _ => 1
  | _ => 0

namespace Session

/-- Two sessions that differ in the reads to come only. -/
def Alike (session other : Session) : Prop := ∃ arrivals, other = session.withArrivals arrivals

/-- The session when bytes more are pending, and so many messages more are counted. -/
def keeping (session : Session) (more : List UInt8) (messages : Nat) : Session :=
  { session with
    pending := session.pending ++ more
    stats := { session.stats with
      messagesReceived := session.stats.messagesReceived + messages } }

/-- **What a chunk does to a session**: some bytes more are pending, and a message is counted if it
brought one. Which bytes, and what the answer is, depends on the framer and the chunk only. -/
theorem exists_accept (framer : Framer) (chunk : List UInt8) :
    ∃ (answer : Accepted) (more : List UInt8), ∀ session : Session,
      session.accept framer chunk = (answer, session.keeping more answer.messages) := by
  rcases h : framer.feed chunk with ⟨_ | consumed | error, next⟩
  · refine ⟨.more next, [], fun session => ?_⟩
    rw [accept, h, keeping, List.append_nil]
    rfl
  · rcases ht : next.take? with _ | ⟨message, last⟩
    · refine ⟨.more next, chunk.drop consumed, fun session => ?_⟩
      rw [accept, h]
      dsimp only
      rw [ht]
      rfl
    · refine ⟨.message message, chunk.drop consumed, fun session => ?_⟩
      rw [accept, h]
      dsimp only
      rw [ht]
      rfl
  · refine ⟨.refused error, [], fun session => ?_⟩
    rw [accept, h, keeping, List.append_nil]
    rfl

/-- A read that brings nothing is made, and nothing else. -/
theorem reads_pass (session : Session) (arrival : Arrival) (h : arrival.bytes = [])
    (reads : List Arrival) :
    Reads (session.withArrivals (arrival :: reads)) (session.withArrivals reads) where
  arrivals := List.suffix_cons _ _
  departures := rfl
  written := rfl
  patience := rfl
  messagesSent := rfl
  bytesSent := rfl
  bytesReceived := by
    show _ = _ + ((arrival :: reads).flatMap Arrival.bytes).length
    rw [List.flatMap_cons, h]
    rfl

section Scripts
variable (session : Session) (framer : Framer) (chunk : List UInt8) (arrivals : List Arrival)

theorem accept_withArrivals :
    (session.withArrivals arrivals).accept framer chunk =
      ((session.accept framer chunk).1, (session.accept framer chunk).2.withArrivals arrivals) := by
  obtain ⟨answer, more, h⟩ := exists_accept framer chunk
  rw [h, h]
  rfl

theorem line_replay : session.replay.2.line = session.line := by
  obtain ⟨answer, more, h⟩ := exists_accept (.holding []) session.pending
  rw [replay_eq, h]
  rfl

theorem replay_withArrivals :
    (session.withArrivals arrivals).replay =
      (session.replay.1, session.replay.2.withArrivals arrivals) := by
  rw [replay_eq, replay_eq]
  exact accept_withArrivals { session with pending := [] } _ _ _

theorem waitFrom_withArrivals (reads : List Arrival) :
    (session.withArrivals arrivals).waitFrom framer reads = session.waitFrom framer reads := by
  induction reads generalizing session framer with
  | nil => rfl
  | cons arrival reads ih =>
    rcases arrival with (_ | ⟨byte, bytes⟩) | fault | delay
    · rfl
    · have hread : (session.withArrivals arrivals).countRead (byte :: bytes) =
          (session.countRead (byte :: bytes)).withArrivals arrivals := rfl
      rw [waitFrom, waitFrom, hread, accept_withArrivals]
      rcases (session.countRead (byte :: bytes)).accept framer (byte :: bytes) with
        ⟨next | message | error, mid⟩
      · exact ih mid next
      · rfl
      · rfl
    · rw [waitFrom, waitFrom]
      split
      · exact ih session framer
      · rfl
    · exact ih session framer

/-- A wait on another script goes on from the same replay of what is pending. -/
theorem wait_withArrivals :
    (session.withArrivals arrivals).wait =
      match session.replay with
      | (.message message, session) => (.ok message, session.withArrivals arrivals)
      | (.refused error, session) => (.error (.protocol error), session.withArrivals arrivals)
      | (.more framer, session) => waitFrom session framer arrivals := by
  rw [wait, replay_withArrivals]
  rcases session.replay with ⟨next | message | error, mid⟩
  · exact waitFrom_withArrivals mid next arrivals arrivals
  · rfl
  · rfl

theorem receiveFrom_withArrivals (left : Option Nat) (reads : List Arrival) :
    (session.withArrivals arrivals).receiveFrom framer left reads =
      session.receiveFrom framer left reads := by
  induction reads generalizing session framer left with
  | nil => rfl
  | cons arrival reads ih =>
    rcases arrival with (_ | ⟨byte, bytes⟩) | fault | delay
    · rfl
    · have hread : (session.withArrivals arrivals).countRead (byte :: bytes) =
          (session.countRead (byte :: bytes)).withArrivals arrivals := rfl
      rw [receiveFrom, receiveFrom, hread, accept_withArrivals]
      rcases (session.countRead (byte :: bytes)).accept framer (byte :: bytes) with
        ⟨next | message | error, mid⟩
      · exact ih mid next mid.patience
      · rfl
      · rfl
    · rfl
    · cases left with
      | none => exact ih session framer none
      | some time =>
        rw [receiveFrom, receiveFrom]
        split
        · rfl
        · exact ih session framer _

/-- A look for a message on another script goes on from the same replay of what is pending. -/
theorem receive_withArrivals :
    (session.withArrivals arrivals).receive =
      match session.replay with
      | (.message message, session) => (.ok (some message), session.withArrivals arrivals)
      | (.refused error, session) => (.error (.protocol error), session.withArrivals arrivals)
      | (.more framer, session) => receiveFrom session framer session.patience arrivals := by
  rw [receive, replay_withArrivals]
  rcases session.replay with ⟨next | message | error, mid⟩
  · exact receiveFrom_withArrivals mid next arrivals mid.patience arrivals
  · rfl
  · rfl

end Scripts

end Session

end RouteCosts
