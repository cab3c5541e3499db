import RouteCosts.Proofs.Session.Receiving
import RouteCosts.Proofs.Wire.RoundTrip

/-!
# Waiting again and again

A session that is asked for one message after the other gives the messages of the frames in its
stream, in order, and then an error. `Waited` says where it stands in between: what it has read are
the frames it has given messages for and the bytes that are pending. The main statement is
`waits_framing`: the frames, and the error after them, are those of the stream, however it comes.
-/

namespace RouteCosts.Session

/-- The answers to so many calls of `wait`, one after the other, and the session after them. -/
def waits : Nat → Session → List (Except SessionError Message) × Session
  | 0, session => ([], session)
  | calls + 1, session =>
    let (answer, session) := session.wait
    let (answers, session) := waits calls session
    (answer :: answers, session)

theorem waits_succ (calls : Nat) (session : Session) :
    waits (calls + 1) session =
      ((waits calls session).1 ++ [(waits calls session).2.wait.1],
        (waits calls session).2.wait.2) := by
  induction calls generalizing session with
  | zero => rfl
  | succ calls ih =>
    rw [waits]
    dsimp only
    rw [ih, waits]
    rfl

/-- **After some calls** that gave the messages of some frames: what was read are these frames and
the pending bytes, which are less than a whole buffer; and if they hold a whole frame already, the
next call reads nothing. -/
structure Waited (session after : Session) (frames : List Frame) : Prop where
  reads : ∃ taken, session.line.arrivals = taken ++ after.line.arrivals ∧
    taken.flatMap Arrival.bytes = frames.flatMap Frame.bytes ++ after.pending
  pending_lt : after.pending.length < Kind.maxLength
  idle : ∀ frame : Frame, frame.bytes <+: after.pending →
    after.wait.2.line = after.line ∧ after.wait.2.stats.bytesReceived = after.stats.bytesReceived

/-- A wait for which a frame is pending reads nothing. -/
theorem wait_of_pending {session : Session} (hs : session.Plain) {frame : Frame}
    (h : frame.bytes <+: session.pending) :
    session.wait.2.line = session.line ∧
      session.wait.2.stats.bytesReceived = session.stats.bytesReceived := by
  obtain ⟨more, hm⟩ := h
  have hup : session.upcoming =
      frame.bytes ++ (more ++ session.line.arrivals.flatMap Arrival.bytes) := by
    rw [upcoming, ← hm, List.append_assoc]
  obtain ⟨after, ha, ht, hidle⟩ := wait_frame hs hup
  have hline := hidle ⟨more, hm⟩
  have hcount := ht.bytesReceived
  rw [hline] at hcount
  rw [ha]
  exact ⟨hline, Nat.add_right_cancel hcount⟩

/-- **The calls for which there are frames**, by induction on the calls. -/
theorem waits_frames {session : Session} (hs : session.Plain) {frames : List Frame}
    {rest : List UInt8} (h : session.upcoming = frames.flatMap Frame.bytes ++ rest) {calls : Nat}
    (hc : calls ≤ frames.length) :
    (waits calls session).1 = (frames.take calls).map (fun frame => .ok frame.message) ∧
      (waits calls session).2.Plain ∧ Reads session (waits calls session).2 ∧
      (waits calls session).2.upcoming = (frames.drop calls).flatMap Frame.bytes ++ rest := by
  induction calls with
  | zero => exact ⟨rfl, hs, reads_idle session _ _, h⟩
  | succ calls ih =>
    obtain ⟨hanswers, hplain, hreads, hup⟩ := ih (by omega)
    rw [List.drop_eq_getElem_cons (by omega), List.flatMap_cons, List.append_assoc] at hup
    obtain ⟨after, ha, ht, -⟩ := wait_frame hplain hup
    rw [waits_succ, ha, hanswers]
    refine ⟨?_, ht.plain hplain, hreads.trans ht.toReads, ht.upcoming⟩
    rw [List.take_succ_eq_append_getElem (by omega), List.map_append]
    rfl

theorem plain_new {reads : List (List UInt8)} (hne : ∀ read ∈ reads, read ≠ [])
    (departures : List Departure) (patience : Option Nat) :
    (new (.new Kind.maxLength (reads.map .data) departures) patience).Plain where
  chunk := fun _ ha => isChunk_of_mem_new hne ha
  pending_lt := show 0 < Kind.maxLength by decide

theorem upcoming_new (reads : List (List UInt8)) (departures : List Departure)
    (patience : Option Nat) :
    (new (.new Kind.maxLength (reads.map .data) departures) patience).upcoming = reads.flatten :=
  bytes_new reads departures

/-- **Waiting gives the frames of the stream.** Whatever the bytes, they have a cut into frames and
a rest, and in whatever non-empty reads they come, the calls of `wait` give the messages of the
frames in order, with `Waited` after each of them. The first call that finds no frame fails: as the
header of the rest is refused, if it has a bad one, and as a closed connection otherwise. -/
theorem waits_framing (bytes : List UInt8) :
    ∃ framing : Framing bytes, ∀ (reads : List (List UInt8)) (departures : List Departure)
      (patience : Option Nat), reads.flatten = bytes → (∀ read ∈ reads, read ≠ []) →
      let session := new (.new Kind.maxLength (reads.map .data) departures) patience
      (∀ calls ≤ framing.frames.length,
        (waits calls session).1 =
            (framing.frames.take calls).map (fun frame => .ok frame.message) ∧
          Waited session (waits calls session).2 (framing.frames.take calls)) ∧
      (waits (framing.frames.length + 1) session).1 =
        framing.frames.map (fun frame => .ok frame.message) ++
          [.error (.ofFault framing.fault)] := by
  obtain ⟨framing⟩ := Framing.exists_framing bytes
  refine ⟨framing, fun reads departures patience hb hne => ?_⟩
  intro session
  have hs : session.Plain := plain_new hne departures patience
  have hup := (upcoming_new reads departures patience).trans (hb.trans framing.join)
  refine ⟨fun calls hc => ?_, ?_⟩
  · obtain ⟨hanswers, hplain, hreads, hafter⟩ := waits_frames hs hup hc
    refine ⟨hanswers, ?_, hplain.pending_lt, fun frame hf => wait_of_pending hplain hf⟩
    obtain ⟨taken, ht⟩ := hreads.arrivals
    refine ⟨taken, ht.symm, ?_⟩
    -- all bytes, once as read and unread, once as frames and what is upcoming after them
    have hall : session.line.arrivals.flatMap Arrival.bytes =
        (framing.frames.take calls).flatMap Frame.bytes ++ (waits calls session).2.upcoming := by
      rw [hafter, ← List.append_assoc, ← List.flatMap_append, List.take_append_drop]
      exact hup
    rw [← ht, List.flatMap_append, upcoming, ← List.append_assoc] at hall
    exact List.append_cancel_right hall
  · obtain ⟨hanswers, hplain, -, hafter⟩ := waits_frames hs hup (Nat.le_refl _)
    rw [List.drop_length, List.flatMap_nil, List.nil_append] at hafter
    have hl : Leftover (waits framing.frames.length session).2.upcoming framing.fault :=
      hafter ▸ framing.leftover
    obtain ⟨after, ha, -⟩ := wait_leftover hplain hl
    rw [waits_succ, ha, hanswers, List.take_length]

/-- Two messages in two reads that part within the second one, and a byte too many. -/
theorem waits_two_messages :
    let first := Message.stamped 4 (.routeResponse 12)
    let second := Message.stamped 5 .statusResponse
    let reads := [first.encode ++ second.encode.take 3, second.encode.drop 3 ++ [1]]
    let session := new (.new Kind.maxLength (reads.map .data) []) none
    (waits 3 session).1 = [.ok first, .ok second, .error .closed] := by
  intro first second reads session
  obtain ⟨framing, hwaits⟩ := waits_framing reads.flatten
  let cut : Framing reads.flatten :=
    ⟨[.ofBody 4 (.routeResponse 12), .ofBody 5 .statusResponse], [1], none, by decide,
      .unfinished (Or.inl (by decide))⟩
  obtain rfl : framing = cut := Subsingleton.elim _ _
  obtain ⟨-, hlast⟩ := hwaits reads [] none rfl (by decide)
  refine hlast.trans ?_
  show [Except.ok (Frame.ofBody _ _).message, Except.ok (Frame.ofBody _ _).message] ++ _ = _
  rw [Frame.message_ofBody, Frame.message_ofBody]
  rfl

end RouteCosts.Session
