import RouteCosts.Proofs.Session.Conversing

/-!
# Sending with faults

Whatever answers there are to writes, a message is sent whole and counted, or its beginning is
written and nothing is counted (`send_sends`). Nothing else of the session changes, and an answer
that was used up does not come back.
-/

namespace RouteCosts

theorem Writer.left_writeAll (writer : Writer) (bytes : List UInt8) (departures : List Departure) :
    (writer.writeAll bytes departures).2.2 <:+ departures := by
  induction departures generalizing bytes with
  | nil => exact List.suffix_rfl
  | cons departure rest ih =>
    rw [writeAll.eq_def]
    dsimp only
    split
    · exact List.suffix_rfl
    · rcases departure with (_ | limit) | fault | result
      · exact List.suffix_cons _ _
      · exact (ih (bytes.drop (limit + 1))).trans (List.suffix_cons _ _)
      · dsimp only
        split
        · exact (ih bytes).trans (List.suffix_cons _ _)
        · exact List.suffix_cons _ _
      · exact List.suffix_rfl

theorem Writer.left_flush (departures : List Departure) : (flush departures).2 <:+ departures := by
  rcases departures with _ | ⟨limit | fault | result, rest⟩
  · exact List.suffix_rfl
  · exact List.suffix_rfl
  · exact List.suffix_rfl
  · exact List.suffix_cons _ _

theorem Writer.send_cases (writer : Writer) (line : Line) (bytes : List UInt8) :
    ∃ fault part left, left <:+ line.departures ∧ part <+: bytes ∧ (fault = none → part = bytes) ∧
      writer.send line bytes = (fault, ⟨line.arrivals, left, line.written ++ part⟩) := by
  have hleft := writer.left_writeAll bytes line.departures
  have htaken := writer.writeAll_taken bytes line.departures
  unfold send
  generalize writer.writeAll bytes line.departures = run at hleft htaken ⊢
  rcases run with ⟨_ | fault, taken, left⟩
  · exact ⟨(flush left).1, taken, (flush left).2, (left_flush left).trans hleft, htaken.1,
      fun _ => htaken.2 rfl, rfl⟩
  · exact ⟨some fault, taken, left, hleft, htaken.1, nofun, rfl⟩

namespace Session

/-- The session when a part of a message was written, and these answers to writes are left. -/
def withPart (session : Session) (left : List Departure) (part : List UInt8) : Session :=
  { session with line := ⟨session.line.arrivals, left, session.line.written ++ part⟩ }

/-- **What a send does**: all of the message is written, and the message and its bytes are counted;
or the beginning of it is written, and nothing is counted. -/
inductive Sends (session : Session) (message : Message) : Except SessionError Nat × Session → Prop
  | whole {left : List Departure} (h : left <:+ session.line.departures) :
    Sends session message (.ok message.length, session.withSent left message)
  | part {fault : Fault} {part : List UInt8} {left : List Departure}
    (hp : part <+: message.encode) (h : left <:+ session.line.departures) :
    Sends session message (.error (.transport fault), session.withPart left part)

theorem send_sends (writer : Writer) (session : Session) (message : Message) :
    Sends session message (session.send writer message) := by
  obtain ⟨fault, part, left, hl, hp, hn, hw⟩ := writer.send_cases session.line message.encode
  unfold send
  dsimp only
  rw [hw]
  rcases fault with _ | fault
  · obtain rfl := hn rfl
    have hsent : Sends session message (.ok message.length, session.withSent left message) :=
      .whole hl
    rw [← message.length_encode] at hsent
    exact hsent
  · exact .part hp hl

/-- A send leaves the rest of the session alone. -/
theorem Sends.keeps {session : Session} {message : Message}
    {run : Except SessionError Nat × Session} (h : Sends session message run) :
    run.2.pending = session.pending ∧ run.2.line.arrivals = session.line.arrivals ∧
      run.2.patience = session.patience := by
  cases h with
  | whole h => exact ⟨rfl, rfl, rfl⟩
  | part hp h => exact ⟨rfl, rfl, rfl⟩

section Result
variable {writer : Writer} {session last : Session} {message : Message}

/-- A message that was sent is written and counted. -/
theorem eq_withSent_of_send {sent : Nat} (h : session.send writer message = (.ok sent, last)) :
    ∃ left, left <:+ session.line.departures ∧ last = session.withSent left message := by
  have hsends := send_sends writer session message
  rw [h] at hsends
  cases hsends with
  | whole hl => exact ⟨_, hl, rfl⟩

/-- Not every write and flush succeeds if a message could not be sent. -/
theorem fails_of_send {error : SessionError}
    (h : session.send writer message = (.error error, last)) :
    ∃ departure ∈ session.line.departures, ¬ departure.Succeeds writer := by
  refine Classical.byContradiction fun hn => ?_
  have hall : ∀ departure ∈ session.line.departures, departure.Succeeds writer :=
    fun departure hd => Classical.byContradiction fun hf => hn ⟨departure, hd, hf⟩
  obtain ⟨left, -, hsent⟩ := send_succeeds hall message
  cases h.symm.trans hsent

end Result

theorem send_withArrivals {writer : Writer} {session last : Session} {message : Message}
    {sent : Except SessionError Nat} (h : session.send writer message = (sent, last))
    (arrivals : List Arrival) :
    (session.withArrivals arrivals).send writer message = (sent, last.withArrivals arrivals) := by
  obtain ⟨rfl, rfl⟩ := Prod.ext_iff.1 h
  unfold send Writer.send withArrivals
  dsimp only
  rcases writer.writeAll message.encode session.line.departures with ⟨_ | fault, taken, left⟩
  · dsimp only
    rcases Writer.flush left with ⟨_ | fault, left⟩ <;> rfl
  · rfl

end Session

end RouteCosts
