import RouteCosts.Proofs.Session.Receiving

/-! # What a framer buffers

However a framer was called, it looks as if its bytes had come at once, and it has counted every one
of them. While it waits they are less than the longest message, so nothing but its last chunk can
take it past that (`Framer.Balanced`), and no peer keeps it waiting with more
(`Framer.Balanced.length_lt_of_waiting`). A chunk that completes a message brings at least one byte
of it, and all that were missing (`Framer.feed_finished`); what a session keeps is the rest of the
chunk (`Framer.pending_accept`).

The main statement is `Framer.calls_bounded`. -/

namespace RouteCosts

theorem Unfinished.length_lt_maxLength {held : List UInt8} (hu : Unfinished held) :
    held.length < Kind.maxLength := by
  rcases hu with hs | ⟨frame, -, hl⟩
  · exact Nat.lt_trans hs (by decide)
  · have := frame.kind.length_le_maxLength
    rw [frame.length_bytes] at hl
    omega

theorem FrameStage.status_of_isOpen {stage : FrameStage} (h : stage.IsOpen) (held : Nat) :
    stage.status held = .incomplete := by
  cases stage with
  | awaitingHeader => rfl
  | awaitingBody kind => rfl
  | complete message => exact h.elim
  | rejected error => exact h.elim

namespace Framer

/-! ### Feeding a framer that waits -/

section Waiting
variable {held chunk : List UInt8} (hu : Unfinished held)
include hu

theorem length_lt_of_incomplete (h : ((holding held).feed chunk).1 = .incomplete) :
    (held ++ chunk).length < Kind.maxLength := by
  rw [feed_holding hu] at h
  exact (unfinished_of_isOpen (isOpen_of_incomplete h)).length_lt_maxLength

/-- **A chunk that completes a message** has all bytes that were missing of its frame, and at least
one of them was missing. -/
theorem feed_finished {consumed : Nat}
    (h : ((holding held).feed chunk).1 = .complete consumed) :
    1 ≤ consumed ∧ consumed ≤ chunk.length ∧
      ∃ frame : Frame, ((holding held).feed chunk).2.stage = .complete frame.message ∧
        held.length + consumed = frame.kind.length := by
  rw [feed_holding hu] at h ⊢
  rcases trichotomy (held ++ chunk) with ⟨frame, rest, hf⟩ | hu' | ⟨error, he⟩
  · have hstage : FrameStage.ofBytes (held ++ chunk) = .complete frame.message := by
      rw [hf, FrameStage.ofBytes_append_frame]
    have hkind : frame.message.body.kind = frame.kind := Message.kind_ofBytes _ _
    have hlt := hu.length_lt hf
    have hsize := congrArg List.length hf
    rw [hstage, FrameStage.status, hkind] at h
    rw [frame.length_bytes] at hlt
    rw [List.length_append, List.length_append, frame.length_bytes] at hsize
    have hconsumed := FrameStatus.complete.inj h
    exact ⟨by omega, by omega, frame, hstage, by omega⟩
  · rw [FrameStage.status_of_isOpen (FrameStage.isOpen_ofBytes hu')] at h
    cases h
  · rw [FrameStage.ofBytes_of_badHeader he] at h
    cases h

end Waiting

/-! ### Feeding a framer that is complete or has refused -/

section Closed
variable {framer : Framer} (h : ¬ framer.stage.IsOpen)
include h

/-- It takes nothing in. -/
theorem feed_of_not_isOpen (chunk : List UInt8) :
    (framer.feed chunk).2 = framer ∧ (framer.feed chunk).1 ≠ .incomplete ∧
      ∀ consumed, (framer.feed chunk).1 = .complete consumed → consumed = 0 := by
  cases hs : framer.stage with
  | awaitingHeader => exact absurd (by rw [hs]; trivial) h
  | awaitingBody kind => exact absurd (by rw [hs]; trivial) h
  | complete message =>
    rw [feed_of_complete hs]
    exact ⟨rfl, nofun, fun consumed hc => (FrameStatus.complete.inj hc).symm⟩
  | rejected error =>
    rw [feed_of_rejected hs]
    exact ⟨rfl, nofun, nofun⟩

/-- It does not answer like one that waits, if it is fed at all. -/
theorem exists_not_isWaiting {after : List Call} {chunk : List UInt8} (hf : .feed chunk ∈ after) :
    ∃ reply ∈ (framer.calls after).1, ¬ reply.IsWaiting := by
  cases hs : framer.stage with
  | awaitingHeader => exact absurd (by rw [hs]; trivial) h
  | awaitingBody kind => exact absurd (by rw [hs]; trivial) h
  | complete message =>
    -- its message may be taken, so nothing but the first answer is certain
    obtain ⟨first, rest, rfl⟩ := List.exists_cons_of_ne_nil (List.ne_nil_of_mem hf)
    refine ⟨_, List.mem_cons_self, ?_⟩
    cases first with
    | feed chunk =>
      rw [call, feed_of_complete hs]
      rintro (hr | hr) <;> cases hr
    | take =>
      rw [call, take?, hs]
      rintro (hr | hr) <;> cases hr
  | rejected error =>
    rw [calls_of_rejected hs]
    refine ⟨_, List.mem_map_of_mem hf, ?_⟩
    rintro (hr | hr) <;> cases hr

end Closed

/-! ### Any calls -/

/-- **The books of a framer** that was fed chunks of some size at most: it looks as if all that it
buffers had come at once, and but for one chunk that is less than the longest message. -/
structure Balanced (limit : Nat) (framer : Framer) : Prop where
  holding : framer = holding framer.buffer
  bounded : framer.buffer.length < Kind.maxLength + limit

theorem balanced_new (limit : Nat) : Balanced limit new :=
  ⟨rfl, Nat.lt_of_lt_of_le (by decide) (Nat.le_add_right _ _)⟩

section Balanced
variable {limit : Nat} {framer : Framer} (h : Balanced limit framer)
include h

theorem Balanced.unfinished (ho : framer.stage.IsOpen) : Unfinished framer.buffer := by
  rw [h.holding] at ho
  exact unfinished_of_isOpen ho

/-- **One call keeps the books.** -/
theorem Balanced.call {call : Call} (hl : call.bytes.length ≤ limit) :
    Balanced limit (framer.call call).2 := by
  by_cases ho : framer.stage.IsOpen
  · cases call with
    | feed chunk =>
      have hu := h.unfinished ho
      rw [h.holding, Framer.call, feed_holding hu]
      refine ⟨rfl, ?_⟩
      show (framer.buffer ++ chunk).length < _
      rw [List.length_append]
      exact Nat.add_lt_add_of_lt_of_le hu.length_lt_maxLength hl
    | take =>
      rw [call_take_of_isOpen ho]
      exact h
  · cases call with
    | feed chunk =>
      obtain ⟨hsame, -⟩ := feed_of_not_isOpen ho chunk
      rw [Framer.call, hsame]
      exact h
    | take =>
      rw [Framer.call, take?]
      cases framer.stage with
      | complete message => exact balanced_new limit
      | awaitingHeader | awaitingBody kind | rejected error => exact h

/-- So all calls keep them. -/
theorem Balanced.calls {calls : List Call} (hl : ∀ call ∈ calls, call.bytes.length ≤ limit) :
    Balanced limit (framer.calls calls).2 := by
  induction calls generalizing framer with
  | nil => exact h
  | cons first rest ih =>
    obtain ⟨hfirst, hrest⟩ := List.forall_mem_cons.1 hl
    exact ih (h.call hfirst) hrest

/-- **No peer keeps a framer waiting** with as many bytes as the longest message has. -/
theorem Balanced.length_lt_of_waiting {after : List Call} {chunk : List UInt8}
    (hf : .feed chunk ∈ after) (hw : ∀ reply ∈ (framer.calls after).1, reply.IsWaiting) :
    framer.buffer.length + (after.flatMap Call.bytes).length < Kind.maxLength := by
  by_cases ho : framer.stage.IsOpen
  · rw [h.holding] at hw
    obtain ⟨-, hu⟩ := calls_waiting (h.unfinished ho) hw
    rw [← List.length_append]
    exact hu.length_lt_maxLength
  · obtain ⟨reply, hreply, hn⟩ := exists_not_isWaiting ho hf
    exact absurd (hw reply hreply) hn

end Balanced

/-- What a session keeps of a chunk is what follows the bytes that the framer has used. -/
theorem pending_accept {framer : Framer} {chunk : List UInt8} {consumed : Nat}
    (h : (framer.feed chunk).1 = .complete consumed) (session : Session) :
    (session.accept framer chunk).2.pending = session.pending ++ chunk.drop consumed := by
  rcases hf : framer.feed chunk with ⟨status, next⟩
  rw [hf] at h
  obtain rfl : status = .complete consumed := h
  unfold Session.accept
  rw [hf]
  dsimp only
  split <;> rfl

/-- **The books of a framer are in order**, whatever it was called with: it has counted exactly what
it buffers, which is less than the longest message and the largest chunk together; and for as long
as it waits, less than the longest message with the bytes of any further calls. A framer that waits
buffers the next chunk, and if it goes on to wait, all that it buffers is less than the longest
message. If the chunk completes a message, at least one byte of it was missing, and no more than the
chunk has. One that is complete or has refused takes nothing in. And whenever it is complete, a
session keeps of the chunk what follows the bytes that were used. -/
theorem calls_bounded (before : List Call) :
    let framer := (new.calls before).2
    framer.fed = framer.buffer.length ∧
      (∀ limit, (∀ call ∈ before, call.bytes.length ≤ limit) →
        framer.buffer.length < Kind.maxLength + limit) ∧
      (∀ after chunk, .feed chunk ∈ after →
        (∀ reply ∈ (framer.calls after).1, reply.IsWaiting) →
          framer.buffer.length + (after.flatMap Call.bytes).length < Kind.maxLength) ∧
      ∀ chunk,
        let next := framer.feed chunk
        (framer.stage.IsOpen → next.2.buffer = framer.buffer ++ chunk) ∧
          (next.1 = .incomplete → next.2.buffer.length < Kind.maxLength) ∧
          (∀ consumed, framer.stage.IsOpen → next.1 = .complete consumed →
            1 ≤ consumed ∧ consumed ≤ chunk.length ∧
              ∃ frame : Frame, next.2.stage = .complete frame.message ∧
                framer.buffer.length + consumed = frame.kind.length) ∧
          (¬ framer.stage.IsOpen → next.2 = framer) ∧
          ∀ consumed, next.1 = .complete consumed →
            ∃ used rest, chunk = used ++ rest ∧ used.length = consumed ∧
              ∀ session : Session,
                (session.accept framer chunk).2.pending = session.pending ++ rest := by
  intro framer
  have hlimit : ∀ call ∈ before, call.bytes.length ≤ (before.flatMap Call.bytes).length := by
    intro call hc
    rw [List.flatMap_def]
    exact (List.sublist_flatten_of_mem (List.mem_map_of_mem hc)).length_le
  have hbooks : Balanced _ framer := (balanced_new _).calls hlimit
  refine ⟨by rw [hbooks.holding]; rfl, fun limit hl => ((balanced_new limit).calls hl).bounded,
    fun after chunk => hbooks.length_lt_of_waiting, fun chunk => ?_⟩
  intro next
  have hkept (consumed : Nat) (hc : next.1 = .complete consumed) (hle : consumed ≤ chunk.length) :
      ∃ used rest, chunk = used ++ rest ∧ used.length = consumed ∧ ∀ session : Session,
        (session.accept framer chunk).2.pending = session.pending ++ rest :=
    ⟨chunk.take consumed, chunk.drop consumed, (List.take_append_drop _ _).symm,
      List.length_take_of_le hle, pending_accept hc⟩
  by_cases ho : framer.stage.IsOpen
  · have hu := hbooks.unfinished ho
    have hnext : next = (holding framer.buffer).feed chunk := by rw [← hbooks.holding]
    have hbuffer : next.2.buffer = framer.buffer ++ chunk := by
      rw [hnext, feed_holding hu]
      rfl
    have hfinished (consumed : Nat) (hc : next.1 = .complete consumed) :=
      feed_finished hu (hnext ▸ hc)
    refine ⟨fun _ => hbuffer, fun hi => ?_, fun consumed _ hc => ?_, fun hn => absurd ho hn,
      fun consumed hc => hkept consumed hc (hfinished consumed hc).2.1⟩
    · rw [hbuffer]
      exact length_lt_of_incomplete hu (hnext ▸ hi)
    · rw [hnext]
      exact hfinished consumed hc
  · obtain ⟨hsame, hne, hzero⟩ := feed_of_not_isOpen ho chunk
    refine ⟨fun h => absurd h ho, fun hi => absurd hi hne, fun consumed h => absurd h ho,
      fun _ => hsame, fun consumed hc => hkept consumed hc ?_⟩
    rw [hzero consumed hc]
    exact Nat.zero_le _

/-- The longest message but for its last byte, a question too early, then that byte with two more.
The two are kept, and nothing after them is taken in. -/
theorem calls_bounded_last_byte :
    let bytes := (Message.stamped 4 (.locationsResponse .empty)).encode
    let before := [.feed (bytes.take 124), .take]
    let chunk := bytes.drop 124 ++ [7, 7]
    let after := (new.calls (before ++ [.feed chunk])).2
    (new.calls before).2.fed = 124 ∧ (new.calls before).2.buffer.length + 1 = Kind.maxLength ∧
      ((new.calls before).2.feed chunk).1 = .complete 1 ∧
      (∃ used, chunk = used ++ [7, 7] ∧ ∀ session : Session,
        (session.accept (new.calls before).2 chunk).2.pending = session.pending ++ [7, 7]) ∧
      ∀ more, (after.feed more).2 = after := by
  intro bytes before chunk after
  have hsize : (new.calls before).2.buffer.length = 124 := by decide +kernel
  have hnext : ((new.calls before).2.feed chunk).1 = .complete 1 := by decide +kernel
  have hclosed : ¬ after.stage.IsOpen := by decide +kernel
  obtain ⟨hfed, -, -, hfeed⟩ := calls_bounded before
  obtain ⟨-, -, -, hafter⟩ := calls_bounded (before ++ [.feed chunk])
  obtain ⟨-, -, -, -, hkept⟩ := hfeed chunk
  obtain ⟨used, rest, hcut, hused, hpending⟩ := hkept 1 hnext
  obtain ⟨-, rfl⟩ : used = bytes.drop 124 ∧ rest = [7, 7] :=
    List.append_inj hcut.symm (by rw [hused]; decide +kernel)
  refine ⟨hfed.trans hsize, by rw [hsize, Kind.maxLength_eq], hnext, ⟨used, hcut, hpending⟩,
    fun more => ?_⟩
  obtain ⟨-, -, -, hsame, -⟩ := hafter more
  exact hsame hclosed

end Framer

end RouteCosts
