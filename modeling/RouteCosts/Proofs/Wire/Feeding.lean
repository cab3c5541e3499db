import RouteCosts.Proofs.Wire.Frame

/-! # Feeding a framer

A framer is called with chunks, and asked for its message, in any order. While it waits, what it
answers to a chunk is the `Verdict` on all bytes so far, and the chunks in which they came do not
matter. Once it has answered something else it is settled: it refuses for good, or it holds its
message until that is taken and is as new then.

* `Opening`: bytes that begin with the header of a kind; `ofBytes_of_opening` gives the stage.
* `verdict_iff`: the verdict is what the stage of the bytes is answered as, and the only one.
* `Framer.holding`: the framer that was fed some unfinished bytes, which is how every waiting one
  looks (`calls_waiting`).
* `Framer.calls_verdict`: the answer to the next chunk, and to all calls after it. -/

namespace RouteCosts

/-! ### The header at the front -/

/-- Bytes that begin with the header of a kind: its number, and the length of its messages. -/
structure Opening (bytes : List UInt8) (kind : Kind) : Prop where
  size : headerSize ≤ bytes.length
  number : bytes.take 4 = BigEndian.encode 4 kind.id.toNat
  declared : (bytes.drop 4).take 4 = BigEndian.encode 4 kind.length

theorem Frame.opening_append (frame : Frame) (rest : List UInt8) :
    Opening (frame.bytes ++ rest) frame.kind := by
  have hs := frame.headerSize_le
  unfold headerSize at hs
  refine ⟨?_, ?_, ?_⟩
  · rw [List.length_append]; unfold headerSize; omega
  · rw [List.take_append_of_le_length (by omega), frame.number]
  · rw [take_drop_append (by omega), frame.declared]

theorem Opening.of_append {bytes more : List UInt8} {kind : Kind} (h : Opening (bytes ++ more) kind)
    (hs : headerSize ≤ bytes.length) : Opening bytes kind := by
  obtain ⟨-, hn, hd⟩ := h
  unfold headerSize at hs
  rw [List.take_append_of_le_length (by omega)] at hn
  rw [take_drop_append (by omega)] at hd
  exact ⟨hs, hn, hd⟩

theorem Opening.header_eq {bytes : List UInt8} {kind : Kind} (h : Opening bytes kind) :
    (Header.decode bytes).id = kind.id ∧ (Header.decode bytes).length.toNat = kind.length := by
  have hs := h.size
  unfold headerSize at hs
  exact ⟨(Header.decode_id_eq_iff (by omega) _).2 h.number,
    (Header.decode_length_eq_iff (by omega) kind.length_lt_capacity).2 h.declared⟩

theorem FrameStage.ofBytes_of_opening {bytes : List UInt8} {kind : Kind} (h : Opening bytes kind) :
    ofBytes bytes = ofBody bytes kind :=
  ofBytes_of_header h.size h.header_eq.1 h.header_eq.2

/-- Which message is made of the bytes of a kind depends on no time: the header is read over it. -/
theorem Message.ofBytes_eq_absorb {kind : Kind} {bytes : List UInt8}
    (hs : headerSize ≤ bytes.length) (now : Int64) :
    ofBytes kind bytes = ((stamped now (.blank kind)).absorb bytes).1 := by
  have hn : ¬ bytes.length < headerSize := by omega
  simp only [ofBytes, absorb, if_neg hn]
  rfl

theorem Message.kind_ofBytes (kind : Kind) (bytes : List UInt8) :
    (ofBytes kind bytes).body.kind = kind := by
  rw [ofBytes, kind_absorb]
  exact Body.kind_blank kind

/-! ### Verdicts -/

/-- **The verdict on some bytes**, of which `fed` were there before the last chunk. -/
inductive Verdict (fed : Nat) (bytes : List UInt8) : FrameStatus → Prop where
  | headerless (h : bytes.length < headerSize) : Verdict fed bytes .incomplete
  | refused {error : FrameError} (h : BadHeader bytes error) : Verdict fed bytes (.rejected error)
  | unfinished {kind : Kind} (ho : Opening bytes kind) (h : bytes.length < kind.length) :
    Verdict fed bytes .incomplete
  | finished {kind : Kind} (ho : Opening bytes kind) (h : kind.length ≤ bytes.length) :
    Verdict fed bytes (.complete (kind.length - fed))

theorem exists_verdict (fed : Nat) (bytes : List UInt8) : ∃ status, Verdict fed bytes status := by
  rcases trichotomy bytes with ⟨frame, rest, rfl⟩ | hu | ⟨error, he⟩
  · have hl : frame.kind.length ≤ (frame.bytes ++ rest).length := by
      rw [List.length_append, frame.length_bytes]; omega
    exact ⟨_, .finished (frame.opening_append rest) hl⟩
  · by_cases hs : bytes.length < headerSize
    · exact ⟨_, .headerless hs⟩
    · obtain ⟨frame, ⟨more, hm⟩, hl⟩ := hu.resolve_left hs
      have ho : Opening (bytes ++ more) frame.kind := by
        have := frame.opening_append []
        rwa [List.append_nil, ← hm] at this
      rw [frame.length_bytes] at hl
      exact ⟨_, .unfinished (ho.of_append (by omega)) hl⟩
  · exact ⟨_, .refused he⟩

theorem Verdict.status_eq {fed : Nat} {bytes : List UInt8} {status : FrameStatus}
    (h : Verdict fed bytes status) : (FrameStage.ofBytes bytes).status fed = status := by
  cases h with
  | headerless h =>
    unfold FrameStage.ofBytes
    rw [if_pos h]
    rfl
  | refused h => rw [FrameStage.ofBytes_of_badHeader h]; rfl
  | unfinished ho h =>
    rw [FrameStage.ofBytes_of_opening ho, FrameStage.ofBody, if_pos h]
    rfl
  | finished ho h =>
    rw [FrameStage.ofBytes_of_opening ho, FrameStage.ofBody, if_neg (by omega), FrameStage.status,
      Message.kind_ofBytes]

/-- **There is one verdict on every bytes.** -/
theorem verdict_iff {fed : Nat} {bytes : List UInt8} {status : FrameStatus} :
    Verdict fed bytes status ↔ (FrameStage.ofBytes bytes).status fed = status := by
  constructor
  · exact Verdict.status_eq
  · rintro rfl
    obtain ⟨status, h⟩ := exists_verdict fed bytes
    rw [h.status_eq]
    exact h

theorem isOpen_of_incomplete {fed : Nat} {stage : FrameStage} (h : stage.status fed = .incomplete) :
    stage.IsOpen := by
  cases stage with
  | awaitingHeader => trivial
  | awaitingBody kind => trivial
  | complete message => cases h
  | rejected error => cases h

/-- The bytes of a stage that waits are unfinished. -/
theorem unfinished_of_isOpen {bytes : List UInt8} (h : (FrameStage.ofBytes bytes).IsOpen) :
    Unfinished bytes := by
  rcases trichotomy bytes with ⟨frame, rest, rfl⟩ | hu | ⟨error, he⟩
  · rw [FrameStage.ofBytes_append_frame] at h
    exact h.elim
  · exact hu
  · rw [FrameStage.ofBytes_of_badHeader he] at h
    exact h.elim

namespace Framer

/-! ### A framer that holds unfinished bytes -/

/-- The framer that was fed some bytes. -/
def holding (bytes : List UInt8) : Framer := ⟨bytes, bytes.length, .ofBytes bytes⟩

theorem feed_holding {held : List UInt8} (hu : Unfinished held) (chunk : List UInt8) :
    (holding held).feed chunk =
      ((FrameStage.ofBytes (held ++ chunk)).status held.length, holding (held ++ chunk)) := by
  have ho := FrameStage.isOpen_ofBytes hu
  have ha := FrameStage.advance_ofBytes ho chunk
  unfold feed holding
  cases hs : FrameStage.ofBytes held with
  | awaitingHeader => rw [← ha, hs, List.length_append]
  | awaitingBody kind => rw [← ha, hs, List.length_append]
  | complete message => rw [hs] at ho; exact ho.elim
  | rejected error => rw [hs] at ho; exact ho.elim

/-! ### Calls -/

/-- What a framer is asked for. -/
inductive Call where
  | feed (chunk : List UInt8)
  | take

/-- The bytes that come with a call. -/
def Call.bytes : Call → List UInt8
  | feed chunk => chunk
  | take => []

/-- What a framer answers to a call. -/
inductive Reply where
  | fed (status : FrameStatus)
  | taken (message : Option Message)
  deriving DecidableEq

/-- The answer of a framer that goes on waiting. -/
def Reply.IsWaiting (reply : Reply) : Prop := reply = fed .incomplete ∨ reply = taken none

instance (reply : Reply) : Decidable reply.IsWaiting := inferInstanceAs (Decidable (_ ∨ _))

/-- The answer of a framer that has refused. -/
def Reply.refusing (error : FrameError) : Call → Reply
  | .feed _ => fed (.rejected error)
  | .take => taken none

/-- The answer to a call, and the framer after it. -/
def call (framer : Framer) : Call → Reply × Framer
  | .feed chunk => (.fed (framer.feed chunk).1, (framer.feed chunk).2)
  | .take =>
    match framer.take? with
    | some (message, next) => (.taken (some message), next)
    | none => (.taken none, framer)

/-- The answers to calls one after the other, and the framer after them. -/
def calls (framer : Framer) : List Call → List Reply × Framer
  | [] => ([], framer)
  | first :: rest =>
    ((framer.call first).1 :: ((framer.call first).2.calls rest).1,
      ((framer.call first).2.calls rest).2)

theorem take?_of_isOpen {framer : Framer} (h : framer.stage.IsOpen) : framer.take? = none := by
  unfold take?
  cases hs : framer.stage with
  | awaitingHeader => rfl
  | awaitingBody kind => rfl
  | complete message => rw [hs] at h; exact h.elim
  | rejected error => rfl

theorem call_take_of_isOpen {framer : Framer} (h : framer.stage.IsOpen) :
    framer.call .take = (.taken none, framer) := by
  rw [call, take?_of_isOpen h]

/-- A framer that waits after some calls looks as if all bytes had come at once. -/
theorem calls_waiting {held : List UInt8} (hu : Unfinished held) {before : List Call}
    (h : ∀ reply ∈ ((holding held).calls before).1, reply.IsWaiting) :
    ((holding held).calls before).2 = holding (held ++ before.flatMap Call.bytes) ∧
      Unfinished (held ++ before.flatMap Call.bytes) := by
  induction before generalizing held with
  | nil =>
    rw [List.flatMap_nil, List.append_nil]
    exact ⟨rfl, hu⟩
  | cons first rest ih =>
    rw [calls] at h ⊢
    obtain ⟨hfirst, hrest⟩ := List.forall_mem_cons.1 h
    rw [List.flatMap_cons, ← List.append_assoc]
    cases first with
    | feed chunk =>
      rw [call, feed_holding hu] at hfirst hrest ⊢
      rcases hfirst with hf | hf
      · have ho := isOpen_of_incomplete (Reply.fed.inj hf)
        exact ih (unfinished_of_isOpen ho) hrest
      · cases hf
    | take =>
      rw [call_take_of_isOpen (FrameStage.isOpen_ofBytes hu)] at hrest ⊢
      rw [Call.bytes, List.append_nil]
      exact ih hu hrest

/-- A framer that has refused goes on to refuse. -/
theorem calls_of_rejected {framer : Framer} {error : FrameError}
    (h : framer.stage = .rejected error) (after : List Call) :
    framer.calls after = (after.map (Reply.refusing error), framer) := by
  induction after with
  | nil => rfl
  | cons first rest ih =>
    have hfirst : framer.call first = (Reply.refusing error first, framer) := by
      cases first with
      | feed chunk => rw [call, feed_of_rejected h]; rfl
      | take => rw [call, take?, h]; rfl
    rw [calls, hfirst, ih]
    rfl

/-- A framer that is complete needs no more bytes. -/
theorem calls_feed_of_complete {framer : Framer} {message : Message}
    (h : framer.stage = .complete message) (chunks : List (List UInt8)) :
    framer.calls (chunks.map .feed) = (chunks.map fun _ => .fed (.complete 0), framer) := by
  induction chunks with
  | nil => rfl
  | cons chunk chunks ih =>
    rw [List.map_cons, calls, call, feed_of_complete h, ih]
    rfl

theorem calls_take_of_complete {framer : Framer} {message : Message}
    (h : framer.stage = .complete message) (after : List Call) :
    framer.calls (.take :: after) =
      (.taken (some message) :: (new.calls after).1, (new.calls after).2) := by
  have htake : framer.call .take = (.taken (some message), new) := by rw [call, take?, h]
  rw [calls, htake]

/-- **Chunks do not change what a framer decides.** While all answers were that it waits, the next
one is the verdict on all bytes so far. One that refuses does so for good. One that is complete
takes no more bytes; it gives the message up that its bytes are read into, at whatever time that
was made, and from then on all calls are answered as by a new framer. -/
theorem calls_verdict {before : List Call} (hb : ∀ reply ∈ (new.calls before).1, reply.IsWaiting)
    (chunk : List UInt8) (now : Int64) :
    let fed := before.flatMap Call.bytes
    let bytes := fed ++ chunk
    let next := (new.calls before).2.feed chunk
    (∀ status, Verdict fed.length bytes status ↔ next.1 = status) ∧
      (next.1 = .incomplete → next.2.call .take = (.taken none, next.2)) ∧
      (∀ error, next.1 = .rejected error →
        ∀ after, next.2.calls after = (after.map (Reply.refusing error), next.2)) ∧
      ∀ consumed, next.1 = .complete consumed →
        (∀ chunks : List (List UInt8),
          next.2.calls (chunks.map .feed) = (chunks.map fun _ => .fed (.complete 0), next.2)) ∧
        ∃ kind message, Opening bytes kind ∧
          message = ((Message.stamped now (.blank kind)).absorb (bytes.take kind.length)).1 ∧
          ∀ after, next.2.calls (.take :: after) =
            (.taken (some message) :: (new.calls after).1, (new.calls after).2) := by
  obtain ⟨hframer, hu⟩ := calls_waiting unfinished_nil hb
  rw [List.nil_append] at hframer hu
  intro fed bytes next
  have hnext : next = ((FrameStage.ofBytes bytes).status fed.length, holding bytes) := by
    show (new.calls before).2.feed chunk = _
    rw [show (new.calls before).2 = holding fed from hframer, feed_holding hu]
  obtain ⟨status, hv⟩ := exists_verdict fed.length bytes
  have hstatus : next.1 = status := by rw [hnext]; exact hv.status_eq
  refine ⟨fun other => by rw [verdict_iff, hnext], fun hi => ?_, fun error he => ?_,
    fun consumed hc => ?_⟩
  · rw [hnext] at hi ⊢
    exact call_take_of_isOpen (isOpen_of_incomplete hi)
  · obtain rfl := hstatus.symm.trans he
    cases hv with
    | refused h =>
      rw [hnext]
      exact calls_of_rejected (FrameStage.ofBytes_of_badHeader h)
  · obtain rfl := hstatus.symm.trans hc
    cases hv with
    | @finished kind ho hl =>
      have hstage : next.2.stage = .complete (.ofBytes kind (bytes.take kind.length)) := by
        rw [hnext]
        show FrameStage.ofBytes bytes = _
        rw [FrameStage.ofBytes_of_opening ho, FrameStage.ofBody, if_neg (by omega)]
      have hsize : headerSize ≤ (bytes.take kind.length).length := by
        have := kind.headerSize_le_length
        rw [List.length_take]; omega
      exact ⟨calls_feed_of_complete hstage, kind, _, ho, Message.ofBytes_eq_absorb hsize now,
        calls_take_of_complete hstage⟩

/-- A message in two chunks, an empty one before them and a question too early between them. -/
theorem calls_two_chunks :
    let message := Message.stamped 4 (.routeResponse 12)
    let before := [.feed [], .feed (message.encode.take 7), .take]
    let next := (new.calls before).2.feed (message.encode.drop 7 ++ [1])
    (∀ reply ∈ (new.calls before).1, reply.IsWaiting) ∧ next.1 = .complete 17 ∧
      (next.2.calls [.take, .feed [1]]).1 = [.taken (some message), .fed .incomplete] := by
  intro message before next
  have hb : ∀ reply ∈ (new.calls before).1, reply.IsWaiting := by decide
  obtain ⟨hverdict, -, -, hcomplete⟩ := calls_verdict hb (message.encode.drop 7 ++ [1]) 9
  have hopening : Opening (before.flatMap Call.bytes ++ (message.encode.drop 7 ++ [1]))
      .routeResponse := ⟨by decide, by decide, by decide⟩
  have hnext : next.1 = .complete 17 := (hverdict _).1 (.finished hopening (by decide))
  obtain ⟨-, kind, taken, ho, htaken, hafter⟩ := hcomplete 17 hnext
  obtain rfl : kind = .routeResponse :=
    Kind.id_injective (ho.header_eq.1.symm.trans hopening.header_eq.1)
  refine ⟨hb, hnext, ?_⟩
  rw [hafter [.feed [1]], htaken]
  decide

end Framer

end RouteCosts
