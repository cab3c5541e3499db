import Mathlib.Algebra.GroupWithZero.Nat
import Mathlib.Data.List.Induction
import RouteCosts.Proofs.Session.Scripts
import RouteCosts.Proofs.Session.Sending
import RouteCosts.Proofs.Session.Waiting

/-!
# The accounts of a session

A blocking session is called to wait for messages and to send some, in any order, on a line on which
anything may fail. Its counts are those of the log of what it answered, and the bytes of the reads
it has made (`Accounted`); what it has written is what the log says it has sent (`Wrote`). Sending
and waiting do not meddle with each other: the waits answer what they would answer without the sends
(`inStep_calls`). The main statement is `calls_accounted`.
-/

namespace RouteCosts.Session

/-! ### Calls -/

/-- What a session is called for. -/
inductive Call where
  | wait
  | send (message : Message)
  deriving DecidableEq

/-- What a session answers to a call. -/
inductive Reply where
  | waited (answer : Except SessionError Message)
  | sent (answer : Except SessionError Nat)

/-- The answer of a wait. -/
def Reply.waited? : Reply → Option (Except SessionError Message)
  | waited answer => some answer
  | sent _ => none

/-- The message that a wait has returned. -/
def Reply.message? : Reply → Option Message
  | waited answer => answer.toOption
  | sent _ => none

/-- The size that a send has returned. -/
def Reply.size? : Reply → Option Nat
  | waited _ => none
  | sent answer => answer.toOption

/-- The answer to a call, and the session after it. -/
def call (session : Session) : Call → Reply × Session
  | .wait => (.waited session.wait.1, session.wait.2)
  | .send message =>
    (.sent (session.send .blocking message).1, (session.send .blocking message).2)

/-- Calls one after the other: each with its answer, and the session after them. -/
def calls (session : Session) (calls : List Call) : List (Call × Reply) × Session :=
  calls.foldl (fun (log, session) call =>
    (log ++ [(call, (session.call call).1)], (session.call call).2)) ([], session)

theorem calls_concat (session : Session) (before : List Call) (last : Call) :
    session.calls (before ++ [last]) =
      ((session.calls before).1 ++ [(last, ((session.calls before).2.call last).1)],
        ((session.calls before).2.call last).2) := by
  rw [calls, List.foldl_append]
  rfl

/-! ### What a wait reads -/

/-- **What a wait has done**: reads were made and their bytes counted, and a message if it returned
one. -/
structure Awaited (before : Session) (run : Except SessionError Message × Session) : Prop
    extends Reads before run.2 where
  messagesReceived :
    run.2.stats.messagesReceived = before.stats.messagesReceived + run.1.toOption.toList.length

/-- By induction on the reads, each of which is counted before its bytes are looked at. -/
theorem awaited_waitFrom (session : Session) (framer : Framer) (reads : List Arrival) :
    Awaited (session.withArrivals reads) (session.waitFrom framer reads) := by
  induction reads generalizing session framer with
  | nil => exact ⟨reads_idle _ _ _, rfl⟩
  | cons arrival reads ih =>
    rcases arrival with (_ | ⟨byte, bytes⟩) | fault | delay
    · exact ⟨reads_pass session (.data []) rfl reads, rfl⟩
    · have hread := reads_countRead session (byte :: bytes) reads
      obtain ⟨answer, more, h⟩ := exists_accept framer (byte :: bytes)
      rw [waitFrom, h]
      rcases answer with next | message | error
      · obtain ⟨hreads, hcount⟩ := ih _ next
        exact ⟨hread.trans ((reads_idle _ _ _).trans hreads), hcount⟩
      · exact ⟨hread.trans (reads_idle _ _ _), rfl⟩
      · exact ⟨hread.trans (reads_idle _ _ _), rfl⟩
    · have hpass := reads_pass session (.failure fault) rfl reads
      rw [waitFrom]
      split
      · obtain ⟨hreads, hcount⟩ := ih session framer
        exact ⟨hpass.trans hreads, hcount⟩
      · split
        · exact ⟨hpass, rfl⟩
        · exact ⟨hpass, rfl⟩
    · obtain ⟨hreads, hcount⟩ := ih session framer
      exact ⟨(reads_pass session (.stall delay) rfl reads).trans hreads, hcount⟩

theorem awaited_wait (session : Session) : Awaited session session.wait := by
  obtain ⟨answer, more, h⟩ := exists_accept (.holding []) session.pending
  have hreplay := replay_eq session
  rw [h] at hreplay
  rw [wait, hreplay]
  rcases answer with next | message | error
  · obtain ⟨hreads, hcount⟩ := awaited_waitFrom
      ({ session with pending := [] }.keeping more 0) next session.line.arrivals
    exact ⟨(reads_idle session _ _).trans hreads, hcount⟩
  · exact ⟨reads_idle session _ _, rfl⟩
  · exact ⟨reads_idle session _ _, rfl⟩

/-! ### Waiting beside sending -/

/-- Two sessions stand at the same place of the same reads, whatever they have sent. -/
structure InStep (session other : Session) : Prop where
  pending : session.pending = other.pending
  arrivals : session.line.arrivals = other.line.arrivals

theorem waitFrom_inStep {session other : Session} (h : session.pending = other.pending)
    (framer : Framer) (reads : List Arrival) :
    (session.waitFrom framer reads).1 = (other.waitFrom framer reads).1 ∧
      InStep (session.waitFrom framer reads).2 (other.waitFrom framer reads).2 := by
  induction reads generalizing session other framer with
  | nil => exact ⟨rfl, h, rfl⟩
  | cons arrival reads ih =>
    rcases arrival with (_ | ⟨byte, bytes⟩) | fault | delay
    · exact ⟨rfl, h, rfl⟩
    · obtain ⟨answer, more, ha⟩ := exists_accept framer (byte :: bytes)
      have hp : (session.countRead (byte :: bytes)).pending ++ more =
          (other.countRead (byte :: bytes)).pending ++ more := congrArg (· ++ more) h
      rw [waitFrom, waitFrom, ha, ha]
      rcases answer with next | message | error
      · exact ih hp next
      · exact ⟨rfl, hp, rfl⟩
      · exact ⟨rfl, hp, rfl⟩
    · rw [waitFrom, waitFrom]
      split
      · exact ih h framer
      · split
        · exact ⟨rfl, h, rfl⟩
        · exact ⟨rfl, h, rfl⟩
    · exact ih h framer

theorem InStep.wait {session other : Session} (h : InStep session other) :
    session.wait.1 = other.wait.1 ∧ InStep session.wait.2 other.wait.2 := by
  obtain ⟨⟨arrivals, departures, written⟩, pending, patience, stats⟩ := session
  obtain ⟨⟨arrivals', departures', written'⟩, pending', patience', stats'⟩ := other
  obtain ⟨hp, ha⟩ := h
  obtain rfl : pending = pending' := hp
  obtain rfl : arrivals = arrivals' := ha
  obtain ⟨answer, more, ha⟩ := exists_accept (.holding []) pending
  rw [Session.wait, Session.wait, replay_eq, replay_eq, ha, ha]
  rcases answer with next | message | error
  · exact waitFrom_inStep (by rfl) next arrivals
  · exact ⟨rfl, rfl, rfl⟩
  · exact ⟨rfl, rfl, rfl⟩

/-- **Sends do not show in what waits return**, nor in what is pending. -/
theorem inStep_calls (session : Session) (calls : List Call) :
    (session.calls calls).1.filterMap (·.2.waited?) = (waits (calls.count .wait) session).1 ∧
      InStep (session.calls calls).2 (waits (calls.count .wait) session).2 := by
  induction calls using List.reverseRecOn with
  | nil => exact ⟨rfl, rfl, rfl⟩
  | append_singleton before last ih =>
    obtain ⟨hlog, hstep⟩ := ih
    rw [calls_concat, List.filterMap_append, hlog, List.count_append]
    cases last with
    | wait =>
      obtain ⟨hanswer, hafter⟩ := hstep.wait
      rw [List.count_singleton_self, waits_succ]
      exact ⟨congrArg (fun answer => _ ++ [answer]) hanswer, hafter⟩
    | send message =>
      obtain ⟨hp, ha, -⟩ := (send_sends .blocking (session.calls before).2 message).keeps
      rw [List.count_singleton, if_neg (by simp), Nat.add_zero]
      exact ⟨List.append_nil _, hp.trans hstep.pending, ha.trans hstep.arrivals⟩

/-! ### The accounts -/

/-- **What calls have put on the line**, by what they answered: all of each message that was sent,
and some beginning of each that was not. -/
inductive Wrote : List (Call × Reply) → List UInt8 → Prop where
  | nil : Wrote [] []
  | waited {log : List (Call × Reply)} {bytes : List UInt8} (h : Wrote log bytes)
    (answer : Except SessionError Message) : Wrote (log ++ [(.wait, .waited answer)]) bytes
  | sent {log : List (Call × Reply)} {bytes : List UInt8} (h : Wrote log bytes)
    (message : Message) :
    Wrote (log ++ [(.send message, .sent (.ok message.length))]) (bytes ++ message.encode)
  | failed {log : List (Call × Reply)} {bytes : List UInt8} (h : Wrote log bytes)
    {message : Message} {part : List UInt8} (hp : part <+: message.encode) (fault : Fault) :
    Wrote (log ++ [(.send message, .sent (.error (.transport fault)))]) (bytes ++ part)

/-- **The accounts of a session** that was called on a line with some reads: its counts are those of
the log, and the bytes received are those of the reads it has made. -/
structure Accounted (script : List Arrival) (log : List (Call × Reply)) (after : Session) :
    Prop where
  messagesReceived : after.stats.messagesReceived = (log.filterMap (·.2.message?)).length
  messagesSent : after.stats.messagesSent = (log.filterMap (·.2.size?)).length
  bytesSent : after.stats.bytesSent = (log.filterMap (·.2.size?)).sum
  bytesReceived : ∃ taken, script = taken ++ after.line.arrivals ∧
    after.stats.bytesReceived = (taken.flatMap Arrival.bytes).length
  written : Wrote log after.line.written

section Accounted
variable {script : List Arrival} {log : List (Call × Reply)} {before : Session}
  (h : Accounted script log before)
include h

theorem Accounted.wait :
    Accounted script (log ++ [(.wait, .waited before.wait.1)]) before.wait.2 := by
  have hawaited := awaited_wait before
  obtain ⟨taken, htaken, hcount⟩ := h.bytesReceived
  obtain ⟨read, hread⟩ := hawaited.arrivals
  refine {
    messagesReceived := ?_
    messagesSent := ?_
    bytesSent := ?_
    bytesReceived := ⟨taken ++ read, ?_, ?_⟩
    written := ?_ }
  · rw [hawaited.messagesReceived, h.messagesReceived, List.filterMap_append, List.length_append]
    cases before.wait.1 <;> rfl
  · rw [hawaited.messagesSent, h.messagesSent, List.filterMap_append, List.length_append]
    rfl
  · rw [hawaited.bytesSent, h.bytesSent, List.filterMap_append, List.sum_append]
    rfl
  · rw [htaken, List.append_assoc, hread]
  · have hreads := hawaited.bytesReceived
    rw [← hread, List.flatMap_append, List.length_append] at hreads
    rw [List.flatMap_append, List.length_append]
    omega
  · rw [hawaited.written]
    exact h.written.waited before.wait.1

theorem Accounted.send (message : Message) :
    Accounted script (log ++ [(.send message, .sent (before.send .blocking message).1)])
      (before.send .blocking message).2 := by
  have hsends := send_sends .blocking before message
  generalize before.send .blocking message = run at hsends ⊢
  obtain ⟨taken, htaken, hcount⟩ := h.bytesReceived
  cases hsends with
  | whole hleft =>
    refine {
      messagesReceived := ?_
      messagesSent := ?_
      bytesSent := ?_
      bytesReceived := ⟨taken, htaken, hcount⟩
      written := h.written.sent message }
    · rw [List.filterMap_append, List.length_append]
      exact h.messagesReceived
    · rw [List.filterMap_append, List.length_append]
      exact congrArg (· + 1) h.messagesSent
    · rw [List.filterMap_append, List.sum_append, ← h.bytesSent]
      show _ + message.encode.length = _ + (message.length + 0)
      rw [message.length_encode, Nat.add_zero]
  | @part fault part left hp hleft =>
    refine {
      messagesReceived := ?_
      messagesSent := ?_
      bytesSent := ?_
      bytesReceived := ⟨taken, htaken, hcount⟩
      written := h.written.failed hp fault }
    · rw [List.filterMap_append, List.length_append]
      exact h.messagesReceived
    · rw [List.filterMap_append, List.length_append]
      exact h.messagesSent
    · rw [List.filterMap_append, List.sum_append]
      exact h.bytesSent

end Accounted

theorem accounted_calls (line : Line) (patience : Option Nat) (hw : line.written = [])
    (calls : List Call) :
    Accounted line.arrivals ((new line patience).calls calls).1
      ((new line patience).calls calls).2 := by
  induction calls using List.reverseRecOn with
  | nil =>
    exact {
      messagesReceived := rfl
      messagesSent := rfl
      bytesSent := rfl
      bytesReceived := ⟨[], rfl, rfl⟩
      written := hw ▸ .nil }
  | append_singleton before last ih =>
    rw [calls_concat]
    cases last with
    | wait => exact ih.wait
    | send message => exact ih.send message

theorem map_fst_calls (session : Session) (calls : List Call) :
    (session.calls calls).1.map Prod.fst = calls := by
  induction calls using List.reverseRecOn with
  | nil => rfl
  | append_singleton before last ih =>
    rw [calls_concat, List.map_append, ih]
    rfl

/-- **The accounts of a session are exact under any faults.** Whatever the reads bring, and however
writes and flushes go, after any calls of `wait` and `send` the counts are those of the log and of
the reads made, and what was written is what the log says; the waits among the calls have answered
what they answer without the sends, and as much is pending. A further message is sent whole and
counted, or its beginning is written and nothing else changes. -/
theorem calls_accounted (script : List Arrival) (departures : List Departure)
    (patience : Option Nat) (calls : List Call) :
    let line := Line.new Kind.maxLength script departures
    let log := ((new line patience).calls calls).1
    let after := ((new line patience).calls calls).2
    let waited := waits (calls.count .wait) (new line patience)
    log.map Prod.fst = calls ∧ Accounted line.arrivals log after ∧
      log.filterMap (·.2.waited?) = waited.1 ∧ after.pending = waited.2.pending ∧
      ∀ message, Sends after message (after.send .blocking message) := by
  intro line log after waited
  obtain ⟨hwaited, hstep⟩ := inStep_calls (new line patience) calls
  exact ⟨map_fst_calls _ calls, accounted_calls line patience rfl calls, hwaited, hstep.pending,
    send_sends .blocking after⟩

end RouteCosts.Session
