import RouteCosts.Proofs.Dialogue.Course

/-!
# Rounds, and a log of them

What a round does to a state is said case by case (`Conduct.rounds_missed` and the lemmas after it).
One end of a conversation may keep a log of the calls of its handler and of what it writes, in the
order in which they happen (`Conduct.noting`). It makes the same rounds, and the log changes nothing
else (`Conduct.rounds_noting`), so what the log says of the order holds of the conversation itself.
-/

namespace RouteCosts

variable {σ η : Type}

namespace Conduct

/-! ### Rounds on a state -/

section Rounds
variable {conduct : Conduct (StateM σ)} {state mid later last : σ} {message answer : Message}

/-- There was no next message. -/
theorem rounds_missed {result : Except SessionError Unit}
    (hn : conduct.next state = (.error result, mid)) (left : Nat) :
    conduct.rounds (left + 1) state = (result, mid) := by
  simp only [rounds, round, bind, StateT.bind, hn]
  rfl

variable (hn : conduct.next state = (.ok message, mid))
include hn

theorem rounds_unanswered (hh : conduct.handle message mid = (none, later)) (left : Nat) :
    conduct.rounds (left + 1) state = (.ok (), later) := by
  simp only [rounds, round, bind, StateT.bind, hn, hh]
  rfl

variable (hh : conduct.handle message mid = (some answer, later))
include hh

theorem rounds_unsent {error : SessionError}
    (hs : conduct.send answer later = (.error error, last)) (left : Nat) :
    conduct.rounds (left + 1) state = (.error error, last) := by
  simp only [rounds, round, bind, StateT.bind, hn, hh, hs]
  rfl

/-- The answer was sent, and the rounds go on. -/
theorem rounds_answered (hs : conduct.send answer later = (.ok (), last)) (left : Nat) :
    conduct.rounds (left + 1) state = conduct.rounds left last := by
  simp only [rounds, round, bind, StateT.bind, hn, hh, hs]
  rfl

end Rounds

theorem lead_sent {conduct : Conduct (StateM σ)} {state last : σ} {opening : Message}
    (hs : conduct.send opening state = (.ok (), last)) (rest : StateM σ (Except SessionError Unit)) :
    conduct.lead opening rest state = rest last := by
  simp only [lead, bind, StateT.bind, hs]

end Conduct

/-! ### A log of calls and writes -/

/-- What can be seen of one end of a conversation. -/
inductive Deed where
  /-- The handler was called. -/
  | called (message : Message)
  /-- A message was sent, or a part of it: these bytes were written. -/
  | wrote (bytes : List UInt8)
  deriving DecidableEq

/-- The message that the handler was called with. -/
def Deed.called? : Deed → Option Message
  | called message => some message
  | wrote _ => none

namespace Conduct

/-- The same conduct, with a log. What a message has written is read off the state. -/
def noting (written : σ → List UInt8) (conduct : Conduct (StateM σ)) :
    Conduct (StateM (σ × List Deed)) where
  next := fun (state, log) =>
    let (message, after) := conduct.next state
    (message, after, log)
  handle := fun message (state, log) =>
    let (answer, after) := conduct.handle message state
    (answer, after, log ++ [.called message])
  send := fun message (state, log) =>
    let (sent, after) := conduct.send message state
    (sent, after, log ++ [.wrote ((written after).drop (written state).length)])

section Noting
variable (written : σ → List UInt8) {conduct : Conduct (StateM σ)} {state after : σ}
  {message : Message} (log : List Deed)

theorem noting_next {received : Except (Except SessionError Unit) Message}
    (h : conduct.next state = (received, after)) :
    (conduct.noting written).next (state, log) = (received, after, log) := by
  rw [noting]
  simp only [h]

theorem noting_handle {answer : Option Message}
    (h : conduct.handle message state = (answer, after)) :
    (conduct.noting written).handle message (state, log) =
      (answer, after, log ++ [.called message]) := by
  rw [noting]
  simp only [h]

theorem noting_send {sent : Except SessionError Unit}
    (h : conduct.send message state = (sent, after)) :
    (conduct.noting written).send message (state, log) =
      (sent, after, log ++ [.wrote ((written after).drop (written state).length)]) := by
  rw [noting]
  simp only [h]

end Noting

/-- **The log changes nothing else**, by induction on the rounds. -/
theorem rounds_noting (written : σ → List UInt8) (conduct : Conduct (StateM σ)) (left : Nat)
    (state : σ) (log : List Deed) :
    let run := (conduct.noting written).rounds left (state, log)
    (run.1, run.2.1) = conduct.rounds left state := by
  induction left generalizing state log with
  | zero => rfl
  | succ left ih =>
    rcases hn : conduct.next state with ⟨result | message, mid⟩
    · rw [rounds_missed hn, rounds_missed (noting_next written log hn)]
    · have hnext := noting_next written log hn
      rcases hh : conduct.handle message mid with ⟨_ | answer, later⟩
      · rw [rounds_unanswered hn hh, rounds_unanswered hnext (noting_handle written log hh)]
      · have hhandle := noting_handle written log hh
        rcases hs : conduct.send answer later with ⟨error | ⟨⟩, last⟩
        · rw [rounds_unsent hn hh hs, rounds_unsent hnext hhandle (noting_send written _ hs)]
        · rw [rounds_answered hn hh hs, rounds_answered hnext hhandle (noting_send written _ hs)]
          exact ih last _

end Conduct

/-! ### What a course shows -/

/-- Every message, followed by the answer to it if there is one. -/
def deedsOf : List Message → List Message → List Deed
  | message :: heard, answer :: answers =>
    .called message :: .wrote answer.encode :: deedsOf heard answers
  | heard, _ => heard.map .called

/-- What a course shows: the handler is called with a message, its answer is written, it is called
with the next message, and so on. -/
def Course.deeds (course : Course η) : List Deed := deedsOf course.heard course.answers

theorem filterMap_deedsOf (heard answers : List Message) :
    (deedsOf heard answers).filterMap Deed.called? = heard := by
  fun_induction deedsOf heard answers with
  | case1 message heard answer answers ih => exact congrArg (message :: ·) ih
  | case2 heard answers _ =>
    rw [List.filterMap_map]
    exact List.filterMap_some

/-- The handler is called with the messages of the course, one after the other. -/
theorem Course.filterMap_deeds (course : Course η) :
    course.deeds.filterMap Deed.called? = course.heard := filterMap_deedsOf _ _

/-! ### The log of a session -/

namespace Session

section Conduct
variable {writer : Writer} {handler : Handler η} {session mid last : Session} {state next : η}
  {message answer : Message}

theorem conduct_next (handler : Handler η) (state : η)
    {received : Except (Except SessionError Unit) Message}
    (h : session.next writer = (received, mid)) :
    (conduct writer handler).next (session, state) = (received, mid, state) := by
  simp only [conduct, h]

theorem conduct_handle {given : Option Message} (h : handler state message = (given, next)) :
    (conduct writer handler).handle message (session, state) = (given, session, next) := by
  simp only [conduct, h]

theorem conduct_send {sent : Except SessionError Nat}
    (h : session.send writer message = (sent, mid)) :
    (conduct writer handler).send message (session, state) =
      (sent.map fun _ => (), mid, state) := by
  simp only [conduct, h]

theorem converse_missed {result : Except SessionError Unit}
    (h : session.next writer = (.error result, mid)) (rounds : Nat) :
    converse writer handler (rounds + 1) session state = (result, mid, state) :=
  Conduct.rounds_missed (conduct_next handler state h) rounds

variable (h : session.next writer = (.ok message, mid))
include h

theorem converse_unanswered (hh : handler state message = (none, next)) (rounds : Nat) :
    converse writer handler (rounds + 1) session state = (.ok (), mid, next) :=
  Conduct.rounds_unanswered (conduct_next handler state h) (conduct_handle hh) rounds

variable (hh : handler state message = (some answer, next))
include hh

theorem converse_unsent {error : SessionError}
    (hs : mid.send writer answer = (.error error, last)) (rounds : Nat) :
    converse writer handler (rounds + 1) session state = (.error error, last, next) :=
  Conduct.rounds_unsent (conduct_next handler state h) (conduct_handle hh) (conduct_send hs) rounds

theorem converse_answered {sent : Nat} (hs : mid.send writer answer = (.ok sent, last))
    (rounds : Nat) :
    converse writer handler (rounds + 1) session state =
      converse writer handler rounds last next :=
  Conduct.rounds_answered (conduct_next handler state h) (conduct_handle hh) (conduct_send hs) rounds

end Conduct

/-- When the opening was sent, enquiring goes on with the rounds. -/
theorem enquire_sent (handler : Handler η) {session after : Session} (state : η)
    {opening : Message} {sent : Nat} (h : session.send .blocking opening = (.ok sent, after)) :
    session.enquire handler opening state =
      converse .blocking handler (session.backlog + 1) after state :=
  Conduct.lead_sent (conduct_send h) _

/-- What was written, by a session and whatever is kept beside it. -/
def writtenOf (now : Session × η) : List UInt8 := now.1.line.written

/-- A conversation of so many rounds at most, with its log. -/
def noted (writer : Writer) (handler : Handler η) (rounds : Nat) (session : Session) (state : η)
    (log : List Deed) : Except SessionError Unit × (Session × η) × List Deed :=
  ((conduct writer handler).noting writtenOf).rounds rounds ((session, state), log)

theorem noted_eq_converse (writer : Writer) (handler : Handler η) (rounds : Nat)
    (session : Session) (state : η) (log : List Deed) :
    let run := noted writer handler rounds session state log
    (run.1, run.2.1) = converse writer handler rounds session state :=
  Conduct.rounds_noting writtenOf _ rounds (session, state) log

section Noted
variable {writer : Writer} {handler : Handler η} {session mid last : Session} {state next : η}
  {message answer : Message}

theorem noted_missed {result : Except SessionError Unit}
    (h : session.next writer = (.error result, mid)) (rounds : Nat) (log : List Deed) :
    noted writer handler (rounds + 1) session state log = (result, (mid, state), log) :=
  Conduct.rounds_missed (Conduct.noting_next writtenOf log (conduct_next handler state h)) rounds

variable (h : session.next writer = (.ok message, mid))
include h

theorem noted_unanswered (hh : handler state message = (none, next)) (rounds : Nat)
    (log : List Deed) :
    noted writer handler (rounds + 1) session state log =
      (.ok (), (mid, next), log ++ [.called message]) :=
  Conduct.rounds_unanswered (Conduct.noting_next writtenOf log (conduct_next handler state h))
    (Conduct.noting_handle writtenOf log (conduct_handle hh)) rounds

theorem noted_answered {sent : Nat} (hh : handler state message = (some answer, next))
    (hs : mid.send writer answer = (.ok sent, last)) (rounds : Nat) (log : List Deed) :
    noted writer handler (rounds + 1) session state log =
      noted writer handler rounds last next (log ++ [.called message] ++
        [.wrote (last.line.written.drop mid.line.written.length)]) :=
  Conduct.rounds_answered (Conduct.noting_next writtenOf log (conduct_next handler state h))
    (Conduct.noting_handle writtenOf log (conduct_handle hh))
    (Conduct.noting_send writtenOf _ (conduct_send hs)) rounds

end Noted

/-- What is seen of a session that is served: the calls of the handler and the writes, in order. That
they are noted changes nothing (`noted_eq_converse`). -/
def deeds (handler : Handler η) (session : Session) (state : η) (retries : Bool := true) :
    List Deed :=
  (noted (.cooperative retries) handler (session.backlog + 1) session state []).2.2

end Session

end RouteCosts
