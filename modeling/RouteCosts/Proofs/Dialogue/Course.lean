import RouteCosts.Proofs.Wire.RoundTrip
import RouteCosts.Session.Conversation

/-!
# Dialogues without bytes

What handlers do when messages reach them directly. The `course` of a handler through a list of
messages is the list of those it is called with, its answers, and its state at the end. Two handlers
in turn make an `exchange`: the server's is called with the opening, the client's with the answer to
it, and so on. An exchange hands each party exactly the course of the other one
(`course_told`, `course_asked`). Conversely, two courses of which each was led by the answers of the
other are an exchange (`course_eq_exchange`), and if both have run out, it has ended
(`exchange_ended`).
-/

namespace RouteCosts

variable {η θ : Type}

/-! ### One handler -/

/-- What a handler makes of a list of messages. -/
structure Course (η : Type) where
  /-- The messages it is called with. -/
  heard : List Message
  answers : List Message
  state : η
  /-- It gave no answer at last. -/
  ended : Bool

namespace Handler

/-- The course of a handler through messages, up to the first that it does not answer. -/
def course (handler : Handler η) : η → List Message → Course η
  | state, [] => ⟨[], [], state, false⟩
  | state, message :: rest =>
    match handler state message with
    | (none, state) => ⟨[message], [], state, true⟩
    | (some answer, state) =>
      let more := handler.course state rest
      { more with heard := message :: more.heard, answers := answer :: more.answers }

/-- The handler that also keeps the list of all messages it was called with. -/
def noting (handler : Handler η) : Handler (List Message × η) :=
  fun (calls, state) message =>
    let (answer, state) := handler state message
    (answer, calls ++ [message], state)

theorem noting_apply (handler : Handler η) (calls : List Message) (state : η) (message : Message) :
    handler.noting (calls, state) message =
      ((handler state message).1, calls ++ [message], (handler state message).2) := rfl

/-- All answers of a handler are made at some time from some body. -/
def Stamps (handler : Handler η) : Prop :=
  ∀ state message answer, (handler state message).1 = some answer → answer.IsStamped

section Course
variable {handler : Handler η} {state next : η} {message answer : Message}

theorem course_cons_none (h : handler state message = (none, next)) (rest : List Message) :
    handler.course state (message :: rest) = ⟨[message], [], next, true⟩ := by
  rw [course, h]

theorem course_cons_some (h : handler state message = (some answer, next)) (rest : List Message) :
    handler.course state (message :: rest) =
      { handler.course next rest with
        heard := message :: (handler.course next rest).heard
        answers := answer :: (handler.course next rest).answers } := by
  rw [course, h]

variable (handler)

theorem course_of_not_ended {state : η} {messages : List Message}
    (h : (handler.course state messages).ended = false) :
    (handler.course state messages).heard = messages ∧
      (handler.course state messages).answers.length = messages.length := by
  induction messages generalizing state with
  | nil => exact ⟨rfl, rfl⟩
  | cons message rest ih =>
    rcases hm : handler state message with ⟨_ | answer, next⟩
    · rw [course_cons_none hm] at h
      cases h
    · rw [course_cons_some hm] at h ⊢
      obtain ⟨hheard, hlength⟩ := ih h
      exact ⟨congrArg _ hheard, congrArg Nat.succ hlength⟩

/-- Noting the calls changes nothing else, and the calls are those of the course. -/
theorem course_noting (calls : List Message) (state : η) (messages : List Message) :
    handler.noting.course (calls, state) messages =
      ⟨(handler.course state messages).heard, (handler.course state messages).answers,
        (calls ++ (handler.course state messages).heard, (handler.course state messages).state),
        (handler.course state messages).ended⟩ := by
  induction messages generalizing calls state with
  | nil => rw [course, course, List.append_nil]
  | cons message rest ih =>
    rcases hm : handler state message with ⟨_ | answer, next⟩
    · have hn : handler.noting (calls, state) message = (none, calls ++ [message], next) := by
        rw [noting_apply, hm]
      rw [course_cons_none hm, course_cons_none hn]
    · have hn : handler.noting (calls, state) message =
          (some answer, calls ++ [message], next) := by
        rw [noting_apply, hm]
      rw [course_cons_some hm, course_cons_some hn, ih, List.append_assoc]
      rfl

theorem Stamps.answers {handler : Handler η} (hs : handler.Stamps) (state : η)
    (messages : List Message) :
    ∀ answer ∈ (handler.course state messages).answers, answer.IsStamped := by
  induction messages generalizing state with
  | nil => nofun
  | cons message rest ih =>
    intro answer h
    rcases hm : handler state message with ⟨_ | given, next⟩
    · rw [course_cons_none hm] at h
      cases h
    · rw [course_cons_some hm] at h
      rcases List.mem_cons.1 h with rfl | h
      · exact hs state message answer (by rw [hm])
      · exact ih next answer h

end Course

end Handler

/-! ### Two handlers -/

/-- The two parties of a conversation. -/
inductive Party where
  | client
  | server
  deriving DecidableEq

/-- What has been said in some rounds of a conversation. -/
structure Exchange (η θ : Type) where
  /-- The messages that the server was called with. -/
  asked : List Message
  /-- The messages that the client was called with. -/
  told : List Message
  client : η
  server : θ
  /-- The party that gave no answer. -/
  ending : Option Party

/-- **The direct exchange** of messages between two handlers, for some rounds at most. A round is a
request that the server is called with, and its answer, that the client is called with. -/
def exchange (client : Handler η) (server : Handler θ) :
    Nat → Message → η → θ → Exchange η θ
  | 0, _, x, y => ⟨[], [], x, y, none⟩
  | rounds + 1, request, x, y =>
    match server y request with
    | (none, y) => ⟨[request], [], x, y, some .server⟩
    | (some reply, y) =>
      match client x reply with
      | (none, x) => ⟨[request], [reply], x, y, some .client⟩
      | (some next, x) =>
        let more := exchange client server rounds next x y
        { more with asked := request :: more.asked, told := reply :: more.told }

section Exchange
variable {client : Handler η} {server : Handler θ} {x x' : η} {y y' : θ}
  {request reply next : Message}

theorem exchange_succ_unanswered (h : server y request = (none, y')) (rounds : Nat) :
    exchange client server (rounds + 1) request x y = ⟨[request], [], x, y', some .server⟩ := by
  rw [exchange, h]

theorem exchange_succ_last (h : server y request = (some reply, y'))
    (h' : client x reply = (none, x')) (rounds : Nat) :
    exchange client server (rounds + 1) request x y =
      ⟨[request], [reply], x', y', some .client⟩ := by
  rw [exchange, h]
  dsimp only
  rw [h']

theorem exchange_succ_next (h : server y request = (some reply, y'))
    (h' : client x reply = (some next, x')) (rounds : Nat) :
    exchange client server (rounds + 1) request x y =
      { exchange client server rounds next x' y' with
        asked := request :: (exchange client server rounds next x' y').asked
        told := reply :: (exchange client server rounds next x' y').told } := by
  rw [exchange, h]
  dsimp only
  rw [h']

variable (client server)

/-- A round that the server answers has the same request, whatever the client makes of the reply. -/
theorem exchange_one (x : η) (h : server y request = (some reply, y')) :
    (exchange client server 1 request x y).asked = [request] ∧
      (exchange client server 1 request x y).server = y' := by
  rcases hc : client x reply with ⟨_ | next, x'⟩
  · rw [exchange_succ_last h hc]
    exact ⟨rfl, rfl⟩
  · rw [exchange_succ_next h hc]
    exact ⟨rfl, rfl⟩

theorem length_asked_le (rounds : Nat) (request : Message) (x : η) (y : θ) :
    (exchange client server rounds request x y).asked.length ≤ rounds := by
  induction rounds generalizing request x y with
  | zero => exact Nat.le_refl 0
  | succ rounds ih =>
    rcases hs : server y request with ⟨_ | reply, y'⟩
    · rw [exchange_succ_unanswered hs]
      exact Nat.succ_le_succ (Nat.zero_le _)
    rcases hc : client x reply with ⟨_ | next, x'⟩
    · rw [exchange_succ_last hs hc]
      exact Nat.succ_le_succ (Nat.zero_le _)
    · rw [exchange_succ_next hs hc]
      exact Nat.succ_le_succ (ih next x' y')

/-- **An exchange is the course of the server** through what it was asked: its answers are what the
client was told. -/
theorem course_asked (rounds : Nat) (request : Message) (x : η) (y : θ) :
    server.course y (exchange client server rounds request x y).asked =
      ⟨(exchange client server rounds request x y).asked,
        (exchange client server rounds request x y).told,
        (exchange client server rounds request x y).server,
        decide ((exchange client server rounds request x y).ending = some .server)⟩ := by
  induction rounds generalizing request x y with
  | zero => rfl
  | succ rounds ih =>
    rcases hs : server y request with ⟨_ | reply, y'⟩
    · rw [exchange_succ_unanswered hs]
      exact Handler.course_cons_none hs []
    rcases hc : client x reply with ⟨_ | next, x'⟩
    · rw [exchange_succ_last hs hc]
      exact Handler.course_cons_some hs []
    · rw [exchange_succ_next hs hc]
      dsimp only
      rw [Handler.course_cons_some hs, ih]

/-- **An exchange is the course of the client** through what it was told: with the opening, its
answers are what the server was asked, and one message more if nobody has ended the exchange. -/
theorem course_told (rounds : Nat) (request : Message) (x : η) (y : θ) :
    ∃ answers, client.course x (exchange client server rounds request x y).told =
      ⟨(exchange client server rounds request x y).told, answers,
        (exchange client server rounds request x y).client,
        decide ((exchange client server rounds request x y).ending = some .client)⟩ ∧
      (exchange client server rounds request x y).asked <+: request :: answers ∧
      ((exchange client server rounds request x y).ending ≠ none →
        (exchange client server rounds request x y).asked = request :: answers) := by
  induction rounds generalizing request x y with
  | zero => exact ⟨[], rfl, List.nil_prefix, fun h => absurd rfl h⟩
  | succ rounds ih =>
    rcases hs : server y request with ⟨_ | reply, y'⟩
    · rw [exchange_succ_unanswered hs]
      exact ⟨[], rfl, List.prefix_rfl, fun _ => rfl⟩
    rcases hc : client x reply with ⟨_ | next, x'⟩
    · rw [exchange_succ_last hs hc]
      exact ⟨[], Handler.course_cons_none hc [], List.prefix_rfl, fun _ => rfl⟩
    · rw [exchange_succ_next hs hc]
      dsimp only
      obtain ⟨answers, ha, hp, he⟩ := ih next x' y'
      refine ⟨next :: answers, ?_, (List.prefix_cons_inj request).2 hp,
        fun h => congrArg _ (he h)⟩
      rw [Handler.course_cons_some hc, ha]

/-- **Courses that lead each other are an exchange.** If what the client was told begins the
answers of the server, and what the server was asked begins the opening and the answers of the
client, then each of them was called with the messages of so many rounds of the exchange. -/
theorem course_eq_exchange {asked told : List Message} {opening : Message} {x : η} {y : θ}
    (ha : asked <+: opening :: (client.course x told).answers)
    (ht : told <+: (server.course y asked).answers) :
    (let e := exchange client server (server.course y asked).heard.length opening x y;
      (server.course y asked).heard = e.asked ∧ (server.course y asked).state = e.server) ∧
    (let e := exchange client server (client.course x told).heard.length opening x y;
      (client.course x told).heard = e.told ∧ (client.course x told).state = e.client) := by
  induction asked generalizing told opening x y with
  | nil =>
    obtain rfl : told = [] := List.prefix_nil.1 ht
    exact ⟨⟨rfl, rfl⟩, ⟨rfl, rfl⟩⟩
  | cons request asked ih =>
    obtain ⟨rfl, hasked⟩ := List.cons_prefix_cons.1 ha
    clear ha
    rcases hs : server y request with ⟨_ | reply, y'⟩
    · rw [Handler.course_cons_none hs] at ht ⊢
      obtain rfl : told = [] := List.prefix_nil.1 ht
      have he : exchange client server 1 request x y = _ := exchange_succ_unanswered hs 0
      refine ⟨⟨?_, ?_⟩, ⟨rfl, rfl⟩⟩
      · exact (congrArg Exchange.asked he).symm
      · exact (congrArg Exchange.server he).symm
    rw [Handler.course_cons_some hs] at ht ⊢
    cases told with
    | nil =>
      obtain rfl : asked = [] := List.prefix_nil.1 hasked
      have ⟨hone, hserver⟩ := exchange_one client server x hs
      exact ⟨⟨hone.symm, hserver.symm⟩, ⟨rfl, rfl⟩⟩
    | cons first told =>
      obtain ⟨rfl, htold⟩ := List.cons_prefix_cons.1 ht
      rcases hc : client x first with ⟨_ | next, x'⟩
      · rw [Handler.course_cons_none hc] at hasked ⊢
        obtain rfl : asked = [] := List.prefix_nil.1 hasked
        have he := exchange_succ_last hs hc 0
        refine ⟨⟨?_, ?_⟩, ⟨?_, ?_⟩⟩
        · exact (congrArg Exchange.asked he).symm
        · exact (congrArg Exchange.server he).symm
        · exact (congrArg Exchange.told he).symm
        · exact (congrArg Exchange.client he).symm
      · rw [Handler.course_cons_some hc] at hasked ⊢
        obtain ⟨⟨hheard, hserver⟩, ⟨hreplies, hclient⟩⟩ := ih hasked htold
        have heS := exchange_succ_next hs hc (server.course y' asked).heard.length
        have heC := exchange_succ_next hs hc (client.course x' told).heard.length
        refine ⟨⟨?_, ?_⟩, ⟨?_, ?_⟩⟩
        · exact (congrArg _ hheard).trans (congrArg Exchange.asked heS).symm
        · exact hserver.trans (congrArg Exchange.server heS).symm
        · exact (congrArg _ hreplies).trans (congrArg Exchange.told heC).symm
        · exact hclient.trans (congrArg Exchange.client heC).symm

/-- **Courses that use each other up have ended.** If what each party was sent is exactly what the
other one answered, then one of them gave no answer at last. -/
theorem exchange_ended {asked told : List Message} {opening : Message} {x : η} {y : θ}
    (ha : asked = opening :: (client.course x told).answers)
    (ht : told = (server.course y asked).answers) :
    let e := exchange client server asked.length opening x y
    e.ending ≠ none ∧ asked = e.asked ∧ told = e.told := by
  induction asked generalizing told opening x y with
  | nil => cases ha
  | cons request asked ih =>
    obtain ⟨rfl, hasked⟩ := List.cons.inj ha
    clear ha
    rcases hs : server y request with ⟨_ | reply, y'⟩
    · rw [Handler.course_cons_none hs] at ht
      obtain rfl : told = [] := ht
      obtain rfl : asked = [] := hasked
      intro e
      have he : e = _ := exchange_succ_unanswered hs _
      rw [he]
      exact ⟨nofun, rfl, rfl⟩
    rw [Handler.course_cons_some hs] at ht
    obtain rfl : told = reply :: (server.course y' asked).answers := ht
    rcases hc : client x reply with ⟨_ | next, x'⟩
    · rw [Handler.course_cons_none hc] at hasked
      obtain rfl : asked = [] := hasked
      intro e
      have he : e = _ := exchange_succ_last hs hc _
      rw [he]
      exact ⟨nofun, rfl, rfl⟩
    · rw [Handler.course_cons_some hc] at hasked
      obtain ⟨hended, hheard, hreplies⟩ := ih hasked rfl
      intro e
      have he : e = _ := exchange_succ_next hs hc asked.length
      rw [he]
      exact ⟨hended, congrArg _ hheard, congrArg _ hreplies⟩

end Exchange

end RouteCosts
