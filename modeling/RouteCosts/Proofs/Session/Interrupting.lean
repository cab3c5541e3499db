import RouteCosts.Proofs.Session.Scripts
import RouteCosts.Proofs.Session.Waiting

/-!
# Waiting on a disturbed line

Reads may be interrupted, or fail while nothing comes. A blocking session repeats an interrupted
read, so that interruptions show nowhere (`Interrupted.waits`). Any other fault makes the wait that
meets it fail. If all reads before it bring bytes, and these are whole frames, then the session
holds nothing when it meets the fault, neither pending nor in a framer, and is afterwards as if the
fault had not been there (`wait_failure`). The main statement is `waits_disturbed`.
-/

namespace RouteCosts

/-- What a wait reports of a fault that a read has met. -/
def Fault.reported (fault : Fault) : Fault :=
  if fault.kind = .wouldBlock then .readTimedOut else fault

/-- The second script is the first with interruptions put into it. -/
inductive Interrupted : List Arrival → List Arrival → Prop where
  | nil : Interrupted [] []
  | cons (arrival : Arrival) {script other : List Arrival} (h : Interrupted script other) :
    Interrupted (arrival :: script) (arrival :: other)
  | interruption {fault : Fault} (hf : fault.kind = .interrupted) {script other : List Arrival}
    (h : Interrupted script other) : Interrupted script (.failure fault :: other)

theorem Interrupted.append_left {script other : List Arrival} (h : Interrupted script other)
    (front : List Arrival) : Interrupted (front ++ script) (front ++ other) := by
  induction front with
  | nil => exact h
  | cons arrival front ih => exact .cons arrival ih

theorem Interrupted.within (limit : Nat) {script other : List Arrival}
    (h : Interrupted script other) :
    Interrupted (script.flatMap (Arrival.within limit)) (other.flatMap (Arrival.within limit)) := by
  induction h with
  | nil => exact .nil
  | cons arrival h ih => exact ih.append_left (arrival.within limit)
  | interruption hf h ih => exact .interruption hf ih

namespace Session

/-! ### Interruptions -/

/-- By induction on the interruptions: the loop passes them over, and what is left of the scripts is
the same again but for interruptions. -/
theorem waitFrom_interrupted {reads other : List Arrival} (h : Interrupted reads other)
    (session : Session) (framer : Framer) :
    ∃ left, Interrupted (session.waitFrom framer reads).2.line.arrivals left ∧
      session.waitFrom framer other = ((session.waitFrom framer reads).1,
        (session.waitFrom framer reads).2.withArrivals left) := by
  induction h generalizing session framer with
  | nil => exact ⟨[], .nil, rfl⟩
  | interruption hf h ih =>
    obtain ⟨left, hl, hw⟩ := ih session framer
    refine ⟨left, hl, ?_⟩
    rw [waitFrom, if_pos hf, hw]
  | @cons arrival reads other h ih =>
    rcases arrival with (_ | ⟨byte, bytes⟩) | fault | delay
    · exact ⟨other, h, rfl⟩
    · rw [waitFrom, waitFrom]
      rcases (session.countRead (byte :: bytes)).accept framer (byte :: bytes) with
        ⟨next | message | error, mid⟩
      · exact ih mid next
      · exact ⟨other, h, rfl⟩
      · exact ⟨other, h, rfl⟩
    · rw [waitFrom, waitFrom]
      by_cases hi : fault.kind = .interrupted
      · rw [if_pos hi, if_pos hi]
        exact ih session framer
      · rw [if_neg hi, if_neg hi]
        split
        · exact ⟨other, h, rfl⟩
        · exact ⟨other, h, rfl⟩
    · exact ih session framer

theorem wait_interrupted {session : Session} {other : List Arrival}
    (h : Interrupted session.line.arrivals other) :
    ∃ left, Interrupted session.wait.2.line.arrivals left ∧
      (session.withArrivals other).wait = (session.wait.1, session.wait.2.withArrivals left) := by
  have hline := line_replay session
  rw [wait_withArrivals, wait]
  rcases hreplay : session.replay with ⟨next | message | error, mid⟩
  all_goals
    rw [hreplay] at hline
    rw [← hline] at h
  · exact waitFrom_interrupted h mid next
  · exact ⟨other, h, rfl⟩
  · exact ⟨other, h, rfl⟩

/-- **Interruptions change no answer**, and nothing of the session but the reads to come. -/
theorem waits_interrupted {session : Session} {other : List Arrival}
    (h : Interrupted session.line.arrivals other) (calls : Nat) :
    ∃ left, Interrupted (waits calls session).2.line.arrivals left ∧
      waits calls (session.withArrivals other) =
        ((waits calls session).1, (waits calls session).2.withArrivals left) := by
  induction calls with
  | zero => exact ⟨other, h, rfl⟩
  | succ calls ih =>
    obtain ⟨left, hl, hw⟩ := ih
    obtain ⟨last, hlast, hwait⟩ := wait_interrupted hl
    refine ⟨last, ?_, ?_⟩
    · rw [waits_succ]
      exact hlast
    · rw [waits_succ, waits_succ, hw, hwait]

/-! ### Reads after a message -/

/-- A message that came on some reads comes on them whatever the reads after them are. -/
theorem waitFrom_append {reads : List Arrival} {session after : Session} {framer : Framer}
    {message : Message} (h : session.waitFrom framer reads = (.ok message, after))
    (more : List Arrival) :
    session.waitFrom framer (reads ++ more) =
      (.ok message, after.withArrivals (after.line.arrivals ++ more)) := by
  induction reads generalizing session framer with
  | nil => cases h
  | cons arrival reads ih =>
    rcases arrival with (_ | ⟨byte, bytes⟩) | fault | delay
    · cases h
    · rw [waitFrom] at h
      rw [List.cons_append, waitFrom]
      generalize (session.countRead (byte :: bytes)).accept framer (byte :: bytes) = accepted at h ⊢
      rcases accepted with ⟨next | given | error, mid⟩
      · exact ih h
      · cases h
        rfl
      · cases h
    · rw [waitFrom] at h
      rw [List.cons_append, waitFrom]
      by_cases hi : fault.kind = .interrupted
      · rw [if_pos hi] at h ⊢
        exact ih h
      · rw [if_neg hi] at h
        split at h <;> cases h
    · exact ih h

theorem wait_append {session after : Session} {message : Message}
    (h : session.wait = (.ok message, after)) (more : List Arrival) :
    (session.withArrivals (session.line.arrivals ++ more)).wait =
      (.ok message, after.withArrivals (after.line.arrivals ++ more)) := by
  have hline := line_replay session
  rw [wait] at h
  rw [wait_withArrivals]
  rcases hreplay : session.replay with ⟨next | given | error, mid⟩
  all_goals
    rw [hreplay] at h hline
    rw [← hline]
  · exact waitFrom_append h more
  · cases h
    rfl
  · cases h

theorem waits_append {session : Session} {calls : Nat}
    (h : ∀ answer ∈ (waits calls session).1, ∃ message, answer = .ok message)
    (more : List Arrival) :
    waits calls (session.withArrivals (session.line.arrivals ++ more)) =
      ((waits calls session).1, (waits calls session).2.withArrivals
        ((waits calls session).2.line.arrivals ++ more)) := by
  induction calls with
  | zero => rfl
  | succ calls ih =>
    rw [waits_succ] at h ⊢
    obtain ⟨message, hm⟩ := h _ (List.mem_append_right _ List.mem_cons_self)
    have hwait : (waits calls session).2.wait = (.ok message, (waits calls session).2.wait.2) :=
      Prod.ext hm rfl
    rw [ih fun answer ha => h answer (List.mem_append_left _ ha), waits_succ]
    dsimp only
    rw [wait_append hwait, hm]

theorem waits_add (calls more : Nat) (session : Session) :
    waits (calls + more) session =
      ((waits calls session).1 ++ (waits more (waits calls session).2).1,
        (waits more (waits calls session).2).2) := by
  induction more with
  | zero => rw [Nat.add_zero, waits, List.append_nil]
  | succ more ih => rw [← Nat.add_assoc, waits_succ, ih, waits_succ, List.append_assoc]

theorem length_waits (calls : Nat) (session : Session) :
    (waits calls session).1.length = calls := by
  induction calls with
  | zero => rfl
  | succ calls ih => rw [waits_succ, List.length_append, ih, List.length_singleton]

/-! ### A fault between two messages -/

/-- **A fault when nothing is pending** is reported, and leaves the session as it was. -/
theorem wait_failure {session : Session} (hp : session.pending = []) {fault : Fault}
    (hf : fault.kind ≠ .interrupted) (rest : List Arrival) :
    (session.withArrivals (.failure fault :: rest)).wait =
      (.error (.transport fault.reported), session.withArrivals rest) := by
  have hreplay : session.replay = (.more .new, session) := by
    rw [replay, hp]
    rfl
  rw [wait_withArrivals, hreplay]
  dsimp only
  rw [waitFrom, if_neg hf, Fault.reported]
  split <;> rfl

theorem Plain.eq_nil_of_upcoming {session : Session} (hs : session.Plain)
    (h : session.upcoming = []) : session.pending = [] ∧ session.line.arrivals = [] := by
  obtain ⟨hp, hb⟩ := List.append_eq_nil_iff.1 h
  refine ⟨hp, List.eq_nil_iff_forall_not_mem.2 fun arrival ha => ?_⟩
  obtain ⟨byte, bytes, rfl, -⟩ := (hs.chunk arrival ha).exists_cons
  exact List.cons_ne_nil byte bytes (List.flatMap_eq_nil_iff.1 hb _ ha)

theorem insertIdx_append {α : Type} {front : List α} {place : Nat} (h : front.length = place)
    (back : List α) (x : α) : (front ++ back).insertIdx place x = front ++ x :: back := by
  subst h
  induction front with
  | nil => rfl
  | cons y front ih =>
    rw [List.cons_append, List.length_cons, List.insertIdx_succ_cons, ih, List.cons_append]

section Whole
variable {session : Session} (hs : session.Plain) {frames : List Frame}
  (h : session.upcoming = frames.flatMap Frame.bytes)
include hs h

/-- **Whole frames, and any reads after them**: the waits for the frames make the reads that bring
them and no other. -/
theorem waits_whole (more : List Arrival) {calls : Nat} (hc : calls ≤ frames.length) :
    waits calls (session.withArrivals (session.line.arrivals ++ more)) =
      ((waits calls session).1, (waits calls session).2.withArrivals
        ((waits calls session).2.line.arrivals ++ more)) := by
  rw [← List.append_nil (frames.flatMap Frame.bytes)] at h
  obtain ⟨hanswers, -⟩ := waits_frames hs h hc
  refine waits_append (fun answer ha => ?_) more
  rw [hanswers] at ha
  obtain ⟨frame, -, rfl⟩ := List.mem_map.1 ha
  exact ⟨frame.message, rfl⟩

/-- After the waits for all frames the session holds nothing, and stands before the other reads. -/
theorem waits_all (more : List Arrival) :
    (waits frames.length session).2.pending = [] ∧
      waits frames.length (session.withArrivals (session.line.arrivals ++ more)) =
        ((waits frames.length session).1,
          (waits frames.length session).2.withArrivals more) := by
  obtain ⟨-, hplain, -, hafter⟩ :=
    waits_frames hs (h.trans (List.append_nil _).symm) (Nat.le_refl _)
  rw [List.drop_length, List.flatMap_nil, List.nil_append] at hafter
  obtain ⟨hp, ha⟩ := hplain.eq_nil_of_upcoming hafter
  refine ⟨hp, ?_⟩
  rw [waits_whole hs h more (Nat.le_refl _), ha, List.nil_append]

/-- **A fault after whole frames** is one answer more, in its place, and nothing else. -/
theorem waits_fault {fault : Fault} (hf : fault.kind ≠ .interrupted) (rest : List Arrival)
    (calls : Nat) :
    let calm := session.withArrivals (session.line.arrivals ++ rest)
    waits (frames.length + 1 + calls)
        (session.withArrivals (session.line.arrivals ++ .failure fault :: rest)) =
      ((waits (frames.length + calls) calm).1.insertIdx frames.length
          (.error (.transport fault.reported)),
        (waits (frames.length + calls) calm).2) := by
  intro calm
  obtain ⟨hp, hfaulty⟩ := waits_all hs h (.failure fault :: rest)
  obtain ⟨-, hcalm⟩ := waits_all hs h rest
  rw [waits_add, waits_succ, hfaulty]
  dsimp only
  rw [wait_failure hp hf, waits_add frames.length calls calm, hcalm]
  dsimp only
  rw [insertIdx_append (length_waits _ _), List.append_assoc]
  rfl

end Whole

/-- **A disturbed line loses nothing.** Whatever reads are interrupted, the calls of `wait` give the
answers that they give on the script without interruptions, and leave the same session but for the
reads to come. Any other fault that comes after reads of whole frames is the answer to one call
more, after those that give the frames; these are not disturbed, and the calls after it give what
they give without it and leave the very same session. -/
theorem waits_disturbed (departures : List Departure) (patience : Option Nat) :
    let session := fun script => new (.new Kind.maxLength script departures) patience
    (∀ script other, Interrupted script other → ∀ calls,
      (waits calls (session other)).1 = (waits calls (session script)).1 ∧
        (waits calls (session script)).2.Alike (waits calls (session other)).2) ∧
    ∀ (reads : List (List UInt8)) (frames : List Frame) (fault : Fault) (rest : List Arrival),
      (∀ read ∈ reads, read ≠ []) → reads.flatten = frames.flatMap Frame.bytes →
      fault.kind ≠ .interrupted →
      let calm := session (reads.map .data ++ rest)
      let disturbed := session (reads.map .data ++ .failure fault :: rest)
      (∀ calls ≤ frames.length,
        (waits calls disturbed).1 = (waits calls calm).1 ∧
          (waits calls calm).2.Alike (waits calls disturbed).2) ∧
      ∀ calls, waits (frames.length + 1 + calls) disturbed =
        ((waits (frames.length + calls) calm).1.insertIdx frames.length
            (.error (.transport fault.reported)),
          (waits (frames.length + calls) calm).2) := by
  intro session
  refine ⟨fun script other h calls => ?_, fun reads frames fault rest hne hb hf => ?_⟩
  · have hcut : Interrupted (session script).line.arrivals
        (other.flatMap (Arrival.within Kind.maxLength)) := h.within Kind.maxLength
    obtain ⟨left, -, hw⟩ := waits_interrupted hcut calls
    have hother : session other =
        (session script).withArrivals (other.flatMap (Arrival.within Kind.maxLength)) := rfl
    rw [hother, hw]
    exact ⟨rfl, left, rfl⟩
  · intro calm disturbed
    have hs : (session (reads.map .data)).Plain := plain_new hne departures patience
    have hup : (session (reads.map .data)).upcoming = frames.flatMap Frame.bytes :=
      (upcoming_new reads departures patience).trans hb
    have hscript (more : List Arrival) : session (reads.map .data ++ more) =
        (session (reads.map .data)).withArrivals ((session (reads.map .data)).line.arrivals ++
          more.flatMap (Arrival.within Kind.maxLength)) := by
      show new (.new _ (_ ++ more) departures) patience = _
      unfold Line.new
      rw [List.flatMap_append]
      rfl
    have hdisturbed : disturbed = _ := hscript (.failure fault :: rest)
    have hcalm : calm = _ := hscript rest
    refine ⟨fun calls hc => ?_, fun calls => ?_⟩
    · rw [hdisturbed, hcalm, waits_whole hs hup _ hc, waits_whole hs hup _ hc]
      exact ⟨rfl, _, rfl⟩
    · rw [hdisturbed, hcalm]
      exact waits_fault hs hup hf _ calls

/-- A read interrupted within a message, and one that would have to wait before the next message. -/
theorem waits_disturbed_twice :
    let first := Message.stamped 4 (.routeResponse 12)
    let second := Message.stamped 5 .statusResponse
    let signal : Fault := ⟨.interrupted, "signal"⟩
    let idle : Fault := ⟨.wouldBlock, "nothing there"⟩
    let reads := [first.encode.take 7, first.encode.drop 7]
    let session := fun script => new (.new Kind.maxLength script []) none
    let calm := session (reads.map .data ++ [.data second.encode])
    let interrupted := session [.data (first.encode.take 7), .failure signal,
      .data (first.encode.drop 7), .data second.encode]
    let disturbed := session (reads.map .data ++ .failure idle :: [.data second.encode])
    (waits 2 interrupted).1 = [.ok first, .ok second] ∧
      (waits 3 disturbed).1 = [.ok first, .error (.transport .readTimedOut), .ok second] ∧
      (waits 3 disturbed).2.stats = (waits 2 calm).2.stats := by
  have hcalm : (waits 2 (new (.new Kind.maxLength
      [.data ((Message.stamped 4 (.routeResponse 12)).encode.take 7),
        .data ((Message.stamped 4 (.routeResponse 12)).encode.drop 7),
        .data (Message.stamped 5 .statusResponse).encode] []) none)).1 =
      [.ok (.stamped 4 (.routeResponse 12)), .ok (.stamped 5 .statusResponse)] := by rfl
  intro first second signal idle reads session calm interrupted disturbed
  obtain ⟨hinterrupted, hfault⟩ := waits_disturbed [] none
  have hscript : Interrupted (reads.map .data ++ [.data second.encode])
      [.data (first.encode.take 7), .failure signal, .data (first.encode.drop 7),
        .data second.encode] :=
    .cons _ (.interruption rfl (.cons _ (.cons _ .nil)))
  obtain ⟨-, hlater⟩ := hfault reads [.ofBody 4 (.routeResponse 12)] idle [.data second.encode]
    (by decide) (by decide) (by decide)
  have hwaits : waits 3 disturbed = ((waits 2 calm).1.insertIdx 1
      (.error (.transport .readTimedOut)), (waits 2 calm).2) := hlater 1
  refine ⟨(hinterrupted _ _ hscript 2).1.trans hcalm, ?_, ?_⟩
  · rw [hwaits, show (waits 2 calm).1 = _ from hcalm]
    rfl
  · rw [hwaits]

end Session

end RouteCosts
