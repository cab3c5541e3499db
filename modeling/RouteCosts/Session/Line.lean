import RouteCosts.Fault

/-!
# Lines

A line carries bytes both ways. What a line will do is written down beforehand: the reads it will
serve, one after the other, and how it will take writes and flushes. A line whose reads are used up
is at its end, and one whose answers to writes are used up takes everything.
-/

namespace RouteCosts

/-- What a read will meet. -/
inductive Arrival where
  /-- Bytes, or the end of the stream if there are none. -/
  | data (bytes : List UInt8)
  | failure (fault : Fault)
  /-- The read has to wait for so many milliseconds before it meets the next arrival. -/
  | stall (delay : Nat)
  deriving DecidableEq

/-- What a write or a flush will meet. -/
inductive Departure where
  /-- A write takes at most so many bytes. -/
  | accept (limit : Nat)
  /-- A write fails. -/
  | failure (fault : Fault)
  /-- A flush succeeds or fails. Writes before it take everything. -/
  | flush (result : Option Fault)
  deriving DecidableEq

/-- A line, and what was written to it so far. -/
structure Line where
  arrivals : List Arrival
  departures : List Departure
  written : List UInt8
  deriving DecidableEq

/-- Bytes in pieces that fit a buffer; at most `fuel` of them are cut off. -/
def pieces (limit : Nat) : Nat → List UInt8 → List (List UInt8)
  | 0, bytes => [bytes]
  | fuel + 1, bytes =>
    if bytes.length ≤ limit then [bytes]
    else bytes.take limit :: pieces limit fuel (bytes.drop limit)

/-- An arrival as the reads with a buffer of limited size will meet it. -/
def Arrival.within (limit : Nat) : Arrival → List Arrival
  | data bytes => (pieces limit bytes.length bytes).map data
  | other => [other]

/-- The bytes that an arrival brings. -/
def Arrival.bytes : Arrival → List UInt8
  | data bytes => bytes
  | _ => []

/-- The line that is read with a buffer of limited size. -/
def Line.new (limit : Nat) (arrivals : List Arrival) (departures : List Departure) : Line :=
  ⟨arrivals.flatMap (Arrival.within limit), departures, []⟩

theorem flatten_pieces (limit fuel : Nat) (bytes : List UInt8) :
    (pieces limit fuel bytes).flatten = bytes := by
  induction fuel generalizing bytes with
  | zero => simp [pieces]
  | succ fuel ih =>
    rw [pieces]
    split
    · simp
    · simp [ih]

/-- Cutting to size loses no byte. -/
theorem bytes_within (limit : Nat) (arrival : Arrival) :
    (arrival.within limit).flatMap Arrival.bytes = arrival.bytes := by
  cases arrival with
  | data bytes =>
    rw [Arrival.within, List.flatMap_map]
    simpa [Arrival.bytes] using flatten_pieces limit bytes.length bytes
  | failure => rfl
  | stall => rfl

/-- The ways of writing to a line. -/
inductive Writer where
  /-- Wait until all is written. A write that was interrupted is tried again. -/
  | blocking
  /-- Let others work meanwhile. Whether a write that was interrupted is tried again or ends the
  sending is up to the library that does the writing, and not to the program: `retries` leaves it
  open, and what is proved holds for both. The default is how the program was seen to behave. -/
  | cooperative (retries : Bool := true)
  deriving DecidableEq

namespace Writer

/-- What is said when a write takes nothing. -/
def zeroText : Writer → String
  | blocking => "failed to write whole buffer"
  | cooperative _ => "write zero"

/-- A write that failed is tried again. -/
def repeats : Writer → Fault → Bool
  | blocking, fault => fault.kind == .interrupted
  | cooperative retries, fault => retries && fault.kind == .interrupted

/-- Write all of some bytes: the fault that stopped it, the bytes taken, and the answers to writes
that are left. -/
def writeAll (writer : Writer) (bytes : List UInt8) :
    List Departure → Option Fault × List UInt8 × List Departure
  | [] => (none, bytes, [])
  | departure :: rest =>
    if bytes.isEmpty then (none, [], departure :: rest)
    else match departure with
      | .flush _ => (none, bytes, departure :: rest)
      | .accept 0 => (some ⟨.writeZero, writer.zeroText⟩, [], rest)
      | .accept (limit + 1) =>
        let (fault, taken, left) := writeAll writer (bytes.drop (limit + 1)) rest
        (fault, bytes.take (limit + 1) ++ taken, left)
      | .failure fault =>
        if writer.repeats fault then writeAll writer bytes rest
        else (some fault, [], rest)

/-- Flush: the fault that it met, and the answers that are left. -/
def flush : List Departure → Option Fault × List Departure
  | .flush result :: rest => (result, rest)
  | departures => (none, departures)

/-- Write all of some bytes to a line and flush it. After a fault in writing there is no flush. -/
def send (writer : Writer) (line : Line) (bytes : List UInt8) : Option Fault × Line :=
  let (fault, taken, departures) := writer.writeAll bytes line.departures
  let written := line.written ++ taken
  match fault with
  | some fault => (some fault, ⟨line.arrivals, departures, written⟩)
  | none =>
    let (fault, departures) := flush departures
    (fault, ⟨line.arrivals, departures, written⟩)

/-- What was taken is the beginning of what was to be written, and all of it if nothing failed. -/
theorem writeAll_taken (writer : Writer) (bytes : List UInt8) (departures : List Departure) :
    (writer.writeAll bytes departures).2.1 <+: bytes ∧
      ((writer.writeAll bytes departures).1 = none →
        (writer.writeAll bytes departures).2.1 = bytes) := by
  induction departures generalizing bytes with
  | nil => simp [writeAll]
  | cons departure rest ih =>
    rw [writeAll.eq_def]
    dsimp only
    split
    · simp_all
    · cases departure with
      | flush => simp
      | failure fault =>
        dsimp only
        split
        · exact ih bytes
        · simp
      | accept limit =>
        cases limit with
        | zero => simp
        | succ limit =>
          obtain ⟨hp, he⟩ := ih (bytes.drop (limit + 1))
          refine ⟨?_, fun h => ?_⟩
          · obtain ⟨more, hm⟩ := hp
            exact ⟨more, by simp [List.append_assoc, hm]⟩
          · simp [he h]

end Writer

end RouteCosts
