import Beacon.Color
import Beacon.Text.Utf8

/-!
# Sinks

A sink is a writer of bytes as its user sees it: each call of `write` takes some of the bytes
offered or fails, each call of `flush` succeeds or fails. What a sink answers is a function of the
number of the call, so every behaviour can be given. Above single calls stand the two ways in which
this library writes: a whole buffer, and a frame, which is a line written whole and then flushed.
-/

namespace Beacon

/-- The causes of failure that a sink, or opening one, can have. -/
inductive IoError.Kind
  | brokenPipe | timedOut | wouldBlock | interrupted | writeZero | invalidInput | notFound
  deriving DecidableEq, Repr

/-- A failure: its cause, and a text for people. -/
structure IoError where
  kind : IoError.Kind
  message : String
  deriving DecidableEq, Repr

/-- The failure of a sink that takes nothing of what it is offered. -/
def IoError.writeZero : IoError := ⟨.writeZero, "failed to write whole buffer"⟩

/-- The answer to one call of `write`. -/
inductive Intake
  | whole
  | atMost (limit : Nat)
  | fails (error : IoError)
  deriving DecidableEq, Repr

/-- An interrupted call has taken nothing and is to be made again. -/
def Intake.interrupted : Intake → Bool
  | fails e => e.kind = .interrupted
  | _ => false

/-- What a sink answers to its calls, which are counted from 1. From the call `settled` on the
answers stay the same, and are not interruptions; so writing a buffer always comes to an end. -/
structure Behaviour where
  write : Nat → Intake
  flush : Nat → Option IoError
  settled : Nat
  write_settled : ∀ n, settled ≤ n → write n = write settled
  flush_settled : ∀ n, settled ≤ n → flush n = flush settled
  lively : (write settled).interrupted = false

namespace Behaviour

/-- An interruption comes before the calls that have settled. -/
theorem lt_settled (b : Behaviour) {n : Nat} (h : (b.write n).interrupted = true) :
    n < b.settled := by
  apply Nat.lt_of_not_le
  intro le
  rw [b.write_settled n le, b.lively] at h
  contradiction

/-- The number after the last one in a table. -/
def horizon {α : Type} (table : List (Nat × α)) : Nat :=
  table.foldr (fun row h => max (row.1 + 1) h) 0

theorem lookup_eq_none {α : Type} {table : List (Nat × α)} {n : Nat} (h : horizon table ≤ n) :
    table.lookup n = none := by
  induction table with
  | nil => rfl
  | cons row rest ih =>
    have bound : row.1 + 1 ≤ n ∧ horizon rest ≤ n := by
      have : max (row.1 + 1) (horizon rest) ≤ n := h
      omega
    have ne : (n == row.1) = false := beq_eq_false_iff_ne.2 (by omega)
    rw [List.lookup_cons, ne]
    exact ih bound.2

/-- The usual answer to a write: all that is offered, or at most some bytes of it. -/
def usual : Option Nat → Intake
  | none => .whole
  | some limit => .atMost limit

/-- The behaviour that gives the usual answer, except for the calls in two tables. -/
def ofTables (limit : Option Nat) (writes : List (Nat × Intake)) (flushes : List (Nat × IoError)) :
    Behaviour where
  write n := (writes.lookup n).getD (usual limit)
  flush n := flushes.lookup n
  settled := max (horizon writes) (horizon flushes)
  write_settled n h := by
    rw [lookup_eq_none (by omega : horizon writes ≤ n), lookup_eq_none (Nat.le_max_left _ _)]
  flush_settled n h := by
    rw [lookup_eq_none (by omega : horizon flushes ≤ n), lookup_eq_none (Nat.le_max_right _ _)]
  lively := by
    rw [lookup_eq_none (Nat.le_max_left _ _)]
    cases limit <;> rfl

end Behaviour

/-- A sink: how it behaves, how often it has been called, the bytes it has taken, and how many lines
they complete. -/
structure Sink where
  behaviour : Behaviour
  writes : Nat
  flushes : Nat
  taken : Array UInt8
  completed : Nat

namespace Sink

/-- The byte that ends a line. -/
def newline : UInt8 := 10

/-- A sink that has not been used. -/
def fresh (b : Behaviour) : Sink := ⟨b, 0, 0, #[], 0⟩

/-- The sink after it has taken some bytes. -/
def take (s : Sink) (data : List UInt8) : Sink :=
  { s with taken := s.taken ++ data, completed := s.completed + data.count newline }

/-- One call of `write`: how many of the bytes were taken, or why none were. -/
def write (s : Sink) (data : List UInt8) : Except IoError Nat × Sink :=
  let s := { s with writes := s.writes + 1 }
  match s.behaviour.write s.writes with
  | .whole => (.ok data.length, s.take data)
  | .atMost limit => (.ok (min limit data.length), s.take (data.take limit))
  | .fails e => (.error e, s)

/-- One call of `flush`. -/
def flush (s : Sink) : Except IoError Unit × Sink :=
  let s := { s with flushes := s.flushes + 1 }
  match s.behaviour.flush s.flushes with
  | none => (.ok (), s)
  | some e => (.error e, s)

theorem write_behaviour (s : Sink) (data : List UInt8) :
    (s.write data).2.behaviour = s.behaviour := by
  unfold write
  dsimp only
  split <;> rfl

theorem write_writes (s : Sink) (data : List UInt8) : (s.write data).2.writes = s.writes + 1 := by
  unfold write
  dsimp only
  split <;> rfl

/-- A call that fails got this answer from the behaviour. -/
theorem write_eq_error {s : Sink} {data : List UInt8} {e : IoError}
    (h : (s.write data).1 = .error e) : s.behaviour.write (s.writes + 1) = .fails e := by
  unfold write at h
  dsimp only at h
  split at h <;> simp_all

/-- Writes all bytes: calls `write` until nothing is left, makes an interrupted call again, and
gives up at any other failure or when nothing is taken. -/
def writeAll (s : Sink) (data : List UInt8) : Except IoError Unit × Sink :=
  if data = [] then (.ok (), s)
  else
    match answer : (s.write data).1 with
    | .ok 0 => (.error .writeZero, (s.write data).2)
    | .ok (n + 1) => (s.write data).2.writeAll (data.drop (n + 1))
    | .error e =>
      if e.kind = .interrupted then (s.write data).2.writeAll data
      else (.error e, (s.write data).2)
termination_by (s.behaviour.settled - s.writes) + data.length
decreasing_by
  · rename_i nonempty
    have : 0 < data.length := List.length_pos_iff.2 nonempty
    rw [write_behaviour, write_writes, List.length_drop]
    omega
  · rename_i interrupted
    have bound := s.behaviour.lt_settled (n := s.writes + 1)
      (by simp [write_eq_error answer, Intake.interrupted, interrupted])
    rw [write_behaviour, write_writes]
    omega

/-- Writes a frame: the line of its colour, whole, and then a flush, so that the light never waits
for the rest of a frame. -/
def writeFrame (s : Sink) (c : Color) : Except IoError Unit × Sink :=
  match s.writeAll (Text.encode c.line) with
  | (.ok (), s) => s.flush
  | (.error e, s) => (.error e, s)

/-- The bytes taken, cut at the ends of lines; the last part is what no line end follows. -/
def parts (s : Sink) : List (List UInt8) := Text.fields newline s.taken.toList

/-- The completed lines. -/
def lines (s : Sink) : List (List UInt8) := s.parts.dropLast

/-- The bytes after the last completed line. -/
def pending (s : Sink) : List UInt8 := s.parts.getLastD []

end Sink

end Beacon
