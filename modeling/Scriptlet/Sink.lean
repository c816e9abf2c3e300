import Scriptlet.Core

/-!
# Output sinks

A sink keeps the bytes that a program prints.  It may have room for a limited number of bytes
only: a write that does not fit leaves in the sink what does, and fails.  Whether a sink can be
flushed is a property of the sink.

## Main definitions

* `Sink` — what has been written, and what can still be.
* `Sink.write`, `Sink.flush` — the operations, with the failure they end in, if any.
* `SinkFailure` — why a sink refuses an operation.

## Main results

* `Sink.write_of_room_none`, `Sink.write_of_le`, `Sink.write_of_lt` — what a write does, by the room
  that there is.
-/

namespace Scriptlet

/-- Why a sink refuses an operation. -/
inductive SinkFailure
  /-- The bytes did not all fit. -/
  | full
  /-- The sink cannot be flushed. -/
  | flushRefused
  deriving DecidableEq, Repr

/-- The wording of a failure. -/
def SinkFailure.message : SinkFailure → String
  | .full => "sink full"
  | .flushRefused => "flush refused"

/-- The bytes printed so far, and the room for more. -/
structure Sink where
  /-- The bytes printed so far. -/
  written : ByteArray
  /-- The number of bytes that still fit; without a limit, all do. -/
  room : Option Nat
  /-- Flushing succeeds. -/
  flushes : Bool
  deriving DecidableEq

namespace Sink

/-- A sink with nothing in it that takes all bytes. -/
def unlimited : Sink := ⟨.empty, none, true⟩

/-- Writes bytes.  Those that do not fit are lost, and the write fails. -/
def write (bytes : ByteArray) (s : Sink) : Sink × Option SinkFailure :=
  match s.room with
  | none => ({ s with written := s.written ++ bytes }, none)
  | some n =>
    if bytes.size ≤ n then
      ({ s with written := s.written ++ bytes, room := some (n - bytes.size) }, none)
    else ({ s with written := s.written ++ bytes.extract 0 n, room := some 0 }, some .full)

variable {s : Sink} {n : Nat} {bytes : ByteArray}

theorem write_of_room_none (h : s.room = none) (bytes : ByteArray) :
    s.write bytes = ({ s with written := s.written ++ bytes }, none) := by
  rw [write, h]

/-- Bytes that fit are written. -/
theorem write_of_le (h : s.room = some n) (hbytes : bytes.size ≤ n) :
    s.write bytes
      = ({ s with written := s.written ++ bytes, room := some (n - bytes.size) }, none) := by
  rw [write, h]
  exact if_pos hbytes

/-- Of bytes that do not fit, a front is written that does, and the sink is full. -/
theorem write_of_lt (h : s.room = some n) (hbytes : n < bytes.size) :
    s.write bytes
      = ({ s with written := s.written ++ bytes.extract 0 n, room := some 0 }, some .full) := by
  rw [write, h]
  exact if_neg (Nat.not_le_of_lt hbytes)

/-- Flushes the sink. -/
def flush (s : Sink) : Option SinkFailure := if s.flushes then none else some .flushRefused

end Sink

end Scriptlet
