import Lox.Fault

/-!
# The print sink

Where printed text goes, as bytes. A sink may fail at any write, having taken a part of it; the one
that has room for only so many bytes takes those that fit and fails at the first one beyond.
-/

namespace Lox

/-- How a write fails: after taking some of the bytes, with an error. -/
structure WriteFailure where
  taken : Nat
  error : SinkError
  deriving DecidableEq, Repr

structure Sink where
  /-- The bytes taken so far. -/
  written : ByteArray
  /-- How often the sink has been written to. -/
  writes : Nat
  /-- Whether a write fails, given how many there were before, the bytes taken so far and the bytes
  to write. -/
  failure? : Nat → ByteArray → ByteArray → Option WriteFailure
  /-- Whether flushing fails. -/
  flushFails : Bool

namespace Sink

/-- Whether a write fails where there is room for the given number of bytes in all, if that is
limited. -/
def roomFailure? (room : Option Nat) (_writes : Nat) (written bytes : ByteArray) :
    Option WriteFailure :=
  match room with
  | none => none
  | some room =>
    if written.size + bytes.size ≤ room then none else some ⟨room - written.size, .full⟩

/-- A sink that has taken nothing. -/
def start (room : Option Nat) (flushFails : Bool) : Sink :=
  ⟨ByteArray.empty, 0, roomFailure? room, flushFails⟩

def unlimited : Sink := start none false

/-- Takes the bytes, or as many as it takes before it fails. -/
def write (sink : Sink) (bytes : ByteArray) : Option SinkError × Sink :=
  match sink.failure? sink.writes sink.written bytes with
  | none => (none, { sink with written := sink.written ++ bytes, writes := sink.writes + 1 })
  | some failure =>
    (some failure.error,
      { sink with
        written := sink.written ++ bytes.extract 0 failure.taken
        writes := sink.writes + 1 })

def flush (sink : Sink) : Option SinkError := if sink.flushFails then some .flush else none

end Sink

end Lox
