import Lox.Eval
import Lox.Reading
import Lox.Scope.Resolution

/-!
# Sessions

A session runs one source after another on one machine, so that what one source declares is there
for the next. A source with any static error does nothing at all: whether it is accepted depends on
its text alone.
-/

namespace Lox

/-- A program that may run, with the distances of its local names. -/
structure Accepted where
  statements : List Stmt
  bindings : List Binding

/-- Reads and resolves a source. The diagnostics are those of the reading or, if there are none,
those of the scopes. -/
def Source.accept (source : String) (firstId : NodeId) :
    Except (List Diagnostic) Accepted × NodeId :=
  let reading := Source.program source firstId
  let verdict : Except (List Diagnostic) Accepted :=
    match reading.diagnostics with
    | [] => do
      let bindings ← (Resolution.ofProgram reading.result).bindings?
      return ⟨reading.result, bindings⟩
    | diagnostics => .error diagnostics
  (verdict, reading.nextId)

/-- Whether a source may run, or what is wrong with it. -/
def Source.check (source : String) : Except (List Diagnostic) Unit := do
  let _ ← (Source.accept source 0).1

/-- Why a source was not run to its end. -/
inductive Failure where
  /-- It was not begun. -/
  | rejected (diagnostics : List Diagnostic)
  | halted (halt : Halt)
  deriving DecidableEq, Repr

namespace Failure

def message : Failure → String
  | .rejected diagnostics => Diagnostic.report diagnostics
  | .halted halt => halt.message

/-- The exit status of a process that fails so. -/
def exitCode : Failure → UInt32
  | .rejected _ => 65
  | .halted _ => 70

end Failure

/-- A machine with the next free node identity. -/
structure Session where
  machine : Machine
  nextId : NodeId

namespace Session

def start (sink : Sink) (clock : Nat → Float) : Session := ⟨Machine.start sink clock, 0⟩

/-- Goes on with the given sink. -/
def withSink (s : Session) (sink : Sink) : Session := { s with machine := { s.machine with sink } }

/-- A value as it is shown. -/
def text (s : Session) (value : Value) : String := s.machine.store.text value

/-- An evaluation on the machine of a session. -/
def perform {α : Type} (machine : Machine) (nextId : NodeId) (run : Run α) :
    Except Failure α × Session :=
  match run machine with
  | .ok value machine => (.ok value, ⟨machine, nextId⟩)
  | .error halt machine => (.error (.halted halt), ⟨machine, nextId⟩)

/-- Runs statements once their local names are bound, which may have shown errors. -/
def execute (fuel : Nat) (s : Session) (bindings : Except (List Diagnostic) (List Binding))
    (statements : List Stmt) : Except Failure Value × Session :=
  match bindings with
  | .error diagnostics => (.error (.rejected diagnostics), s)
  | .ok bindings => perform (s.machine.recordAll bindings) s.nextId (runProgram fuel statements)

/-- Runs a source and gives the value of its last statement. -/
def run (fuel : Nat) (s : Session) (source : String) : Except Failure Value × Session :=
  let (verdict, nextId) := Source.accept source s.nextId
  match verdict with
  | .error diagnostics => (.error (.rejected diagnostics), { s with nextId })
  | .ok program =>
    execute fuel { s with nextId } (.ok program.bindings) program.statements

/-- Evaluates a source that is one expression. It stands in no local scope, so all names in it are
global. -/
def evaluate (fuel : Nat) (s : Session) (source : String) : Except Failure Value × Session :=
  let reading := Source.soleExpression source s.nextId
  match reading.toExcept with
  | .error diagnostics => (.error (.rejected diagnostics), { s with nextId := reading.nextId })
  | .ok e => perform s.machine reading.nextId (Lox.evaluate fuel e)

/-- Checks a source without running it. -/
def check (s : Session) (source : String) : Except Failure Unit × Session :=
  let (verdict, nextId) := Source.accept source s.nextId
  match verdict with
  | .error diagnostics => (.error (.rejected diagnostics), { s with nextId })
  | .ok _ => (.ok (), { s with nextId })

/-- A check does nothing to the machine. -/
theorem check_machine (s : Session) (source : String) :
    (s.check source).2.machine = s.machine := by
  unfold check
  dsimp only
  split <;> rfl

end Session

end Lox
