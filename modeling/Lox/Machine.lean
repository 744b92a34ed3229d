import Lox.Scope.Basic
import Lox.Sink
import Lox.Store
import Std.Data.TreeMap

/-!
# The machine

The state that a program runs in: the store, the global frame and the current one, the recorded
distances of local names, the number of calls in progress, the sink and the clock. An evaluation
is a `Run`: it gives a value or halts, and in both cases leaves a machine behind.
-/

namespace Lox

/-- The most calls of functions and classes that may be in progress at once. -/
def maxCallDepth : Nat := 255

structure Machine where
  store : Store
  globals : FrameId
  current : FrameId
  /-- The number of frames to leave for each node that is bound locally. -/
  distances : Std.TreeMap NodeId Nat
  callDepth : Nat
  sink : Sink
  /-- The time that the clock shows at its first reading, its second, and so on. -/
  clock : Nat → Float
  /-- How often the clock has been read. -/
  readings : Nat

/-- An evaluation on a machine. -/
abbrev Run := EStateM Halt Machine

namespace Machine

/-- A machine whose global frame binds the built-in functions. -/
def start (sink : Sink) (clock : Nat → Float) : Machine :=
  let natives : Table Value :=
    Table.insertAll ∅ (Native.all.map fun native => (native.name, .native native))
  let (globals, store) := (∅ : Store).addFrame natives none
  { store, globals, current := globals, distances := ∅, callDepth := 0, sink, clock, readings := 0 }

/-- Records the distance of a node. -/
def record (m : Machine) (binding : Binding) : Machine :=
  { m with distances := m.distances.insert binding.1 binding.2 }

/-- Records the distances of the nodes of a program. -/
def recordAll (m : Machine) (bindings : List Binding) : Machine := bindings.foldl record m

/-- The value of a name at a node: in the frame at its recorded distance, or else among the
globals. -/
def lookUp (m : Machine) (id : NodeId) (name : String) : Except Fault Value :=
  match m.distances[id]? with
  | some distance => m.store.getAt m.current distance name
  | none => m.store.get m.globals name

/-- The frame in which an assignment at a node changes a name: the one that `lookUp` reads. -/
def target (m : Machine) (id : NodeId) (name : String) : Except Fault FrameId :=
  match m.distances[id]? with
  | some distance => m.store.ancestor m.current distance
  | none => m.store.holder m.globals name

/-- The superclass and the instance that `super` stands for at a node. The frame with the superclass
encloses the frame with the instance. -/
def lookUpSuper (m : Machine) (id : NodeId) : Except Fault (ClassId × Value) := do
  let some distance := m.distances[id]? | throw .superOutsideClass
  match ← m.store.getAt m.current distance Keyword.super.spelling with
  | .class_ parent =>
    -- The instance is bound in the frame just inside the one with the superclass.
    match distance with
    | 0 => throw .superOutsideMethod
    | inner + 1 =>
      let receiver ← m.store.getAt m.current inner Keyword.this.spelling
      return (parent, receiver)
  | _ => throw .superNotClass

end Machine

namespace Run

variable {α : Type}

/-- Halts with a fault on a line. -/
def fault (cause : Fault) (line : Nat) : Run α := throw (.runtime ⟨cause, line⟩)

/-- The outcome of a look-up as an evaluation, with faults on the given line. -/
def ofExcept (line : Nat) : Except Fault α → Run α
  | .ok value => pure value
  | .error cause => fault cause line

/-- Reads from the machine. -/
def ask (f : Machine → α) : Run α := fun m => .ok (f m) m

/-- Reads from the machine, with faults on the given line. -/
def read (line : Nat) (f : Machine → Except Fault α) : Run α := do ofExcept line (← ask f)

/-- Changes the store, giving what the change gives. -/
def onStore (change : Store → α × Store) : Run α := fun m =>
  let (value, store) := change m.store
  .ok value { m with store }

/-- Binds a name in a frame. -/
def define (frame : FrameId) (name : String) (value : Value) : Run Unit :=
  onStore fun s => ((), s.define frame name value)

/-- Runs in the given frame and comes back to the one before, also when the run halts. -/
def inFrame (frame : FrameId) (body : Run α) : Run α := fun m =>
  let previous := m.current
  match body { m with current := frame } with
  | .ok value m => .ok value { m with current := previous }
  | .error halt m => .error halt { m with current := previous }

/-- Runs a call made on the given line one level deeper, also lowering the level when the call
halts. A call too deep is not begun. -/
def nested (line : Nat) (body : Run α) : Run α := fun m =>
  if maxCallDepth ≤ m.callDepth then fault .stackOverflow line m
  else
    -- The level was compared before it is raised, so `maxCallDepth` calls can be open at once.
    match body { m with callDepth := m.callDepth + 1 } with
    | .ok value m => .ok value { m with callDepth := m.callDepth - 1 }
    | .error halt m => .error halt { m with callDepth := m.callDepth - 1 }

/-- Prints a value on a line of its own. -/
def print (value : Value) : Run Unit := fun m =>
  let bytes := (m.store.text value ++ "\n").toUTF8
  match m.sink.write bytes with
  | (none, sink) => .ok () { m with sink }
  | (some e, sink) => .error (.sink e) { m with sink }

/-- Flushes the sink. -/
def flush : Run Unit := fun m =>
  match m.sink.flush with
  | none => .ok () m
  | some e => .error (.sink e) m

/-- Reads the clock. -/
def readClock : Run Float := fun m => .ok (m.clock m.readings) { m with readings := m.readings + 1 }

end Run

end Lox
