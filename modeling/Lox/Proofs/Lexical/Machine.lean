import Lox.Eval

/-!
# The lexical machine

A machine without frames and distances. Each local declaration that is carried out makes a location
of its own, and an environment maps the names that can be used at a place to the locations of their
declarations. Functions and classes keep the environment of the place where they were declared.
Global names are bound in one table, in which they are looked up when they are used.
-/

namespace Lox.Lexical

/-- Where a local variable is kept. -/
structure Location where
  index : Nat
  deriving DecidableEq, Repr

/-- The local names that can be used at a place, each with the location that its declaration made. -/
inductive Env where
  /-- Outside every block, function and class, where declarations make global names. -/
  | top
  | inner (names : Table Location)

namespace Env

def find? : Env → String → Option Location
  | .top, _ => none
  | .inner names, name => names.get? name

/-- The environment in which a block begins: names declared in the block will be local. -/
def enter : Env → Env
  | .top => .inner ∅
  | .inner names => .inner names

end Env

/-- A function with the environment that its declaration captured. -/
structure Closure where
  declaration : FunctionDecl
  env : Env
  /-- Whether calling it gives the instance that it is bound to. -/
  isInitializer : Bool

/-- A class with its own methods, which are not bound to an instance. -/
structure Class where
  name : String
  superclass : Option ClassId
  methods : Table Closure

structure State where
  /-- The values at the locations. -/
  cells : Array Value
  globals : Table Value
  functions : Array Closure
  classes : Array Class
  instances : Array Instance
  callDepth : Nat
  sink : Sink
  clock : Nat → Float
  /-- How often the clock has been read. -/
  readings : Nat

/-- An evaluation on the lexical machine. -/
abbrev Run := EStateM Halt State

namespace State

/-- A state in which only the built-in functions are bound, as global names. -/
def start (sink : Sink) (clock : Nat → Float) : State :=
  let globals : Table Value :=
    Table.insertAll ∅ (Native.all.map fun native => (native.name, .native native))
  ⟨#[], globals, #[], #[], #[], 0, sink, clock, 0⟩

/-! ### Names -/

/-- The value of a name: at its location if it is local, or else among the globals. -/
def lookUp (μ : State) (ρ : Env) (name : String) : Except Fault Value :=
  match ρ.find? name with
  | some location =>
    match μ.cells[location.index]? with
    | some value => .ok value
    | none => .error (.unboundInFrame name)
  | none =>
    match μ.globals.get? name with
    | some value => .ok value
    | none => .error (.undefinedVariable name)

/-- The state with a name bound to a value: at its location if it is local, or else among the
globals. -/
def bind (μ : State) (ρ : Env) (name : String) (value : Value) : State :=
  match ρ.find? name with
  | some location => { μ with cells := μ.cells.set! location.index value }
  | none => { μ with globals := μ.globals.insert name value }

/-- Whether a name can be given another value: a global name must be bound. -/
def assignable (μ : State) (ρ : Env) (name : String) : Except Fault Unit :=
  match ρ.find? name with
  | some _ => .ok ()
  | none =>
    if μ.globals.contains name then .ok () else .error (.undefinedVariable name)

/-- The superclass and the instance that `super` stands for. -/
def lookUpSuper (μ : State) (ρ : Env) : Except Fault (ClassId × Value) := do
  match ← μ.lookUp ρ Keyword.super.spelling with
  | .class_ parent => return (parent, ← μ.lookUp ρ Keyword.this.spelling)
  | _ => throw .superNotClass

/-! ### Functions, classes and instances -/

def functionAt? (μ : State) (f : FunctionId) : Option Closure := μ.functions[f.index]?

def classAt? (μ : State) (c : ClassId) : Option Class := μ.classes[c.index]?

def instanceAt? (μ : State) (i : InstanceId) : Option Instance := μ.instances[i.index]?

def addFunction (μ : State) (closure : Closure) : FunctionId × State :=
  (⟨μ.functions.size⟩, { μ with functions := μ.functions.push closure })

def addClass (μ : State) (cls : Class) : ClassId × State :=
  (⟨μ.classes.size⟩, { μ with classes := μ.classes.push cls })

def addInstance (μ : State) (c : ClassId) : InstanceId × State :=
  (⟨μ.instances.size⟩, { μ with instances := μ.instances.push ⟨c, ∅⟩ })

/-- The method that a class has or inherits under a name. -/
def findMethod (μ : State) (c : ClassId) (name : String) : Option Closure :=
  match μ.classAt? c with
  | none => none
  | some cls =>
    match cls.methods.get? name with
    | some method => some method
    | none =>
      match cls.superclass with
      | none => none
      | some parent => if parent.index < c.index then findMethod μ parent name else none
termination_by c.index

/-- The method that runs on a new instance of the class. -/
def initializer? (μ : State) (c : ClassId) : Option Closure := μ.findMethod c initializerName

/-- The number of arguments that a call of the class takes: those of its initializer. -/
def classArity (μ : State) (c : ClassId) : Nat :=
  match μ.initializer? c with
  | some closure => closure.declaration.parameters.length
  | none => 0

/-- What an instance has under a name. -/
inductive Property where
  | field (value : Value)
  | method (closure : Closure)

/-- A property of an instance: its field, or else the method of its class. -/
def property (μ : State) (i : InstanceId) (name : String) : Except Fault Property :=
  match μ.instanceAt? i with
  | none => .error .notAnObject
  | some object =>
    match object.fields.get? name with
    | some value => .ok (.field value)
    | none =>
      match μ.findMethod object.cls name with
      | some closure => .ok (.method closure)
      | none => .error (.undefinedProperty name)

/-- Sets a field of an instance, which need not have had it. -/
def setField (μ : State) (i : InstanceId) (name : String) (value : Value) : State :=
  { μ with instances := μ.instances.modify i.index fun object =>
      { object with fields := object.fields.insert name value } }

def className (μ : State) (c : ClassId) : String := ((μ.classAt? c).map (·.name)).getD ""

/-- A value as `print` shows it. -/
def text (μ : State) : Value → String
  | .nil => "nil"
  | .bool true => "true"
  | .bool false => "false"
  | .number x => Number.text x
  | .string t => t
  | .native _ => "<native fn>"
  | .function f =>
    "<fn " ++ ((μ.functionAt? f).map (·.declaration.name.text)).getD "" ++ ">"
  | .class_ c => μ.className c
  | .instance_ i =>
    ((μ.instanceAt? i).map fun object => μ.className object.cls).getD "" ++ " instance"

end State

end Lox.Lexical
