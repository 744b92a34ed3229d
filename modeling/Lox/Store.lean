import Lox.Fault
import Lox.Syntax
import Lox.Table
import Lox.Value

/-!
# The store

Everything that lives longer than an evaluation step: frames of variables, functions, classes and
instances. Things are only ever added, so a reference stays good. A frame links to the frame that
encloses it and a class to its superclass, and both links lead to something older; a link that
does not is no link, which is why following links always comes to an end.

Frames share: a write through one chain is seen through every chain that the frame is part of.
-/

namespace Lox

/-- The variables of one activation of a block, function or class. -/
structure Frame where
  bindings : Table Value
  enclosing : Option FrameId

/-- A function with the frame that its declaration closed over. -/
structure Closure where
  declaration : FunctionDecl
  frame : FrameId
  /-- Whether calling it gives the instance that it is bound to. -/
  isInitializer : Bool

/-- A class with its own methods, which are not bound to an instance. -/
structure Class where
  name : String
  superclass : Option ClassId
  methods : Table Closure

/-- An instance with its own fields. -/
structure Instance where
  cls : ClassId
  fields : Table Value

structure Store where
  frames : Array Frame
  functions : Array Closure
  classes : Array Class
  instances : Array Instance

namespace Store

def empty : Store := ⟨#[], #[], #[], #[]⟩

instance : EmptyCollection Store := ⟨empty⟩

/-! ### Access -/

def frameAt? (s : Store) (f : FrameId) : Option Frame := s.frames[f.index]?

def functionAt? (s : Store) (f : FunctionId) : Option Closure := s.functions[f.index]?

def classAt? (s : Store) (c : ClassId) : Option Class := s.classes[c.index]?

def instanceAt? (s : Store) (i : InstanceId) : Option Instance := s.instances[i.index]?

/-- The frame that a frame links to. -/
def enclosing? (s : Store) (f : FrameId) : Option FrameId := (s.frameAt? f).bind (·.enclosing)

/-- The class that a class links to. -/
def superclass? (s : Store) (c : ClassId) : Option ClassId := (s.classAt? c).bind (·.superclass)

/-- What a frame itself binds a name to. -/
def binding? (s : Store) (f : FrameId) (name : String) : Option Value :=
  (s.frameAt? f).bind (·.bindings.get? name)

/-! ### Growth -/

def addFrame (s : Store) (bindings : Table Value) (enclosing : Option FrameId) :
    FrameId × Store :=
  (⟨s.frames.size⟩, { s with frames := s.frames.push ⟨bindings, enclosing⟩ })

def addFunction (s : Store) (closure : Closure) : FunctionId × Store :=
  (⟨s.functions.size⟩, { s with functions := s.functions.push closure })

def addClass (s : Store) (cls : Class) : ClassId × Store :=
  (⟨s.classes.size⟩, { s with classes := s.classes.push cls })

def addInstance (s : Store) (cls : ClassId) : InstanceId × Store :=
  (⟨s.instances.size⟩, { s with instances := s.instances.push ⟨cls, ∅⟩ })

/-! ### Variables -/

/-- Binds a name in a frame, whatever it was bound to there. -/
def define (s : Store) (f : FrameId) (name : String) (value : Value) : Store :=
  { s with frames := s.frames.modify f.index fun frame =>
      { frame with bindings := frame.bindings.insert name value } }

/-- The frame nearest to `f` along the chain that binds the name. -/
def holder? (s : Store) (f : FrameId) (name : String) : Option FrameId :=
  match s.frameAt? f with
  | none => none
  | some frame =>
    if frame.bindings.contains name then some f
    else match frame.enclosing with
      | none => none
      | some outer => if outer.index < f.index then holder? s outer name else none
termination_by f.index

/-- The frame that the given number of links leads to. -/
def ancestor? (s : Store) (f : FrameId) : Nat → Option FrameId
  | 0 => some f
  | distance + 1 =>
    match s.enclosing? f with
    | some outer => s.ancestor? outer distance
    | none => none

/-- The nearest frame that binds the name, which must be bound. -/
def holder (s : Store) (f : FrameId) (name : String) : Except Fault FrameId :=
  match s.holder? f name with
  | some holder => .ok holder
  | none => .error (.undefinedVariable name)

/-- The frame that the given number of links leads to, which must exist. -/
def ancestor (s : Store) (f : FrameId) (distance : Nat) : Except Fault FrameId :=
  match s.ancestor? f distance with
  | some frame => .ok frame
  | none => .error (.chainTooShort distance)

/-- What a frame itself binds a name to, which must be bound. -/
def bound (s : Store) (f : FrameId) (name : String) : Except Fault Value :=
  match s.binding? f name with
  | some value => .ok value
  | none => .error (.unboundInFrame name)

/-- The value of a name in the nearest frame that binds it. -/
def get (s : Store) (f : FrameId) (name : String) : Except Fault Value := do
  s.bound (← s.holder f name) name

/-- Changes a name in the nearest frame that binds it. -/
def assign (s : Store) (f : FrameId) (name : String) (value : Value) : Except Fault Store := do
  return s.define (← s.holder f name) name value

/-- The value of a name in the frame that the given number of links leads to. -/
def getAt (s : Store) (f : FrameId) (distance : Nat) (name : String) : Except Fault Value := do
  s.bound (← s.ancestor f distance) name

/-- Binds a name in the frame that the given number of links leads to. -/
def assignAt (s : Store) (f : FrameId) (distance : Nat) (name : String) (value : Value) :
    Except Fault Store := do
  return s.define (← s.ancestor f distance) name value

/-! ### What growth and binding do to the frames -/

/-- Binding a name changes the one frame it is bound in. -/
theorem frameAt?_define (s : Store) (f g : FrameId) (name : String) (value : Value) :
    (s.define f name value).frameAt? g =
      if f = g then (s.frameAt? g).map fun frame =>
        { frame with bindings := frame.bindings.insert name value }
      else s.frameAt? g := by
  obtain ⟨i⟩ := f
  obtain ⟨j⟩ := g
  simp only [define, frameAt?, Array.getElem?_modify, FrameId.mk.injEq]

/-- Binding a name leaves every link between frames as it is. -/
theorem enclosing?_define (s : Store) (f g : FrameId) (name : String) (value : Value) :
    (s.define f name value).enclosing? g = s.enclosing? g := by
  rw [enclosing?, frameAt?_define, enclosing?]
  split
  · cases s.frameAt? g <;> rfl
  · rfl

/-- After binding a name in a frame of the store, it is bound to the value there and everything
else is bound as before. -/
theorem binding?_define (s : Store) (f g : FrameId) (name key : String) (value : Value)
    (present : (s.frameAt? f).isSome) :
    (s.define f name value).binding? g key =
      if f = g ∧ name = key then some value else s.binding? g key := by
  rw [binding?, frameAt?_define, binding?]
  by_cases same : f = g
  · subst same
    obtain ⟨frame, found⟩ := Option.isSome_iff_exists.mp present
    simp [found, Table.get?_insert]
  · simp [same]

theorem binding?_define_self {s : Store} {f : FrameId} (name : String) (value : Value)
    (present : (s.frameAt? f).isSome) : (s.define f name value).binding? f name = some value := by
  rw [binding?_define s f f name name value present, if_pos ⟨rfl, rfl⟩]

/-- A new frame holds what it was made with. -/
theorem frameAt?_addFrame_self (s : Store) (bindings : Table Value) (enclosing : Option FrameId) :
    (s.addFrame bindings enclosing).2.frameAt? (s.addFrame bindings enclosing).1 =
      some ⟨bindings, enclosing⟩ := by
  simp [addFrame, frameAt?]

/-- A new frame changes none of those there were. -/
theorem frameAt?_addFrame_of_some {s : Store} {g : FrameId} {frame : Frame}
    (bindings : Table Value) (enclosing : Option FrameId) (found : s.frameAt? g = some frame) :
    (s.addFrame bindings enclosing).2.frameAt? g = some frame := by
  -- the new frame lies behind all others
  have old : g.index < s.frames.size := (Array.getElem?_eq_some_iff.mp found).1
  simp only [addFrame, frameAt?, Array.getElem?_push, Nat.ne_of_lt old, if_false]
  exact found

/-! ### Classes and instances -/

/-- The method that a class has or inherits under a name. -/
def findMethod (s : Store) (c : ClassId) (name : String) : Option Closure :=
  match s.classAt? c with
  | none => none
  | some cls =>
    match cls.methods.get? name with
    | some method => some method
    | none =>
      -- The superclass is asked only for what the class itself does not have.
      match cls.superclass with
      | none => none
      | some parent => if parent.index < c.index then findMethod s parent name else none
termination_by c.index

/-- Which methods there are depends on the classes alone. -/
theorem findMethod_congr {s s' : Store} (same : s'.classes = s.classes) (c : ClassId)
    (name : String) : s'.findMethod c name = s.findMethod c name := by
  obtain ⟨index⟩ := c
  induction index using Nat.strongRecOn with
  | ind index ih =>
    rw [findMethod, findMethod, classAt?, classAt?, same]
    split
    · rfl
    · split
      · rfl
      · split
        · rfl
        · split
          · rename_i parent _ older
            exact ih parent.index older
          · rfl

/-- The method that runs on a new instance of the class. -/
def initializer? (s : Store) (c : ClassId) : Option Closure := s.findMethod c initializerName

/-- The number of arguments that a call of the class takes: those of its initializer. -/
def classArity (s : Store) (c : ClassId) : Nat :=
  match s.initializer? c with
  | some closure => closure.declaration.parameters.length
  | none => 0

/-- A method with `this` bound to the instance in a frame of its own. -/
def bind (s : Store) (method : Closure) (receiver : Value) : Closure × Store :=
  let (frame, s) :=
    s.addFrame (Table.insert ∅ Keyword.this.spelling receiver) (some method.frame)
  ({ method with frame := frame }, s)

/-- A method bound to an instance, as a value. Each binding gives a function of its own. -/
def bindValue (s : Store) (method : Closure) (receiver : Value) : Value × Store :=
  let (closure, s) := s.bind method receiver
  let (f, s) := s.addFunction closure
  (.function f, s)

/-- What an instance has under a name. -/
inductive Property where
  | field (value : Value)
  | method (closure : Closure)

/-- A property of an instance: its field, or else the method of its class. -/
def property (s : Store) (i : InstanceId) (name : String) : Except Fault Property :=
  match s.instanceAt? i with
  | none => .error .notAnObject
  | some object =>
    -- A field hides a method of its name.
    match object.fields.get? name with
    | some value => .ok (.field value)
    | none =>
      match s.findMethod object.cls name with
      | some closure => .ok (.method closure)
      | none => .error (.undefinedProperty name)

/-- Sets a field of an instance, which need not have had it. -/
def setField (s : Store) (i : InstanceId) (name : String) (value : Value) : Store :=
  { s with instances := s.instances.modify i.index fun object =>
      { object with fields := object.fields.insert name value } }

/-! ### Values as text -/

def className (s : Store) (c : ClassId) : String := ((s.classAt? c).map (·.name)).getD ""

/-- A value as `print` shows it. -/
def text (s : Store) : Value → String
  | .nil => "nil"
  | .bool true => "true"
  | .bool false => "false"
  | .number x => Number.text x
  | .string t => t
  | .native _ => "<native fn>"
  | .function f =>
    "<fn " ++ ((s.functionAt? f).map (·.declaration.name.text)).getD "" ++ ">"
  | .class_ c => s.className c
  | .instance_ i =>
    ((s.instanceAt? i).map fun object => s.className object.cls).getD "" ++ " instance"

end Store

end Lox
