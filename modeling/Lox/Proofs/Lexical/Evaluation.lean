import Lox.Proofs.Lexical.Machine

/-!
# Lexical evaluation

The meaning of programs by lexical scoping alone. A name stands for the location that its declaration
made, the declaration being the last one before the name in the innermost block that has one; a
function or class keeps the names that could be used where it was declared; and a name without a local
declaration is global. No number of scopes to leave is known here.

The depth of evaluation is bounded as it is on the machine with frames, so that both use it up at the
same place.
-/

namespace Lox.Lexical

namespace Run

variable {α : Type}

/-- Halts with a fault on a line. -/
def fault (cause : Fault) (line : Nat) : Run α := throw (.runtime ⟨cause, line⟩)

/-- The outcome of a look-up as an evaluation, with faults on the given line. -/
def ofExcept (line : Nat) : Except Fault α → Run α
  | .ok value => pure value
  | .error cause => fault cause line

/-- Reads from the state. -/
def ask (f : State → α) : Run α := fun μ => .ok (f μ) μ

/-- Reads from the state, with faults on the given line. -/
def read (line : Nat) (f : State → Except Fault α) : Run α := do ofExcept line (← ask f)

/-- Changes the state, giving what the change gives. -/
def onState (change : State → α × State) : Run α := fun μ =>
  let (value, μ) := change μ
  .ok value μ

/-- Runs a call made on the given line one level deeper, also lowering the level when the call
halts. A call too deep is not begun. -/
def nested (line : Nat) (body : Run α) : Run α := fun μ =>
  if maxCallDepth ≤ μ.callDepth then fault .stackOverflow line μ
  else
    match body { μ with callDepth := μ.callDepth + 1 } with
    | .ok value μ => .ok value { μ with callDepth := μ.callDepth - 1 }
    | .error halt μ => .error halt { μ with callDepth := μ.callDepth - 1 }

/-- Prints a value on a line of its own. -/
def print (value : Value) : Run Unit := fun μ =>
  let bytes := (μ.text value ++ "\n").toUTF8
  match μ.sink.write bytes with
  | (none, sink) => .ok () { μ with sink }
  | (some e, sink) => .error (.sink e) { μ with sink }

/-- Flushes the sink. -/
def flush : Run Unit := fun μ =>
  match μ.sink.flush with
  | none => .ok () μ
  | some e => .error (.sink e) μ

/-- Reads the clock. -/
def readClock : Run Float := fun μ => .ok (μ.clock μ.readings) { μ with readings := μ.readings + 1 }

/-! ### Declarations -/

/-- Begins the declaration of a name. A local name gets a new location, in which there is nothing to
read yet; where there is no local scope, the name is global and needs none. -/
def declare (ρ : Env) (name : String) : Run Env :=
  match ρ with
  | .top => pure .top
  | .inner names => onState fun μ =>
    (.inner (names.insert name ⟨μ.cells.size⟩), { μ with cells := μ.cells.push .nil })

/-- Gives a declared name its value. -/
def define (ρ : Env) (name : String) (value : Value) : Run Unit :=
  onState fun μ => ((), μ.bind ρ name value)

/-- Declares names with their values, one after another. -/
def declareAll (ρ : Env) : List (String × Value) → Run Env
  | [] => pure ρ
  | (name, value) :: rest => do
    let ρ ← declare ρ name
    define ρ name value
    declareAll ρ rest

/-- Opens a scope that holds the given names. -/
def openScope (ρ : Env) (pairs : List (String × Value)) : Run Env := declareAll ρ.enter pairs

/-- Declares a function. Its own name is among the names that it captures. -/
def declareFunction (ρ : Env) (d : FunctionDecl) : Run Env := do
  let ρ ← declare ρ d.name.text
  let f ← onState (·.addFunction ⟨d, ρ, false⟩)
  define ρ d.name.text (.function f)
  pure ρ

/-- The methods of a class that capture the given environment. Of two methods with one name the later
one counts. -/
def methodTable (ρ : Env) (methods : List FunctionDecl) : Table Closure :=
  Table.insertAll ∅ (methods.map fun d => (d.name.text, ⟨d, ρ, d.isInitializer⟩))

/-- The methods of a class that is being declared; those of a derived class can use `super`. -/
def declareMethods (ρ : Env) (superclass : Option ClassId) (methods : List FunctionDecl) :
    Run (Table Closure) := do
  match superclass with
  | none => pure (methodTable ρ methods)
  | some parent =>
    let ρ ← openScope ρ [(Keyword.super.spelling, .class_ parent)]
    pure (methodTable ρ methods)

/-- Declares a class. Its own name is among the names that its methods capture. -/
def declareClass (ρ : Env) (name : Name) (superclass : Option ClassId)
    (methods : List FunctionDecl) : Run Env := do
  let ρ ← declare ρ name.text
  let table ← declareMethods ρ superclass methods
  let c ← onState (·.addClass ⟨name.text, superclass, table⟩)
  define ρ name.text (.class_ c)
  pure ρ

/-! ### Calls and properties -/

/-- Checks the number of arguments of a call on the given line. -/
def checkArity (expected given line : Nat) : Run Unit :=
  if expected = given then pure () else fault (.wrongArity expected given) line

/-- A method that can use `this`, which stands for the given instance. -/
def bindMethod (method : Closure) (receiver : Value) : Run Closure := do
  let ρ ← openScope method.env [(Keyword.this.spelling, receiver)]
  pure { method with env := ρ }

/-- A method bound to an instance, as a value. Each binding gives a function of its own. -/
def bindValue (method : Closure) (receiver : Value) : Run Value := do
  let closure ← bindMethod method receiver
  let f ← onState (·.addFunction closure)
  pure (.function f)

/-- The result of a function whose body has ended: an initializer gives the instance it is bound
to, whatever the body returned. -/
def callResult (closure : Closure) (flow : Flow) : Run Value :=
  if closure.isInitializer then
    read closure.declaration.name.line (·.lookUp closure.env Keyword.this.spelling)
  else
    match flow with
    | .return value => pure value
    | .next _ => pure .nil

/-- The environment of a call: parameters with their arguments, within the names that the function
captured. -/
def callEnv (closure : Closure) (arguments : List Value) : Run Env :=
  openScope closure.env ((closure.declaration.parameters.map (·.text)).zip arguments)

/-- The method of a superclass, bound to the instance at hand. -/
def superMethod (ρ : Env) (keyword method : Name) : Run Value := do
  let (parent, receiver) ← read keyword.line (·.lookUpSuper ρ)
  match ← ask (·.findMethod parent method.text) with
  | some closure => bindValue closure receiver
  | none => fault (.undefinedProperty method.text) method.line

/-- Reads a property of a value. A method comes bound to the instance. -/
def getProperty (object : Value) (name : Name) : Run Value :=
  match object with
  | .instance_ i => do
    match ← read name.line (·.property i name.text) with
    | .field value => pure value
    | .method closure => bindValue closure object
  | _ => fault .notAnObject name.line

/-- Sets a field of an instance. -/
def setField (i : InstanceId) (name : Name) (value : Value) : Run Unit :=
  onState fun μ => ((), μ.setField i name.text value)

/-- Gives a name another value. -/
def assign (ρ : Env) (name : Name) (value : Value) : Run Unit := do
  read name.line (·.assignable ρ name.text)
  define ρ name.text value

/-- Calls a built-in function. -/
def callNative : Native → Run Value
  | .clock => return .number (← readClock)

end Run

open Lexical.Run

/-! ### Expressions and statements -/

mutual

/-- The value of an expression. -/
def evaluate : Nat → Env → Expr → Run Value
  | 0, _, _ => throw .outOfFuel
  | n + 1, ρ, e =>
    match e with
    | .literal value => pure value.toValue
    | .grouping inner => evaluate n ρ inner
    | .unary operator right => do
      let right ← evaluate n ρ right
      ofExcept operator.line (applyPrefix operator right)
    | .binary left operator right => do
      let left ← evaluate n ρ left
      let right ← evaluate n ρ right
      ofExcept operator.line (applyBinary operator left right)
    | .logical left operator right => do
      let left ← evaluate n ρ left
      if decides operator left then pure left else evaluate n ρ right
    | .variable name _ => read name.line (·.lookUp ρ name.text)
    | .assign name value _ => do
      let value ← evaluate n ρ value
      assign ρ name value
      pure value
    | .call callee line arguments => do
      let callee ← evaluate n ρ callee
      let arguments ← evaluateAll n ρ arguments
      call n callee line arguments
    | .get object name => do
      let object ← evaluate n ρ object
      getProperty object name
    | .set object name value => do
      let .instance_ i ← evaluate n ρ object | fault .noFieldsToSet name.line
      let value ← evaluate n ρ value
      setField i name value
      pure value
    | .this keyword _ => read keyword.line (·.lookUp ρ keyword.text)
    | .super keyword method _ => superMethod ρ keyword method

/-- The values of expressions, from left to right. -/
def evaluateAll : Nat → Env → List Expr → Run (List Value)
  | 0, _, _ => throw .outOfFuel
  | _ + 1, _, [] => pure []
  | n + 1, ρ, e :: rest => do
    let value ← evaluate n ρ e
    let values ← evaluateAll n ρ rest
    pure (value :: values)

/-- Calls a value on the given line. -/
def call : Nat → Value → Nat → List Value → Run Value
  | 0, _, _, _ => throw .outOfFuel
  | n + 1, callee, line, arguments => do
    match callee with
    | .native f =>
      checkArity f.arity arguments.length line
      callNative f
    | .function f =>
      let some closure ← ask (·.functionAt? f) | fault .notCallable line
      checkArity closure.declaration.parameters.length arguments.length line
      nested line (callClosure n closure arguments)
    | .class_ c =>
      let arity ← ask (·.classArity c)
      checkArity arity arguments.length line
      nested line (construct n c arguments)
    | _ => fault .notCallable line

/-- Runs the body of a function on arguments. -/
def callClosure : Nat → Closure → List Value → Run Value
  | 0, _, _ => throw .outOfFuel
  | n + 1, closure, arguments => do
    let ρ ← callEnv closure arguments
    let flow ← executeAll n ρ closure.declaration.body
    callResult closure flow

/-- A new instance of a class, initialized if the class has an initializer. -/
def construct : Nat → ClassId → List Value → Run Value
  | 0, _, _ => throw .outOfFuel
  | n + 1, c, arguments => do
    let i ← onState (·.addInstance c)
    match ← ask (·.initializer? c) with
    | some method =>
      let closure ← bindMethod method (.instance_ i)
      let _ ← callClosure n closure arguments
      pure (.instance_ i)
    | none => pure (.instance_ i)

/-- The effect of a statement, with the environment for the statements after it. -/
def execute : Nat → Env → Stmt → Run (Env × Flow)
  | 0, _, _ => throw .outOfFuel
  | n + 1, ρ, s =>
    match s with
    | .expression value => do
      let value ← evaluate n ρ value
      pure (ρ, .next value)
    | .print value => do
      let value ← evaluate n ρ value
      print value
      pure (ρ, .next .nil)
    | .var name initializer => do
      -- In its initializer the name hides those of its spelling further out already.
      let ρ ← declare ρ name.text
      let value ← evaluateOptional n ρ initializer
      define ρ name.text value
      pure (ρ, .next .nil)
    | .block body => do
      -- Statements after the block go on with the environment before it.
      let inside ← openScope ρ []
      let flow ← executeAll n inside body
      pure (ρ, flow)
    | .ifElse condition thenBranch elseBranch => do
      let condition ← evaluate n ρ condition
      if condition.isTruthy then execute n ρ thenBranch
      else match elseBranch with
        | some s => execute n ρ s
        | none => pure (ρ, .next .nil)
    | .while condition body => do
      let flow ← executeWhile n ρ condition body
      pure (ρ, flow)
    | .function d => do
      let ρ ← declareFunction ρ d
      pure (ρ, .next .nil)
    | .return _ value => do
      let value ← evaluateOptional n ρ value
      pure (ρ, .return value)
    | .class_ name superclass methods => do
      let superclass ← evaluateSuperclass n ρ superclass
      let ρ ← declareClass ρ name superclass methods
      pure (ρ, .next .nil)

/-- The value of an expression that may be absent, then `nil`. -/
def evaluateOptional : Nat → Env → Option Expr → Run Value
  | 0, _, _ => throw .outOfFuel
  | _ + 1, _, none => pure .nil
  | n + 1, ρ, some e => evaluate n ρ e

/-- The class that an expression names as superclass. -/
def evaluateSuperclass : Nat → Env → Option Expr → Run (Option ClassId)
  | 0, _, _ => throw .outOfFuel
  | _ + 1, _, none => pure none
  | n + 1, ρ, some e => do
    let .class_ c ← evaluate n ρ e | fault .superclassNotClass e.superclassLine
    pure (some c)

/-- Runs a loop from a test of its condition on. -/
def executeWhile : Nat → Env → Expr → Stmt → Run Flow
  | 0, _, _, _ => throw .outOfFuel
  | n + 1, ρ, condition, body => do
    let test ← evaluate n ρ condition
    if test.isTruthy then
      let (_, flow) ← execute n ρ body
      match flow with
      | .return value => pure (.return value)
      | .next _ => executeWhile n ρ condition body
    else pure (.next .nil)

/-- Runs statements in order, up to one that returns. -/
def executeAll : Nat → Env → List Stmt → Run Flow
  | 0, _, _ => throw .outOfFuel
  | _ + 1, _, [] => pure (.next .nil)
  | n + 1, ρ, s :: rest => do
    let (ρ, flow) ← execute n ρ s
    match flow with
    | .return value => pure (.return value)
    | .next _ => executeAll n ρ rest

end

/-! ### Programs -/

/-- Runs statements at top level, starting from the value left by those before. -/
def runFrom (fuel : Nat) (last : Value) : List Stmt → Run Value
  | [] => pure last
  | s :: rest => do
    let (_, flow) ← execute fuel .top s
    runFrom fuel flow.value rest

/-- Runs a program: the value of its last statement, once the sink has been flushed. -/
def runProgram (fuel : Nat) (statements : List Stmt) : Run Value := do
  let last ← runFrom fuel .nil statements
  flush
  pure last

end Lox.Lexical
