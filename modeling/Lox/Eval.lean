import Lox.Machine
import Lox.Text.Blank

/-!
# Evaluation

The value of an expression and the effect of a statement on the machine. A statement either falls
through, with the value of an expression statement, or returns from the function around it. A
`return` is no failure, so it is never taken for one.

The number that each function takes first bounds the depth of evaluation, loops included. When it
is used up the run halts as `outOfFuel`, which no program can bring about or observe.
-/

namespace Lox

/-- How a statement ended. -/
inductive Flow where
  /-- It fell through, with the value of an expression statement, which a conditional passes on, or with
  `nil`. -/
  | next (value : Value)
  /-- It returns from the function around it. -/
  | return (value : Value)
  deriving DecidableEq, Inhabited

/-- The value that a statement leaves at top level. -/
def Flow.value : Flow → Value
  | .next value | .return value => value

/-! ### Operators -/

def Literal.toValue : Literal → Value
  | .number x => .number x
  | .string s => .string s
  | .bool b => .bool b
  | .nil => .nil

/-- The number that negation takes a value for, if there is one: a truth value counts as one or
zero, and a text counts as the number it holds between blanks. -/
def Value.toNumber? : Value → Option Float
  | .number x => some x
  | .bool b => some (if b then 1 else 0)
  | .string s => Number.ofChars? (Text.trim s.toList)
  | _ => none

/-- A prefix operator applied to a value. -/
def applyPrefix (operator : Token) (right : Value) : Except Fault Value :=
  match operator.kind with
  | .symbol .bang => .ok (.bool !right.isTruthy)
  | .symbol .minus =>
    match right.toNumber? with
    | some x => .ok (.number (-x))
    | none => .error .operandNotNumber
  | _ => .error (.invalidPrefixOperator operator.lexeme)

/-- An operator of arithmetic or order applied to numbers. -/
def applyToNumbers (operator : Token) (x y : Float) : Except Fault Value :=
  match operator.kind with
  | .symbol .minus => .ok (.number (x - y))
  | .symbol .star => .ok (.number (x * y))
  | .symbol .slash => .ok (.number (x / y))
  | .symbol .greater => .ok (.bool (x > y))
  | .symbol .greaterEqual => .ok (.bool (x ≥ y))
  | .symbol .less => .ok (.bool (x < y))
  | .symbol .lessEqual => .ok (.bool (x ≤ y))
  | _ => .error (.invalidOperator operator.lexeme)

/-- An operator applied to two values. Any values can be compared for equality; apart from that only
numbers go together, and texts under `+`. -/
def applyBinary (operator : Token) (left right : Value) : Except Fault Value :=
  match operator.kind with
  | .symbol .equalEqual => .ok (.bool (left.equals right))
  | .symbol .bangEqual => .ok (.bool !left.equals right)
  | .symbol .plus =>
    match left, right with
    | .number x, .number y => .ok (.number (x + y))
    | .string s, .string t => .ok (.string (s ++ t))
    | _, _ => .error .operandsNotAddable
  | _ =>
    match left, right with
    | .number x, .number y => applyToNumbers operator x y
    | _, _ => .error .operandsNotNumbers

/-- Whether the left side of a logical operator already decides the result. -/
def decides (operator : Token) (left : Value) : Bool :=
  if operator.kind = .keyword .or then left.isTruthy else !left.isTruthy

/-! ### Declarations and calls -/

/-- The line that a superclass is reported at: expressions other than names have none. -/
def Expr.superclassLine : Expr → Nat
  | .variable name _ => name.line
  | _ => 0

/-- The methods of a class that close over the given frame. Of two methods with one name the later
one counts. -/
def methodTable (frame : FrameId) (methods : List FunctionDecl) : Table Closure :=
  Table.insertAll ∅ (methods.map fun d => (d.name.text, ⟨d, frame, d.isInitializer⟩))

namespace Run

/-- Declares a function in the current frame, which it closes over. -/
def declareFunction (d : FunctionDecl) : Run Unit := do
  let frame ← ask (·.current)
  let f ← onStore (·.addFunction ⟨d, frame, false⟩)
  define frame d.name.text (.function f)

/-- The methods of a class that is being declared. Those of a derived class close over a frame of
their own that holds the superclass. -/
def declareMethods (superclass : Option ClassId) (methods : List FunctionDecl) :
    Run (Table Closure) := do
  match superclass with
  | none => ask fun m => methodTable m.current methods
  | some parent =>
    let current ← ask (·.current)
    let frame ←
      onStore (·.addFrame (Table.insert ∅ Keyword.super.spelling (.class_ parent)) (some current))
    inFrame frame (ask fun m => methodTable m.current methods)

/-- Declares a class in the current frame. -/
def declareClass (name : Name) (superclass : Option ClassId) (methods : List FunctionDecl) :
    Run Unit := do
  -- The name is bound once the class is there; its methods find it when they run.
  let table ← declareMethods superclass methods
  let c ← onStore (·.addClass ⟨name.text, superclass, table⟩)
  define (← ask (·.current)) name.text (.class_ c)

/-- Checks the number of arguments of a call on the given line. -/
def checkArity (expected given line : Nat) : Run Unit :=
  if expected = given then pure () else fault (.wrongArity expected given) line

/-- The result of a function whose body has ended: an initializer gives the instance it is bound
to, whatever the body returned. -/
def callResult (closure : Closure) (flow : Flow) : Run Value :=
  if closure.isInitializer then
    read closure.declaration.name.line fun m =>
      m.store.getAt closure.frame 0 Keyword.this.spelling
  else
    match flow with
    | .return value => pure value
    | .next _ => pure .nil

/-- The frame of a call: parameters bound to arguments, within the frame that the function closed
over. -/
def callFrame (closure : Closure) (arguments : List Value) : Run FrameId :=
  let names := closure.declaration.parameters.map (·.text)
  onStore (·.addFrame (Table.insertAll ∅ (names.zip arguments)) (some closure.frame))

/-- The method of a superclass, bound to the instance at hand. -/
def superMethod (keyword method : Name) (id : NodeId) : Run Value := do
  let (parent, receiver) ← read keyword.line (·.lookUpSuper id)
  match ← ask (·.store.findMethod parent method.text) with
  | some closure => onStore (·.bindValue closure receiver)
  | none => fault (.undefinedProperty method.text) method.line

/-- Reads a property of a value. A method comes bound to the instance. -/
def getProperty (object : Value) (name : Name) : Run Value :=
  match object with
  | .instance_ i => do
    match ← read name.line (·.store.property i name.text) with
    | .field value => pure value
    | .method closure => onStore (·.bindValue closure object)
  | _ => fault .notAnObject name.line

/-- Sets a field of an instance. -/
def setField (i : InstanceId) (name : Name) (value : Value) : Run Unit :=
  onStore fun s => ((), s.setField i name.text value)

/-- Gives a variable a value, at the node where the assignment stands. -/
def assign (id : NodeId) (name : Name) (value : Value) : Run Unit := do
  let frame ← read name.line (·.target id name.text)
  define frame name.text value

/-- Calls a built-in function. -/
def callNative : Native → Run Value
  | .clock => return .number (← readClock)

end Run

open Run

/-! ### Expressions and statements -/

mutual

/-- The value of an expression. -/
def evaluate : Nat → Expr → Run Value
  | 0, _ => throw .outOfFuel
  | n + 1, e =>
    match e with
    | .literal value => pure value.toValue
    | .grouping inner => evaluate n inner
    | .unary operator right => do
      let right ← evaluate n right
      ofExcept operator.line (applyPrefix operator right)
    | .binary left operator right => do
      let left ← evaluate n left
      let right ← evaluate n right
      ofExcept operator.line (applyBinary operator left right)
    | .logical left operator right => do
      let left ← evaluate n left
      if decides operator left then pure left else evaluate n right
    | .variable name id => read name.line (·.lookUp id name.text)
    | .assign name value id => do
      let value ← evaluate n value
      assign id name value
      pure value
    | .call callee line arguments => do
      let callee ← evaluate n callee
      let arguments ← evaluateAll n arguments
      call n callee line arguments
    | .get object name => do
      let object ← evaluate n object
      getProperty object name
    | .set object name value => do
      -- What has no fields is found out before the value is evaluated.
      let .instance_ i ← evaluate n object | fault .noFieldsToSet name.line
      let value ← evaluate n value
      setField i name value
      pure value
    | .this keyword id => read keyword.line (·.lookUp id keyword.text)
    | .super keyword method id => superMethod keyword method id

/-- The values of expressions, from left to right. -/
def evaluateAll : Nat → List Expr → Run (List Value)
  | 0, _ => throw .outOfFuel
  | _ + 1, [] => pure []
  | n + 1, e :: rest => do
    let value ← evaluate n e
    let values ← evaluateAll n rest
    pure (value :: values)

/-- Calls a value on the given line. The number of arguments is checked before the depth of calls,
and a class that is called counts as one call together with its initializer. -/
def call : Nat → Value → Nat → List Value → Run Value
  | 0, _, _, _ => throw .outOfFuel
  | n + 1, callee, line, arguments => do
    match callee with
    | .native f =>
      checkArity f.arity arguments.length line
      callNative f
    | .function f =>
      let some closure ← ask (·.store.functionAt? f) | fault .notCallable line
      checkArity closure.declaration.parameters.length arguments.length line
      nested line (callClosure n closure arguments)
    | .class_ c =>
      -- Without an initializer a class takes no arguments.
      let arity ← ask (·.store.classArity c)
      checkArity arity arguments.length line
      nested line (construct n c arguments)
    | _ => fault .notCallable line

/-- Runs the body of a function on arguments. -/
def callClosure : Nat → Closure → List Value → Run Value
  | 0, _, _ => throw .outOfFuel
  | n + 1, closure, arguments => do
    let frame ← callFrame closure arguments
    let flow ← inFrame frame (executeAll n closure.declaration.body)
    callResult closure flow

/-- A new instance of a class, initialized if the class has an initializer. -/
def construct : Nat → ClassId → List Value → Run Value
  | 0, _, _ => throw .outOfFuel
  | n + 1, c, arguments => do
    let i ← onStore (·.addInstance c)
    match ← ask (·.store.initializer? c) with
    | some method =>
      let closure ← onStore (·.bind method (.instance_ i))
      -- An initializer gives nothing of its own, so what the call gives is dropped.
      let _ ← callClosure n closure arguments
      pure (.instance_ i)
    | none => pure (.instance_ i)

/-- The effect of a statement. -/
def execute : Nat → Stmt → Run Flow
  | 0, _ => throw .outOfFuel
  | n + 1, s =>
    match s with
    | .expression value => do
      let value ← evaluate n value
      pure (.next value)
    | .print value => do
      let value ← evaluate n value
      print value
      pure (.next .nil)
    | .var name initializer => do
      -- The name is bound last, so the initializer runs without it.
      let value ← evaluateOptional n initializer
      define (← ask (·.current)) name.text value
      pure (.next .nil)
    | .block body => do
      let current ← ask (·.current)
      let frame ← onStore (·.addFrame ∅ (some current))
      inFrame frame (executeAll n body)
    | .ifElse condition thenBranch elseBranch => do
      let condition ← evaluate n condition
      if condition.isTruthy then execute n thenBranch
      else match elseBranch with
        | some s => execute n s
        | none => pure (.next .nil)
    | .while condition body => executeWhile n condition body
    | .function d => do
      declareFunction d
      pure (.next .nil)
    | .return _ value => do
      let value ← evaluateOptional n value
      pure (.return value)
    | .class_ name superclass methods => do
      let superclass ← evaluateSuperclass n superclass
      declareClass name superclass methods
      pure (.next .nil)

/-- The value of an expression that may be absent, then `nil`. -/
def evaluateOptional : Nat → Option Expr → Run Value
  | 0, _ => throw .outOfFuel
  | _ + 1, none => pure .nil
  | n + 1, some e => evaluate n e

/-- The class that an expression names as superclass. -/
def evaluateSuperclass : Nat → Option Expr → Run (Option ClassId)
  | 0, _ => throw .outOfFuel
  | _ + 1, none => pure none
  | n + 1, some e => do
    let .class_ c ← evaluate n e | fault .superclassNotClass e.superclassLine
    pure (some c)

/-- Runs a loop from a test of its condition on. -/
def executeWhile : Nat → Expr → Stmt → Run Flow
  | 0, _, _ => throw .outOfFuel
  | n + 1, condition, body => do
    let test ← evaluate n condition
    if test.isTruthy then
      match ← execute n body with
      | .return value => pure (.return value)
      -- Each round uses up one unit, so that a loop without end runs out.
      | .next _ => executeWhile n condition body
    else pure (.next .nil)

/-- Runs statements in order, up to one that returns. -/
def executeAll : Nat → List Stmt → Run Flow
  | 0, _ => throw .outOfFuel
  | _ + 1, [] => pure (.next .nil)
  | n + 1, s :: rest => do
    match ← execute n s with
    | .return value => pure (.return value)
    | .next _ => executeAll n rest

end

/-! ### Programs -/

/-- Runs statements at top level, starting from the value left by those before. -/
def runFrom (fuel : Nat) (last : Value) : List Stmt → Run Value
  | [] => pure last
  | s :: rest => do
    -- A `return` would not keep the statements after it from running; a program that is accepted has
    -- none at top level.
    let flow ← execute fuel s
    runFrom fuel flow.value rest

/-- Runs a program: the value of its last statement, once the sink has been flushed. -/
def runProgram (fuel : Nat) (statements : List Stmt) : Run Value := do
  let last ← runFrom fuel .nil statements
  flush
  pure last

end Lox
