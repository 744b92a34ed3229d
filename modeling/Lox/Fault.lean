/-!
# Faults

Why the evaluation of a program can fail, with the wording of each cause, and the other ways in
which a run can halt early.
-/

namespace Lox

/-- The cause of a runtime error. -/
inductive Fault where
  /-- No frame of the chain binds the name. -/
  | undefinedVariable (name : String)
  /-- The frame that a recorded distance leads to does not bind the name. -/
  | unboundInFrame (name : String)
  /-- The chain of frames ends before a recorded distance. -/
  | chainTooShort (distance : Nat)
  | undefinedProperty (name : String)
  | notAnObject
  | noFieldsToSet
  | operandNotNumber
  | operandsNotNumbers
  | operandsNotAddable
  | invalidPrefixOperator (lexeme : String)
  | invalidOperator (lexeme : String)
  | notCallable
  | wrongArity (expected given : Nat)
  | stackOverflow
  /-- A class declaration names a value as superclass that is no class. -/
  | superclassNotClass
  /-- The value found for `super` is no class. -/
  | superNotClass
  | superOutsideClass
  | superOutsideMethod
  deriving DecidableEq, Repr

def Fault.message : Fault → String
  | .undefinedVariable name | .unboundInFrame name => "Undefined variable '" ++ name ++ "'."
  | .chainTooShort distance =>
    "Scope chain shorter than resolved depth " ++ toString distance ++ "."
  | .undefinedProperty name => "Undefined property '" ++ name ++ "'."
  | .notAnObject => "Only instances have properties."
  | .noFieldsToSet => "Only instances have fields."
  | .operandNotNumber => "Operand must be a number."
  | .operandsNotNumbers => "Operands must be numbers."
  | .operandsNotAddable => "Operands must be two numbers or two strings."
  | .invalidPrefixOperator lexeme => "Invalid unary operator '" ++ lexeme ++ "'."
  | .invalidOperator lexeme => "Invalid binary operator '" ++ lexeme ++ "'."
  | .notCallable => "Can only call functions and classes."
  | .wrongArity expected given =>
    "Expected " ++ toString expected ++ " arguments but got " ++ toString given ++ "."
  | .stackOverflow => "Stack overflow."
  | .superclassNotClass | .superNotClass => "Superclass must be a class."
  | .superOutsideClass => "Can't use 'super' outside of a class."
  | .superOutsideMethod => "Can't use 'super' outside of a method."

/-- A fault with the line it is reported at. -/
structure RuntimeError where
  fault : Fault
  line : Nat
  deriving DecidableEq, Repr

def RuntimeError.message (e : RuntimeError) : String :=
  e.fault.message ++ "\n[line " ++ toString e.line ++ "]"

/-- Why the sink did not take what was printed. -/
inductive SinkError where
  | full
  | flush
  /-- A failure of the device behind the sink, in its own words. -/
  | device (report : String)
  deriving DecidableEq, Repr

def SinkError.message : SinkError → String
  | .full => "sink full"
  | .flush => "flush failed"
  | .device report => report

/-- The ways in which a run ends before the program does. -/
inductive Halt where
  | runtime (e : RuntimeError)
  | sink (e : SinkError)
  /-- The bound on the depth of evaluation was reached: the run says nothing about the program. -/
  | outOfFuel
  deriving DecidableEq, Repr

def Halt.message : Halt → String
  | .runtime e => e.message
  | .sink e => e.message
  | .outOfFuel => "out of fuel"

end Lox
