import Lox.Token

/-!
# Values

Functions, classes and instances live in a store and are referred to by where they lie there, so
two references are equal exactly when they lead to the same thing.
-/

namespace Lox

/-- Where a frame lies in the store. -/
structure FrameId where
  index : Nat
  deriving DecidableEq, Repr, Inhabited

/-- Where a function lies in the store. -/
structure FunctionId where
  index : Nat
  deriving DecidableEq, Repr, Inhabited

/-- Where a class lies in the store. -/
structure ClassId where
  index : Nat
  deriving DecidableEq, Repr, Inhabited

/-- Where an instance lies in the store. -/
structure InstanceId where
  index : Nat
  deriving DecidableEq, Repr, Inhabited

/-- The functions that are built in. -/
inductive Native where
  /-- The time in seconds. -/
  | clock
  deriving DecidableEq, Repr

namespace Native

def all : List Native := [.clock]

def name : Native → String
  | .clock => "clock"

def arity : Native → Nat
  | .clock => 0

end Native

/-- What an expression evaluates to. -/
inductive Value where
  | nil
  | bool (b : Bool)
  | number (x : Float)
  | string (s : String)
  | native (f : Native)
  | function (f : FunctionId)
  | class_ (c : ClassId)
  | instance_ (i : InstanceId)
  deriving DecidableEq, Inhabited

/-- The types that values have. -/
inductive ValueType where
  | nil | boolean | number | string | function | class_ | instance_
  deriving DecidableEq, Repr

namespace ValueType

def name : ValueType → String
  | .nil => "nil"
  | .boolean => "boolean"
  | .number => "number"
  | .string => "string"
  | .function => "function"
  | .class_ => "class"
  | .instance_ => "instance"

end ValueType

namespace Value

/-- Everything but `nil` and `false` counts as true. -/
def isTruthy : Value → Bool
  | .nil => false
  | .bool b => b
  | _ => true

def type : Value → ValueType
  | .nil => .nil
  | .bool _ => .boolean
  | .number _ => .number
  | .string _ => .string
  | .native _ | .function _ => .function
  | .class_ _ => .class_
  | .instance_ _ => .instance_

/-- The equality of the language: values of two types differ, numbers compare as numbers, and
references are equal when they lead to the same thing. -/
def equals : Value → Value → Bool
  | .number x, .number y => x == y
  | v, w => v = w

end Value

end Lox
