import Lox.Syntax

/-!
# Expressions in prefix form

An expression written with its operator first and every operation in parentheses, as in
`(* (group (+ 1.0 2.0)) 3.0)`.
-/

namespace Lox

/-- A literal in prefix form; a string stands without quotes. -/
def Literal.prefixForm : Literal → String
  | .number value => Number.text value
  | .string text => text
  | .bool true => "true"
  | .bool false => "false"
  | .nil => "nil"

mutual

def Expr.prefixForm : Expr → String
  | .literal value => value.prefixForm
  | .grouping inner => "(group " ++ inner.prefixForm ++ ")"
  | .unary operator right => "(" ++ operator.lexeme ++ " " ++ right.prefixForm ++ ")"
  | .binary left operator right | .logical left operator right =>
    "(" ++ operator.lexeme ++ " " ++ left.prefixForm ++ " " ++ right.prefixForm ++ ")"
  | .variable name _ => name.text
  | .assign name value _ => "(= " ++ name.text ++ " " ++ value.prefixForm ++ ")"
  | .call callee _ arguments => "(call " ++ callee.prefixForm ++ prefixForms arguments ++ ")"
  | .get object name => "(. " ++ object.prefixForm ++ " " ++ name.text ++ ")"
  | .set object name value =>
    "(= (. " ++ object.prefixForm ++ " " ++ name.text ++ ") " ++ value.prefixForm ++ ")"
  | .this _ _ => "this"
  | .super _ method _ => "(super " ++ method.text ++ ")"

/-- The prefix forms of arguments, a blank before each. -/
def prefixForms : List Expr → String
  | [] => ""
  | argument :: rest => " " ++ argument.prefixForm ++ prefixForms rest

end

end Lox
