import Lox.Token

/-!
# Syntax trees

Expressions, statements and function declarations. A node that names a variable carries an
identity, so that two occurrences of one name can be bound differently. A tree keeps the line
of each token that an error may be reported at, and the whole token of an operator.
-/

namespace Lox

/-- The identity of a node that names a variable. -/
abbrev NodeId := Nat

/-- A name where it occurs in a source. -/
structure Name where
  text : String
  line : Nat
  deriving DecidableEq, Repr, Inhabited

/-- A constant written in a source. -/
inductive Literal where
  | number (value : Float)
  | string (text : String)
  | bool (value : Bool)
  | nil
  deriving DecidableEq, Repr, Inhabited

inductive Expr where
  | literal (value : Literal)
  | grouping (inner : Expr)
  | unary (operator : Token) (right : Expr)
  | binary (left : Expr) (operator : Token) (right : Expr)
  /-- An `and` or `or`, which may leave its right side out. -/
  | logical (left : Expr) (operator : Token) (right : Expr)
  | variable (name : Name) (id : NodeId)
  | assign (name : Name) (value : Expr) (id : NodeId)
  /-- A call, with the line of its closing parenthesis. -/
  | call (callee : Expr) (line : Nat) (arguments : List Expr)
  | get (object : Expr) (name : Name)
  | set (object : Expr) (name : Name) (value : Expr)
  | this (keyword : Name) (id : NodeId)
  | super (keyword : Name) (method : Name) (id : NodeId)
  deriving Inhabited

mutual

inductive Stmt where
  | expression (value : Expr)
  | print (value : Expr)
  | var (name : Name) (initializer : Option Expr)
  | block (body : List Stmt)
  | ifElse (condition : Expr) (thenBranch : Stmt) (elseBranch : Option Stmt)
  | while (condition : Expr) (body : Stmt)
  | function (declaration : FunctionDecl)
  /-- A `return`, with the line of the keyword. -/
  | return (line : Nat) (value : Option Expr)
  /-- A class; its superclass is an expression that names it. -/
  | class_ (name : Name) (superclass : Option Expr) (methods : List FunctionDecl)

/-- A function or method with its parameters and body. -/
structure FunctionDecl where
  name : Name
  parameters : List Name
  body : List Stmt

end

instance : Inhabited Stmt := ⟨.block []⟩

instance : Inhabited FunctionDecl := ⟨⟨default, [], []⟩⟩

/-- The method that initializes a new instance. -/
def initializerName : String := "init"

/-- Whether a method of a class is its initializer. -/
def FunctionDecl.isInitializer (d : FunctionDecl) : Bool := d.name.text = initializerName

end Lox
