import Lox.Grammar.Expression

/-!
# Well-formed trees

What holds of every tree that is read from a source, and of no others: operators stand where they
mean something, no variable is called `this` or `super`, a superclass is a name, and the branches of
an `if` and the body of a `while` declare nothing. `ids` lists the identities of the nodes of a tree
in the order in which the walk over its scopes comes to them.
-/

namespace Lox

/-- A name that a variable can have. -/
def IsPlain (name : String) : Prop :=
  name ≠ Keyword.this.spelling ∧ name ≠ Keyword.super.spelling

/-- Whether a token of this kind is an operator of arithmetic, order or equality. -/
def isBinaryOperator (kind : Token.Kind) : Bool :=
  [Grammar.Level.equality, .comparison, .term, .factor].any (·.joins kind)

mutual

def Expr.WellFormed : Expr → Prop
  | .literal _ => True
  | .grouping inner => inner.WellFormed
  | .unary operator right => Grammar.isPrefixOperator operator.kind ∧ right.WellFormed
  | .binary left operator right =>
    isBinaryOperator operator.kind ∧ left.WellFormed ∧ right.WellFormed
  | .logical left _ right => left.WellFormed ∧ right.WellFormed
  | .variable name _ => IsPlain name.text
  | .assign name value _ => IsPlain name.text ∧ value.WellFormed
  | .call callee _ arguments => callee.WellFormed ∧ expressionsWellFormed arguments
  | .get object _ => object.WellFormed
  | .set object _ value => value.WellFormed ∧ object.WellFormed
  | .this keyword _ => keyword.text = Keyword.this.spelling
  | .super keyword _ _ => keyword.text = Keyword.super.spelling

def expressionsWellFormed : List Expr → Prop
  | [] => True
  | e :: rest => e.WellFormed ∧ expressionsWellFormed rest

end

/-- An expression that can name a superclass. -/
def Expr.IsPlainName : Expr → Prop
  | .variable name _ => IsPlain name.text
  | _ => False

/-- The name that a statement declares, if it declares one. -/
def Stmt.declared? : Stmt → Option String
  | .var name _ | .class_ name _ _ => some name.text
  | .function d => some d.name.text
  | _ => none

mutual

def Stmt.WellFormed : Stmt → Prop
  | .expression value | .print value => value.WellFormed
  | .var name initializer => IsPlain name.text ∧ ∀ e ∈ initializer, e.WellFormed
  | .block body => statementsWellFormed body
  | .ifElse condition thenBranch none =>
    condition.WellFormed ∧ thenBranch.WellFormed ∧ thenBranch.declared? = none
  | .ifElse condition thenBranch (some elseBranch) =>
    condition.WellFormed ∧ (thenBranch.WellFormed ∧ thenBranch.declared? = none) ∧
      elseBranch.WellFormed ∧ elseBranch.declared? = none
  | .while condition body => condition.WellFormed ∧ body.WellFormed ∧ body.declared? = none
  | .function d => IsPlain d.name.text ∧ d.WellFormed
  | .return _ value => ∀ e ∈ value, e.WellFormed
  | .class_ name superclass methods =>
    IsPlain name.text ∧ (∀ e ∈ superclass, e.IsPlainName) ∧ methodsWellFormed methods

def statementsWellFormed : List Stmt → Prop
  | [] => True
  | s :: rest => s.WellFormed ∧ statementsWellFormed rest

def FunctionDecl.WellFormed : FunctionDecl → Prop
  | ⟨_, parameters, body⟩ => (∀ p ∈ parameters, IsPlain p.text) ∧ statementsWellFormed body

def methodsWellFormed : List FunctionDecl → Prop
  | [] => True
  | d :: rest => d.WellFormed ∧ methodsWellFormed rest

end

/-! ### Node identities -/

mutual

def Expr.ids : Expr → List NodeId
  | .literal _ => []
  | .grouping inner => inner.ids
  | .unary _ right => right.ids
  | .binary left _ right | .logical left _ right => left.ids ++ right.ids
  | .variable _ id | .this _ id | .super _ _ id => [id]
  | .assign _ value id => value.ids ++ [id]
  | .call callee _ arguments => callee.ids ++ expressionIds arguments
  | .get object _ => object.ids
  | .set object _ value => value.ids ++ object.ids

def expressionIds : List Expr → List NodeId
  | [] => []
  | e :: rest => e.ids ++ expressionIds rest

end

/-- The identities in an expression that may be absent. -/
def optionalIds : Option Expr → List NodeId
  | none => []
  | some e => e.ids

mutual

def Stmt.ids : Stmt → List NodeId
  | .expression value | .print value => value.ids
  | .var _ initializer => optionalIds initializer
  | .block body => statementIds body
  | .ifElse condition thenBranch none => condition.ids ++ thenBranch.ids
  | .ifElse condition thenBranch (some elseBranch) =>
    condition.ids ++ thenBranch.ids ++ elseBranch.ids
  | .while condition body => condition.ids ++ body.ids
  | .function d => d.ids
  | .return _ value => optionalIds value
  | .class_ _ superclass methods => optionalIds superclass ++ methodIds methods

def statementIds : List Stmt → List NodeId
  | [] => []
  | s :: rest => s.ids ++ statementIds rest

def FunctionDecl.ids : FunctionDecl → List NodeId
  | ⟨_, _, body⟩ => statementIds body

def methodIds : List FunctionDecl → List NodeId
  | [] => []
  | d :: rest => d.ids ++ methodIds rest

end

end Lox
