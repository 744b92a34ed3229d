import Lox.Scope.Basic

/-!
# Resolving programs

The walk over a program that looks every occurrence of a name up and reports what may not stand
where it stands. Errors never end the walk. `Resolution.ofProgram` walks over a whole program, and
`bindings?` are its local look-ups, given only if there was no error.
-/

namespace Lox

mutual

/-- Walks over an expression. The value of an assignment comes before its target. -/
def Expr.resolve (r : Resolution) : Expr → Resolution
  | .literal _ => r
  | .grouping inner => inner.resolve r
  | .unary _ right => right.resolve r
  | .binary left _ right | .logical left _ right => right.resolve (left.resolve r)
  | .variable name id =>
    (r.reportIf (r.innermost? name.text = some .declared) name .readInOwnInitializer).lookUp id
      name.text
  | .assign name value id => (value.resolve r).lookUp id name.text
  | .call callee _ arguments => resolveExpressions (callee.resolve r) arguments
  | .get object _ => object.resolve r
  | .set object _ value => object.resolve (value.resolve r)
  | .this keyword id =>
    match r.inClass with
    | .none => r.report keyword.line keyword.text .thisOutsideClass
    | _ => r.lookUp id keyword.text
  | .super keyword _ id =>
    let r := match r.inClass with
      | .none => r.report keyword.line keyword.text .superOutsideClass
      | .plain => r.report keyword.line keyword.text .superWithoutSuperclass
      | .derived => r
    r.lookUp id keyword.text

/-- Walks over expressions from left to right. -/
def resolveExpressions (r : Resolution) : List Expr → Resolution
  | [] => r
  | e :: rest => resolveExpressions (e.resolve r) rest

end

namespace Resolution

/-- Walks over an expression if there is one. -/
def optional (r : Resolution) : Option Expr → Resolution
  | none => r
  | some e => e.resolve r

/-- Declares and defines the parameters of a function. -/
def parameters (r : Resolution) (names : List Name) : Resolution :=
  names.foldl (fun r name => (r.declare name).define name) r

/-- Walks over a `return` on the given line. -/
def returning (r : Resolution) (line : Nat) (value : Option Expr) : Resolution :=
  let keyword : Name := ⟨Keyword.return.spelling, line⟩
  let r := r.reportIf (r.inFunction = .none) keyword .returnAtTopLevel
  match value with
  | none => r
  | some e =>
    e.resolve (r.reportIf (r.inFunction = .initializer) keyword .returnValueFromInitializer)

/-- Walks over the name and the superclass of a class, up to its methods. -/
def classHeader (r : Resolution) (name : Name) (superclass : Option Expr) : Resolution :=
  let r := ({ r with inClass := .plain }.declare name).define name
  match superclass with
  | none => r
  | some parent =>
    let r := match parent with
      | .variable parentName _ =>
        r.reportIf (parentName.text = name.text) parentName .inheritsFromItself
      | _ => r
    -- The superclass is looked up outside the scopes that hold `super` and `this`.
    parent.resolve { r with inClass := .derived }

end Resolution

/-- The body that the statements of a method stand in. -/
def FunctionDecl.context (d : FunctionDecl) : FunctionContext :=
  if d.isInitializer then .initializer else .method

mutual

/-- Walks over a statement. -/
def Stmt.resolve (r : Resolution) : Stmt → Resolution
  | .expression value | .print value => value.resolve r
  -- While its initializer is walked over a name is declared but cannot be read.
  | .var name initializer => ((r.declare name).optional initializer).define name
  | .block body => r.within [] fun r => resolveStatements r body
  | .ifElse condition thenBranch none => thenBranch.resolve (condition.resolve r)
  | .ifElse condition thenBranch (some elseBranch) =>
    elseBranch.resolve (thenBranch.resolve (condition.resolve r))
  | .while condition body => body.resolve (condition.resolve r)
  -- A function may call itself, so its name can be read in its body.
  | .function d => d.resolve ((r.declare d.name).define d.name) .function
  | .return line value => r.returning line value
  | .class_ name superclass methods =>
    let inMethods (r : Resolution) : Resolution :=
      r.within [Keyword.this.spelling] fun r => resolveMethods r methods
    let walked := r.classHeader name superclass
    -- The scope of `super` encloses the scope of `this`, as the frames of a method's call do.
    let walked := match superclass with
      | none => inMethods walked
      | some _ => walked.within [Keyword.super.spelling] inMethods
    { walked with inClass := r.inClass }

/-- Walks over statements in order. -/
def resolveStatements (r : Resolution) : List Stmt → Resolution
  | [] => r
  | s :: rest => resolveStatements (s.resolve r) rest

/-- Walks over a function: its parameters and its body share one scope. -/
def FunctionDecl.resolve (r : Resolution) (d : FunctionDecl) (context : FunctionContext) :
    Resolution :=
  match d with
  | ⟨_, parameters, body⟩ =>
    let walked := { r with inFunction := context }.within [] fun r =>
      resolveStatements (r.parameters parameters) body
    { walked with inFunction := r.inFunction }

/-- Walks over the methods of a class in order. -/
def resolveMethods (r : Resolution) : List FunctionDecl → Resolution
  | [] => r
  | d :: rest => resolveMethods (d.resolve r d.context) rest

end

namespace Resolution

/-- The walk over a whole program. -/
def ofProgram (statements : List Stmt) : Resolution := resolveStatements start statements

/-- The local look-ups of a program without errors, or its errors. -/
def bindings? (r : Resolution) : Except (List Diagnostic) (List Binding) :=
  match r.problems.toList with
  | [] => .ok (r.lookups.toList.filterMap Lookup.binding?)
  | problems => .error problems

end Resolution

end Lox
