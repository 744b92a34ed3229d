import Lox.Syntax

/-!
# Renumbering trees

Two trees that differ in node identities alone are renumberings of each other. `renumber` gives every
node a new identity and leaves everything else of a tree as it is.
-/

namespace Lox

mutual

/-- The expression with every node identity changed. -/
def Expr.renumber (f : NodeId → NodeId) : Expr → Expr
  | .literal value => .literal value
  | .grouping inner => .grouping (inner.renumber f)
  | .unary operator right => .unary operator (right.renumber f)
  | .binary left operator right => .binary (left.renumber f) operator (right.renumber f)
  | .logical left operator right => .logical (left.renumber f) operator (right.renumber f)
  | .variable name id => .variable name (f id)
  | .assign name value id => .assign name (value.renumber f) (f id)
  | .call callee line arguments =>
    .call (callee.renumber f) line (renumberExpressions f arguments)
  | .get object name => .get (object.renumber f) name
  | .set object name value => .set (object.renumber f) name (value.renumber f)
  | .this keyword id => .this keyword (f id)
  | .super keyword method id => .super keyword method (f id)

/-- The expressions with every node identity changed. -/
def renumberExpressions (f : NodeId → NodeId) : List Expr → List Expr
  | [] => []
  | e :: rest => e.renumber f :: renumberExpressions f rest

end

mutual

/-- The statement with every node identity changed. -/
def Stmt.renumber (f : NodeId → NodeId) : Stmt → Stmt
  | .expression value => .expression (value.renumber f)
  | .print value => .print (value.renumber f)
  | .var name initializer => .var name (initializer.map (Expr.renumber f))
  | .block body => .block (renumberStatements f body)
  | .ifElse condition thenBranch none =>
    .ifElse (condition.renumber f) (thenBranch.renumber f) none
  | .ifElse condition thenBranch (some elseBranch) =>
    .ifElse (condition.renumber f) (thenBranch.renumber f) (some (elseBranch.renumber f))
  | .while condition body => .while (condition.renumber f) (body.renumber f)
  | .function d => .function (d.renumber f)
  | .return line value => .return line (value.map (Expr.renumber f))
  | .class_ name superclass methods =>
    .class_ name (superclass.map (Expr.renumber f)) (renumberMethods f methods)

/-- The statements with every node identity changed. -/
def renumberStatements (f : NodeId → NodeId) : List Stmt → List Stmt
  | [] => []
  | s :: rest => s.renumber f :: renumberStatements f rest

/-- The function with every node identity in its body changed. -/
def FunctionDecl.renumber (f : NodeId → NodeId) : FunctionDecl → FunctionDecl
  | ⟨name, parameters, body⟩ => ⟨name, parameters, renumberStatements f body⟩

/-- The methods with every node identity changed. -/
def renumberMethods (f : NodeId → NodeId) : List FunctionDecl → List FunctionDecl
  | [] => []
  | d :: rest => d.renumber f :: renumberMethods f rest

end

theorem renumberExpressions_eq_map (f : NodeId → NodeId) (expressions : List Expr) :
    renumberExpressions f expressions = expressions.map (Expr.renumber f) := by
  induction expressions with
  | nil => rfl
  | cons e rest ih => rw [renumberExpressions, ih, List.map_cons]

theorem renumberStatements_eq_map (f : NodeId → NodeId) (statements : List Stmt) :
    renumberStatements f statements = statements.map (Stmt.renumber f) := by
  induction statements with
  | nil => rfl
  | cons s rest ih => rw [renumberStatements, ih, List.map_cons]

theorem renumberMethods_eq_map (f : NodeId → NodeId) (methods : List FunctionDecl) :
    renumberMethods f methods = methods.map (FunctionDecl.renumber f) := by
  induction methods with
  | nil => rfl
  | cons d rest ih => rw [renumberMethods, ih, List.map_cons]

@[simp] theorem FunctionDecl.renumber_name (f : NodeId → NodeId) (d : FunctionDecl) :
    (d.renumber f).name = d.name := by
  cases d
  simp only [FunctionDecl.renumber]

/-! ### The same identities -/

mutual

theorem Expr.renumber_id (e : Expr) : e.renumber id = e := by
  cases e with
  | literal value => rfl
  | grouping inner => rw [Expr.renumber, inner.renumber_id]
  | unary operator right => rw [Expr.renumber, right.renumber_id]
  | binary left operator right => rw [Expr.renumber, left.renumber_id, right.renumber_id]
  | logical left operator right => rw [Expr.renumber, left.renumber_id, right.renumber_id]
  | «variable» name node => rfl
  | assign name value node => rw [Expr.renumber, value.renumber_id, id]
  | call callee line arguments =>
    rw [Expr.renumber, callee.renumber_id, renumberExpressions_id arguments]
  | get object name => rw [Expr.renumber, object.renumber_id]
  | set object name value => rw [Expr.renumber, object.renumber_id, value.renumber_id]
  | this keyword node => rfl
  | super keyword method node => rfl

theorem renumberExpressions_id (expressions : List Expr) :
    renumberExpressions id expressions = expressions := by
  cases expressions with
  | nil => rfl
  | cons e rest => rw [renumberExpressions, e.renumber_id, renumberExpressions_id rest]

end

theorem optional_renumber_id (e : Option Expr) : e.map (Expr.renumber id) = e := by
  cases e with
  | none => rfl
  | some e => rw [Option.map_some, e.renumber_id]

mutual

theorem Stmt.renumber_id (s : Stmt) : s.renumber id = s := by
  match s with
  | .expression value | .print value => rw [Stmt.renumber, value.renumber_id]
  | .var name initializer => rw [Stmt.renumber, optional_renumber_id]
  | .block body => rw [Stmt.renumber, renumberStatements_id body]
  | .ifElse condition thenBranch none =>
    rw [Stmt.renumber, condition.renumber_id, thenBranch.renumber_id]
  | .ifElse condition thenBranch (some elseBranch) =>
    rw [Stmt.renumber, condition.renumber_id, thenBranch.renumber_id, elseBranch.renumber_id]
  | .while condition body => rw [Stmt.renumber, condition.renumber_id, body.renumber_id]
  | .function d => rw [Stmt.renumber, d.renumber_id]
  | .return line value => rw [Stmt.renumber, optional_renumber_id]
  | .class_ name superclass methods =>
    rw [Stmt.renumber, optional_renumber_id, renumberMethods_id methods]

theorem renumberStatements_id (statements : List Stmt) :
    renumberStatements id statements = statements := by
  match statements with
  | [] => rfl
  | s :: rest => rw [renumberStatements, s.renumber_id, renumberStatements_id rest]

theorem FunctionDecl.renumber_id (d : FunctionDecl) : d.renumber id = d := by
  match d with
  | ⟨name, parameters, body⟩ => rw [FunctionDecl.renumber, renumberStatements_id body]

theorem renumberMethods_id (methods : List FunctionDecl) :
    renumberMethods id methods = methods := by
  match methods with
  | [] => rfl
  | d :: rest => rw [renumberMethods, d.renumber_id, renumberMethods_id rest]

end

end Lox
