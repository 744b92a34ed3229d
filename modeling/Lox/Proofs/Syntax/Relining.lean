import Lox.Proofs.Syntax.WellFormed

/-!
# Moving trees to other lines

Two trees that differ in line numbers alone have the same text at other places of a source. `reline` gives
every token of a tree another line and leaves everything else as it is.
-/

namespace Lox

/-- The name on another line. -/
def Name.reline (f : Nat → Nat) (x : Name) : Name := { x with line := f x.line }

/-- The token on another line. -/
def Token.reline (f : Nat → Nat) (t : Token) : Token := { t with line := f t.line }

@[simp] theorem Name.reline_text (f : Nat → Nat) (x : Name) : (x.reline f).text = x.text := rfl

@[simp] theorem Token.reline_kind (f : Nat → Nat) (t : Token) : (t.reline f).kind = t.kind := rfl

@[simp] theorem Token.reline_line (f : Nat → Nat) (t : Token) : (t.reline f).line = f t.line := rfl

mutual

/-- The expression on other lines. -/
def Expr.reline (f : Nat → Nat) : Expr → Expr
  | .literal value => .literal value
  | .grouping inner => .grouping (inner.reline f)
  | .unary operator right => .unary (operator.reline f) (right.reline f)
  | .binary left operator right => .binary (left.reline f) (operator.reline f) (right.reline f)
  | .logical left operator right => .logical (left.reline f) (operator.reline f) (right.reline f)
  | .variable name id => .variable (name.reline f) id
  | .assign name value id => .assign (name.reline f) (value.reline f) id
  | .call callee line arguments => .call (callee.reline f) (f line) (relineExpressions f arguments)
  | .get object name => .get (object.reline f) (name.reline f)
  | .set object name value => .set (object.reline f) (name.reline f) (value.reline f)
  | .this keyword id => .this (keyword.reline f) id
  | .super keyword method id => .super (keyword.reline f) (method.reline f) id

/-- The expressions on other lines. -/
def relineExpressions (f : Nat → Nat) : List Expr → List Expr
  | [] => []
  | e :: rest => e.reline f :: relineExpressions f rest

end

mutual

/-- The statement on other lines. -/
def Stmt.reline (f : Nat → Nat) : Stmt → Stmt
  | .expression value => .expression (value.reline f)
  | .print value => .print (value.reline f)
  | .var name initializer => .var (name.reline f) (initializer.map (Expr.reline f))
  | .block body => .block (relineStatements f body)
  | .ifElse condition thenBranch none => .ifElse (condition.reline f) (thenBranch.reline f) none
  | .ifElse condition thenBranch (some elseBranch) =>
    .ifElse (condition.reline f) (thenBranch.reline f) (some (elseBranch.reline f))
  | .while condition body => .while (condition.reline f) (body.reline f)
  | .function d => .function (d.reline f)
  | .return line value => .return (f line) (value.map (Expr.reline f))
  | .class_ name superclass methods =>
    .class_ (name.reline f) (superclass.map (Expr.reline f)) (relineMethods f methods)

/-- The statements on other lines. -/
def relineStatements (f : Nat → Nat) : List Stmt → List Stmt
  | [] => []
  | s :: rest => s.reline f :: relineStatements f rest

/-- The function on other lines. -/
def FunctionDecl.reline (f : Nat → Nat) : FunctionDecl → FunctionDecl
  | ⟨name, parameters, body⟩ =>
    ⟨name.reline f, parameters.map (Name.reline f), relineStatements f body⟩

/-- The methods on other lines. -/
def relineMethods (f : Nat → Nat) : List FunctionDecl → List FunctionDecl
  | [] => []
  | d :: rest => d.reline f :: relineMethods f rest

end

theorem relineExpressions_eq_map (f : Nat → Nat) (expressions : List Expr) :
    relineExpressions f expressions = expressions.map (Expr.reline f) := by
  induction expressions with
  | nil => rfl
  | cons e rest ih => rw [relineExpressions, ih, List.map_cons]

theorem relineStatements_eq_map (f : Nat → Nat) (statements : List Stmt) :
    relineStatements f statements = statements.map (Stmt.reline f) := by
  induction statements with
  | nil => rfl
  | cons s rest ih => rw [relineStatements, ih, List.map_cons]

theorem relineMethods_eq_map (f : Nat → Nat) (methods : List FunctionDecl) :
    relineMethods f methods = methods.map (FunctionDecl.reline f) := by
  induction methods with
  | nil => rfl
  | cons d rest ih => rw [relineMethods, ih, List.map_cons]

@[simp] theorem Stmt.reline_ifElse (f : Nat → Nat) (condition : Expr) (thenBranch : Stmt)
    (elseBranch : Option Stmt) :
    (Stmt.ifElse condition thenBranch elseBranch).reline f =
      .ifElse (condition.reline f) (thenBranch.reline f) (elseBranch.map (Stmt.reline f)) := by
  cases elseBranch <;> simp only [Stmt.reline, Option.map]

section

variable (f : Nat → Nat) (d : FunctionDecl)

@[simp] theorem FunctionDecl.reline_name : (d.reline f).name = d.name.reline f := by
  cases d
  simp only [FunctionDecl.reline]

@[simp] theorem FunctionDecl.reline_parameters :
    (d.reline f).parameters = d.parameters.map (Name.reline f) := by
  cases d
  simp only [FunctionDecl.reline]

@[simp] theorem FunctionDecl.isInitializer_reline :
    (d.reline f).isInitializer = d.isInitializer := by
  simp [FunctionDecl.isInitializer]

end

/-! ### The same lines -/

theorem Name.reline_id (x : Name) : x.reline id = x := rfl

theorem Token.reline_id (t : Token) : t.reline id = t := rfl

mutual

theorem Expr.reline_id (e : Expr) : e.reline id = e := by
  cases e with
  | literal value => rfl
  | grouping inner => rw [Expr.reline, inner.reline_id]
  | unary operator right => rw [Expr.reline, right.reline_id, Token.reline_id]
  | binary left operator right => rw [Expr.reline, left.reline_id, right.reline_id, Token.reline_id]
  | logical left operator right => rw [Expr.reline, left.reline_id, right.reline_id, Token.reline_id]
  | «variable» name node => rfl
  | assign name value node => rw [Expr.reline, value.reline_id, Name.reline_id]
  | call callee line arguments =>
    rw [Expr.reline, callee.reline_id, relineExpressions_id arguments, id]
  | get object name => rw [Expr.reline, object.reline_id, Name.reline_id]
  | set object name value => rw [Expr.reline, object.reline_id, value.reline_id, Name.reline_id]
  | this keyword node => rfl
  | super keyword method node => rfl

theorem relineExpressions_id (expressions : List Expr) :
    relineExpressions id expressions = expressions := by
  cases expressions with
  | nil => rfl
  | cons e rest => rw [relineExpressions, e.reline_id, relineExpressions_id rest]

end

theorem optional_reline_id (e : Option Expr) : e.map (Expr.reline id) = e := by
  cases e with
  | none => rfl
  | some e => rw [Option.map_some, e.reline_id]

mutual

theorem Stmt.reline_id (s : Stmt) : s.reline id = s := by
  match s with
  | .expression value | .print value => rw [Stmt.reline, value.reline_id]
  | .var name initializer => rw [Stmt.reline, optional_reline_id, Name.reline_id]
  | .block body => rw [Stmt.reline, relineStatements_id body]
  | .ifElse condition thenBranch none => rw [Stmt.reline, condition.reline_id, thenBranch.reline_id]
  | .ifElse condition thenBranch (some elseBranch) =>
    rw [Stmt.reline, condition.reline_id, thenBranch.reline_id, elseBranch.reline_id]
  | .while condition body => rw [Stmt.reline, condition.reline_id, body.reline_id]
  | .function d => rw [Stmt.reline, d.reline_id]
  | .return line value => rw [Stmt.reline, optional_reline_id, id]
  | .class_ name superclass methods =>
    rw [Stmt.reline, optional_reline_id, relineMethods_id methods, Name.reline_id]

theorem relineStatements_id (statements : List Stmt) :
    relineStatements id statements = statements := by
  match statements with
  | [] => rfl
  | s :: rest => rw [relineStatements, s.reline_id, relineStatements_id rest]

theorem FunctionDecl.reline_id (d : FunctionDecl) : d.reline id = d := by
  match d with
  | ⟨name, parameters, body⟩ =>
    rw [FunctionDecl.reline, relineStatements_id body, Name.reline_id]
    exact congrArg (FunctionDecl.mk name · body) (List.map_id parameters)

theorem relineMethods_id (methods : List FunctionDecl) : relineMethods id methods = methods := by
  match methods with
  | [] => rfl
  | d :: rest => rw [relineMethods, d.reline_id, relineMethods_id rest]

end

/-! ### One move after another -/

section

variable (f g : Nat → Nat)

theorem Name.reline_reline (x : Name) : (x.reline f).reline g = x.reline (g ∘ f) := rfl

theorem Token.reline_reline (t : Token) : (t.reline f).reline g = t.reline (g ∘ f) := rfl

mutual

theorem Expr.reline_reline (e : Expr) : (e.reline f).reline g = e.reline (g ∘ f) := by
  cases e with
  | literal value => rfl
  | grouping inner => simp only [Expr.reline, inner.reline_reline]
  | unary operator right => simp only [Expr.reline, right.reline_reline, Token.reline_reline]
  | binary left operator right =>
    simp only [Expr.reline, left.reline_reline, right.reline_reline, Token.reline_reline]
  | logical left operator right =>
    simp only [Expr.reline, left.reline_reline, right.reline_reline, Token.reline_reline]
  | «variable» name node => simp only [Expr.reline, Name.reline_reline]
  | assign name value node => simp only [Expr.reline, value.reline_reline, Name.reline_reline]
  | call callee line arguments =>
    simp only [Expr.reline, callee.reline_reline, relineExpressions_reline arguments,
      Function.comp_apply]
  | get object name => simp only [Expr.reline, object.reline_reline, Name.reline_reline]
  | set object name value =>
    simp only [Expr.reline, object.reline_reline, value.reline_reline, Name.reline_reline]
  | this keyword node => simp only [Expr.reline, Name.reline_reline]
  | super keyword method node => simp only [Expr.reline, Name.reline_reline]

theorem relineExpressions_reline (expressions : List Expr) :
    relineExpressions g (relineExpressions f expressions) =
      relineExpressions (g ∘ f) expressions := by
  cases expressions with
  | nil => rfl
  | cons e rest => simp only [relineExpressions, e.reline_reline, relineExpressions_reline rest]

end

theorem optional_reline_reline (e : Option Expr) :
    (e.map (Expr.reline f)).map (Expr.reline g) = e.map (Expr.reline (g ∘ f)) := by
  cases e with
  | none => rfl
  | some e => simp only [Option.map_some, e.reline_reline]

mutual

theorem Stmt.reline_reline (s : Stmt) : (s.reline f).reline g = s.reline (g ∘ f) := by
  match s with
  | .expression value | .print value => simp only [Stmt.reline, value.reline_reline]
  | .var name initializer =>
    simp only [Stmt.reline, optional_reline_reline, Name.reline_reline]
  | .block body => simp only [Stmt.reline, relineStatements_reline body]
  | .ifElse condition thenBranch none =>
    simp only [Stmt.reline, condition.reline_reline, thenBranch.reline_reline]
  | .ifElse condition thenBranch (some elseBranch) =>
    simp only [Stmt.reline, condition.reline_reline, thenBranch.reline_reline,
      elseBranch.reline_reline]
  | .while condition body => simp only [Stmt.reline, condition.reline_reline, body.reline_reline]
  | .function d => simp only [Stmt.reline, d.reline_reline]
  | .return line value => simp only [Stmt.reline, optional_reline_reline, Function.comp_apply]
  | .class_ name superclass methods =>
    simp only [Stmt.reline, optional_reline_reline, relineMethods_reline methods,
      Name.reline_reline]

theorem relineStatements_reline (statements : List Stmt) :
    relineStatements g (relineStatements f statements) = relineStatements (g ∘ f) statements := by
  match statements with
  | [] => rfl
  | s :: rest => simp only [relineStatements, s.reline_reline, relineStatements_reline rest]

theorem FunctionDecl.reline_reline (d : FunctionDecl) :
    (d.reline f).reline g = d.reline (g ∘ f) := by
  match d with
  | ⟨name, parameters, body⟩ =>
    simp only [FunctionDecl.reline, relineStatements_reline body, Name.reline_reline, List.map_map]
    congr

theorem relineMethods_reline (methods : List FunctionDecl) :
    relineMethods g (relineMethods f methods) = relineMethods (g ∘ f) methods := by
  match methods with
  | [] => rfl
  | d :: rest => simp only [relineMethods, d.reline_reline, relineMethods_reline rest]

end

end

end Lox
