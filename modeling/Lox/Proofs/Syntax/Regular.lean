import Lox.Proofs.Syntax.WellFormed

/-!
# Regular trees

In a regular tree declarations stand only where there is a list of statements, never as a branch or as the
body of a loop, and a superclass is a name. All trees that are read are regular, whatever the tokens.
-/

namespace Lox

mutual

def Stmt.Regular : Stmt → Prop
  | .expression _ | .print _ | .var _ _ | .return _ _ => True
  | .block body => statementsRegular body
  | .ifElse _ thenBranch none => thenBranch.Regular ∧ thenBranch.declared? = none
  | .ifElse _ thenBranch (some elseBranch) =>
    (thenBranch.Regular ∧ thenBranch.declared? = none) ∧
      elseBranch.Regular ∧ elseBranch.declared? = none
  | .while _ body => body.Regular ∧ body.declared? = none
  | .function d => d.Regular
  | .class_ _ superclass methods =>
    (∀ e ∈ superclass, ∃ name id, e = .variable name id) ∧ methodsRegular methods

def statementsRegular : List Stmt → Prop
  | [] => True
  | s :: rest => s.Regular ∧ statementsRegular rest

def FunctionDecl.Regular : FunctionDecl → Prop
  | ⟨_, _, body⟩ => statementsRegular body

def methodsRegular : List FunctionDecl → Prop
  | [] => True
  | d :: rest => d.Regular ∧ methodsRegular rest

end

section

attribute [local simp] Stmt.Regular statementsRegular FunctionDecl.Regular methodsRegular

theorem statementsRegular_iff (statements : List Stmt) :
    statementsRegular statements ↔ ∀ s ∈ statements, s.Regular := by
  induction statements with
  | nil => simp
  | cons s rest ih => simp [ih]

theorem methodsRegular_iff (methods : List FunctionDecl) :
    methodsRegular methods ↔ ∀ d ∈ methods, d.Regular := by
  induction methods with
  | nil => simp
  | cons d rest ih => simp [ih]

end

end Lox
