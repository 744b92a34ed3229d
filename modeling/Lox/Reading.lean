import Lox.Grammar.Program
import Lox.Source

/-!
# Reading sources

A source is read as a program or as one expression. Lexical problems come first among the
diagnostics of a reading, then those of the grammar in the order they were found.
-/

namespace Lox

/-- What was read, what was wrong, and the next free node identity. -/
structure Reading (α : Type) where
  result : α
  diagnostics : List Diagnostic
  nextId : NodeId

namespace Grammar

/-- Reads tokens as a program, up to the first end token: the statements that are well-formed. -/
def program (tokens : List Token) (firstId : NodeId) : Reading (List Stmt) :=
  match declarations (depthFor tokens) .eof [] (State.start tokens firstId) with
  | .ok statements s => ⟨statements, s.problems.toList, s.nextId⟩
  | .error d s => ⟨[], s.problems.toList ++ [d], s.nextId⟩

/-- Reads tokens as one expression. What was noted on the way comes before a failure. -/
def soleExpression (tokens : List Token) (firstId : NodeId) : Reading (Option Expr) :=
  match singleExpression tokens (State.start tokens firstId) with
  | .ok e s => ⟨some e, s.problems.toList, s.nextId⟩
  | .error d s => ⟨none, s.problems.toList ++ [d], s.nextId⟩

end Grammar

namespace Source

/-- Reads a source as a program. -/
def program (source : String) (firstId : NodeId) : Reading (List Stmt) :=
  let reading := Grammar.program (tokens source) firstId
  { reading with diagnostics := problems source ++ reading.diagnostics }

/-- Reads a source as one expression. -/
def soleExpression (source : String) (firstId : NodeId) : Reading (Option Expr) :=
  let reading := Grammar.soleExpression (tokens source) firstId
  { reading with diagnostics := problems source ++ reading.diagnostics }

end Source

namespace Reading

/-- The result, unless something was wrong. -/
def toExcept {α : Type} (reading : Reading (Option α)) : Except (List Diagnostic) α :=
  match reading.result, reading.diagnostics with
  | some value, [] => .ok value
  | _, diagnostics => .error diagnostics

theorem toExcept_eq_ok {α : Type} {reading : Reading (Option α)} {value : α} :
    reading.toExcept = .ok value ↔ reading.result = some value ∧ reading.diagnostics = [] := by
  obtain ⟨result, diagnostics, nextId⟩ := reading
  cases result <;> cases diagnostics <;> simp [toExcept]

end Reading

end Lox
