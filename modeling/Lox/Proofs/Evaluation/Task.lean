import Lox.Eval

/-!
# Tasks

The functions of an evaluation call each other, so what holds of one is proved together with what
holds of the others. A `Task` is a call of any of them apart from the bound on its depth, and
`Task.perform` carries it out. A statement about all evaluations is then one statement about tasks,
by induction on the bound, with one case for each function.
-/

namespace Lox

/-- Something that an evaluation may be asked to do. -/
inductive Task where
  | evaluate (e : Expr)
  | evaluateAll (expressions : List Expr)
  | call (callee : Value) (line : Nat) (arguments : List Value)
  | callClosure (closure : Closure) (arguments : List Value)
  | construct (c : ClassId) (arguments : List Value)
  | execute (s : Stmt)
  | evaluateOptional (e : Option Expr)
  | evaluateSuperclass (e : Option Expr)
  | executeWhile (condition : Expr) (body : Stmt)
  | executeAll (body : List Stmt)

namespace Task

/-- What a task gives when it does not halt. -/
@[reducible] def Result : Task → Type
  | .evaluate _ | .call _ _ _ | .callClosure _ _ | .construct _ _ | .evaluateOptional _ => Value
  | .evaluateAll _ => List Value
  | .evaluateSuperclass _ => Option ClassId
  | .execute _ | .executeWhile _ _ | .executeAll _ => Flow

/-- Carries a task out within a bound on the depth. -/
def perform (n : Nat) : (t : Task) → Run t.Result
  | .evaluate e => Lox.evaluate n e
  | .evaluateAll expressions => Lox.evaluateAll n expressions
  | .call callee line arguments => Lox.call n callee line arguments
  | .callClosure closure arguments => Lox.callClosure n closure arguments
  | .construct c arguments => Lox.construct n c arguments
  | .execute s => Lox.execute n s
  | .evaluateOptional e => Lox.evaluateOptional n e
  | .evaluateSuperclass e => Lox.evaluateSuperclass n e
  | .executeWhile condition body => Lox.executeWhile n condition body
  | .executeAll body => Lox.executeAll n body

/-- Without any depth left, every task runs out of fuel at once. -/
theorem perform_zero (t : Task) (m : Machine) : t.perform 0 m = .error .outOfFuel m := by
  cases t <;> rfl

end Task

end Lox
