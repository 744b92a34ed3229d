import Lox.Proofs.Evaluation.Steps
import Lox.Proofs.Evaluation.Task

/-!
# Induction over evaluations

A property of runs that the steps have, with printing, calling and running out of depth among them, and
that composition keeps, holds of every task within every bound, and so of every program. What a function
of the evaluation does itself is made of such steps, and the functions that it calls have less of the
bound.
-/

namespace Lox

namespace Run

/-- `P` holds of all that an evaluation is made of, and is kept by composition. -/
structure EvalClosed (P : ∀ α : Type, Run α → Prop) : Prop extends StepClosed P where
  exhausted : ∀ α : Type, P α (throw .outOfFuel)
  nested : ∀ {α : Type} {body : Run α}, P α body → ∀ line, P α (nested line body)
  print : ∀ value, P Unit (print value)
  readClock : P Float readClock
  flush : P Unit flush

namespace EvalClosed

variable {P : ∀ α : Type, Run α → Prop} (closed : EvalClosed P) {n : Nat}

include closed

theorem callNative (f : Native) : P Value (callNative f) := by
  cases f with
  | clock =>
    apply closed.bind closed.readClock
    intro time
    exact closed.pure (Value.number time)

/-! ### One function at a time -/

section

variable (ih : ∀ t : Task, P t.Result (t.perform n))

include ih

private theorem evaluate_succ (e : Expr) : P Value (Lox.evaluate (n + 1) e) := by
  have value (e : Expr) : P Value (Lox.evaluate n e) := ih (.evaluate e)
  cases e with
  | literal c => exact closed.pure _
  | grouping inner => exact value inner
  | unary operator right =>
    apply closed.bind (value right)
    intro v
    exact closed.ofExcept (applyPrefix_ne_overflow operator v) _
  | binary left operator right =>
    apply closed.bind (value left)
    intro a
    apply closed.bind (value right)
    intro b
    exact closed.ofExcept (applyBinary_ne_overflow operator a b) _
  | logical left operator right =>
    apply closed.bind (value left)
    intro v
    split
    · exact closed.pure v
    · exact value right
  | «variable» name id => exact closed.lookUp _ id name.text
  | assign name e id =>
    apply closed.bind (value e)
    intro v
    apply closed.bind (closed.assign id name v)
    intro _
    exact closed.pure v
  | call callee line arguments =>
    apply closed.bind (value callee)
    intro f
    apply closed.bind (ih (.evaluateAll arguments))
    intro values
    exact ih (.call f line values)
  | get object name =>
    apply closed.bind (value object)
    intro v
    exact closed.getProperty v name
  | set object name e =>
    apply closed.bind (value object)
    intro target
    cases target with
    | instance_ i =>
      apply closed.bind (value e)
      intro v
      apply closed.bind (closed.setField i name v)
      intro _
      exact closed.pure v
    | _ => exact closed.fault _ _ (by nofun)
  | this keyword id => exact closed.lookUp _ id keyword.text
  | super keyword method id => exact closed.superMethod keyword method id

private theorem evaluateAll_succ (expressions : List Expr) :
    P (List Value) (Lox.evaluateAll (n + 1) expressions) := by
  cases expressions with
  | nil => exact closed.pure _
  | cons e rest =>
    apply closed.bind (ih (.evaluate e))
    intro v
    apply closed.bind (ih (.evaluateAll rest))
    intro values
    exact closed.pure _

private theorem call_succ (callee : Value) (line : Nat) (arguments : List Value) :
    P Value (Lox.call (n + 1) callee line arguments) := by
  cases callee with
  | native f =>
    apply closed.bind (closed.checkArity _ _ line)
    intro _
    exact closed.callNative f
  | function f =>
    apply closed.bind (closed.ask fun _ _ => rfl)
    intro found
    cases found with
    | none => exact closed.fault _ line (by nofun)
    | some closure =>
      apply closed.bind (closed.checkArity _ _ line)
      intro _
      exact closed.nested (ih (.callClosure closure arguments)) line
  | class_ c =>
    apply closed.bind (closed.ask fun _ _ => rfl)
    intro arity
    apply closed.bind (closed.checkArity _ _ line)
    intro _
    exact closed.nested (ih (.construct c arguments)) line
  | nil | bool _ | number _ | string _ | instance_ _ => exact closed.fault _ line (by nofun)

private theorem callClosure_succ (closure : Closure) (arguments : List Value) :
    P Value (Lox.callClosure (n + 1) closure arguments) := by
  apply closed.bind (closed.callFrame closure arguments)
  intro frame
  apply closed.bind (closed.inFrame (ih (.executeAll closure.declaration.body)) frame)
  intro flow
  exact closed.callResult closure flow

private theorem construct_succ (c : ClassId) (arguments : List Value) :
    P Value (Lox.construct (n + 1) c arguments) := by
  apply closed.bind (closed.addInstance c)
  intro i
  apply closed.bind (closed.ask fun _ _ => rfl)
  intro found
  cases found with
  | some method =>
    apply closed.bind (closed.bindMethod method _)
    intro closure
    apply closed.bind (ih (.callClosure closure arguments))
    intro _
    exact closed.pure _
  | none => exact closed.pure _

private theorem execute_succ (s : Stmt) : P Flow (Lox.execute (n + 1) s) := by
  have value (e : Expr) : P Value (Lox.evaluate n e) := ih (.evaluate e)
  cases s with
  | expression e =>
    apply closed.bind (value e)
    intro v
    exact closed.pure _
  | print e =>
    apply closed.bind (value e)
    intro v
    apply closed.bind (closed.print v)
    intro _
    exact closed.pure _
  | var name initializer =>
    apply closed.bind (ih (.evaluateOptional initializer))
    intro v
    apply closed.bind closed.current
    intro frame
    apply closed.bind (closed.define frame _ v)
    intro _
    exact closed.pure _
  | block body =>
    apply closed.bind closed.current
    intro outside
    apply closed.bind (closed.addFrame _ _)
    intro frame
    exact closed.inFrame (ih (.executeAll body)) frame
  | ifElse condition thenBranch elseBranch =>
    apply closed.bind (value condition)
    intro v
    split
    · exact ih (.execute thenBranch)
    · cases elseBranch with
      | some s => exact ih (.execute s)
      | none => exact closed.pure _
  | «while» condition body => exact ih (.executeWhile condition body)
  | function d =>
    apply closed.bind (closed.declareFunction d)
    intro _
    exact closed.pure _
  | «return» line e =>
    apply closed.bind (ih (.evaluateOptional e))
    intro v
    exact closed.pure _
  | class_ name superclass methods =>
    apply closed.bind (ih (.evaluateSuperclass superclass))
    intro parent
    apply closed.bind (closed.declareClass name parent methods)
    intro _
    exact closed.pure _

private theorem evaluateOptional_succ (e : Option Expr) :
    P Value (Lox.evaluateOptional (n + 1) e) := by
  cases e with
  | none => exact closed.pure _
  | some e => exact ih (.evaluate e)

private theorem evaluateSuperclass_succ (e : Option Expr) :
    P (Option ClassId) (Lox.evaluateSuperclass (n + 1) e) := by
  cases e with
  | none => exact closed.pure _
  | some e =>
    apply closed.bind (ih (.evaluate e))
    intro v
    cases v with
    | class_ c => exact closed.pure _
    | _ => exact closed.fault _ _ (by nofun)

private theorem executeWhile_succ (condition : Expr) (body : Stmt) :
    P Flow (Lox.executeWhile (n + 1) condition body) := by
  apply closed.bind (ih (.evaluate condition))
  intro v
  split
  · apply closed.bind (ih (.execute body))
    intro flow
    cases flow with
    | «return» value => exact closed.pure _
    -- the next round is a task with less of the bound
    | next value => exact ih (.executeWhile condition body)
  · exact closed.pure _

private theorem executeAll_succ (body : List Stmt) : P Flow (Lox.executeAll (n + 1) body) := by
  cases body with
  | nil => exact closed.pure _
  | cons s rest =>
    apply closed.bind (ih (.execute s))
    intro flow
    cases flow with
    | «return» value => exact closed.pure _
    | next value => exact ih (.executeAll rest)

end

/-! ### Every task -/

/-- The property holds of every task, by induction on the bound. -/
theorem task (n : Nat) (t : Task) : P t.Result (t.perform n) := by
  induction n generalizing t with
  | zero => cases t <;> exact closed.exhausted _
  | succ n ih =>
    cases t with
    | evaluate e => exact evaluate_succ closed ih e
    | evaluateAll expressions => exact evaluateAll_succ closed ih expressions
    | call callee line arguments => exact call_succ closed ih callee line arguments
    | callClosure closure arguments => exact callClosure_succ closed ih closure arguments
    | construct c arguments => exact construct_succ closed ih c arguments
    | execute s => exact execute_succ closed ih s
    | evaluateOptional e => exact evaluateOptional_succ closed ih e
    | evaluateSuperclass e => exact evaluateSuperclass_succ closed ih e
    | executeWhile condition body => exact executeWhile_succ closed ih condition body
    | executeAll body => exact executeAll_succ closed ih body

/-- The property holds of statements at top level, by induction on them. -/
theorem runFrom (fuel : Nat) (last : Value) (statements : List Stmt) :
    P Value (Lox.runFrom fuel last statements) := by
  induction statements generalizing last with
  | nil => exact closed.pure last
  | cons s rest ih =>
    apply closed.bind (closed.task fuel (.execute s))
    intro flow
    exact ih flow.value

theorem runProgram (fuel : Nat) (statements : List Stmt) :
    P Value (Lox.runProgram fuel statements) := by
  apply closed.bind (closed.runFrom fuel .nil statements)
  intro last
  apply closed.bind closed.flush
  intro _
  exact closed.pure last

end EvalClosed

end Run

end Lox
