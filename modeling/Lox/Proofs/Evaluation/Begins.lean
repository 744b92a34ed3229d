import Lox.Proofs.Evaluation.Task

/-!
# The steps of an evaluation

Carrying a task out means to carry out others on the way. `Task.Begins` tells which ones and on which
machines, and so which expressions, calls and statements an evaluation comes to, whether it ends or
halts later on.
-/

namespace Lox

open Run

/-- On the machine `m` and within `n + 1`, the first task begins the second within `n` on the machine that
has come about by then. -/
inductive Task.Begins (n : Nat) : Machine → Task → Machine → Task → Prop
  | grouping {m : Machine} {inner : Expr} :
    Begins n m (.evaluate (.grouping inner)) m (.evaluate inner)
  | operand {m : Machine} {operator : Token} {right : Expr} :
    Begins n m (.evaluate (.unary operator right)) m (.evaluate right)
  | binaryLeft {m : Machine} {left right : Expr} {operator : Token} :
    Begins n m (.evaluate (.binary left operator right)) m (.evaluate left)
  | binaryRight {m m' : Machine} {left right : Expr} {operator : Token} {a : Value}
    (done : Lox.evaluate n left m = .ok a m') :
    Begins n m (.evaluate (.binary left operator right)) m' (.evaluate right)
  | logicalLeft {m : Machine} {left right : Expr} {operator : Token} :
    Begins n m (.evaluate (.logical left operator right)) m (.evaluate left)
  | logicalRight {m m' : Machine} {left right : Expr} {operator : Token} {a : Value}
    (done : Lox.evaluate n left m = .ok a m') (undecided : ¬ decides operator a) :
    Begins n m (.evaluate (.logical left operator right)) m' (.evaluate right)
  | assigned {m : Machine} {name : Name} {value : Expr} {id : NodeId} :
    Begins n m (.evaluate (.assign name value id)) m (.evaluate value)
  | callee {m : Machine} {callee : Expr} {line : Nat} {arguments : List Expr} :
    Begins n m (.evaluate (.call callee line arguments)) m (.evaluate callee)
  | arguments {m m' : Machine} {callee : Expr} {line : Nat} {arguments : List Expr} {a : Value}
    (done : Lox.evaluate n callee m = .ok a m') :
    Begins n m (.evaluate (.call callee line arguments)) m' (.evaluateAll arguments)
  | call {m m₁ m₂ : Machine} {callee : Expr} {line : Nat} {arguments : List Expr} {a : Value}
    {values : List Value} (done : Lox.evaluate n callee m = .ok a m₁)
    (given : Lox.evaluateAll n arguments m₁ = .ok values m₂) :
    Begins n m (.evaluate (.call callee line arguments)) m₂ (.call a line values)
  | getObject {m : Machine} {object : Expr} {name : Name} :
    Begins n m (.evaluate (.get object name)) m (.evaluate object)
  | setObject {m : Machine} {object value : Expr} {name : Name} :
    Begins n m (.evaluate (.set object name value)) m (.evaluate object)
  | setValue {m m' : Machine} {object value : Expr} {name : Name} {i : InstanceId}
    (done : Lox.evaluate n object m = .ok (.instance_ i) m') :
    Begins n m (.evaluate (.set object name value)) m' (.evaluate value)
  | first {m : Machine} {e : Expr} {rest : List Expr} :
    Begins n m (.evaluateAll (e :: rest)) m (.evaluate e)
  | others {m m' : Machine} {e : Expr} {rest : List Expr} {a : Value}
    (done : Lox.evaluate n e m = .ok a m') :
    Begins n m (.evaluateAll (e :: rest)) m' (.evaluateAll rest)
  | function {m : Machine} {f : FunctionId} {closure : Closure} {line : Nat}
    {arguments : List Value} (found : m.store.functionAt? f = some closure)
    (arity : closure.declaration.parameters.length = arguments.length)
    (shallow : m.callDepth < maxCallDepth) :
    Begins n m (.call (.function f) line arguments) { m with callDepth := m.callDepth + 1 }
      (.callClosure closure arguments)
  | class_ {m : Machine} {c : ClassId} {line : Nat} {arguments : List Value}
    (arity : m.store.classArity c = arguments.length) (shallow : m.callDepth < maxCallDepth) :
    Begins n m (.call (.class_ c) line arguments) { m with callDepth := m.callDepth + 1 }
      (.construct c arguments)
  | body {m m' : Machine} {closure : Closure} {arguments : List Value} {frame : FrameId}
    (opened : callFrame closure arguments m = .ok frame m') :
    Begins n m (.callClosure closure arguments) { m' with current := frame }
      (.executeAll closure.declaration.body)
  | initializer {m m₁ m₂ : Machine} {c : ClassId} {arguments : List Value} {i : InstanceId}
    {method closure : Closure} (made : onStore (·.addInstance c) m = .ok i m₁)
    (found : m₁.store.initializer? c = some method)
    (bound : onStore (·.bind method (.instance_ i)) m₁ = .ok closure m₂) :
    Begins n m (.construct c arguments) m₂ (.callClosure closure arguments)
  | expression {m : Machine} {value : Expr} :
    Begins n m (.execute (.expression value)) m (.evaluate value)
  | print {m : Machine} {value : Expr} :
    Begins n m (.execute (.print value)) m (.evaluate value)
  | var {m : Machine} {name : Name} {initializer : Option Expr} :
    Begins n m (.execute (.var name initializer)) m (.evaluateOptional initializer)
  | block {m m' : Machine} {body : List Stmt} {frame : FrameId}
    (opened : onStore (·.addFrame ∅ (some m.current)) m = .ok frame m') :
    Begins n m (.execute (.block body)) { m' with current := frame } (.executeAll body)
  | condition {m : Machine} {condition : Expr} {thenBranch : Stmt} {elseBranch : Option Stmt} :
    Begins n m (.execute (.ifElse condition thenBranch elseBranch)) m (.evaluate condition)
  | thenBranch {m m' : Machine} {condition : Expr} {thenBranch : Stmt} {elseBranch : Option Stmt}
    {a : Value} (done : Lox.evaluate n condition m = .ok a m') (holds : a.isTruthy) :
    Begins n m (.execute (.ifElse condition thenBranch elseBranch)) m' (.execute thenBranch)
  | elseBranch {m m' : Machine} {condition : Expr} {thenBranch elseBranch : Stmt} {a : Value}
    (done : Lox.evaluate n condition m = .ok a m') (fails : ¬ a.isTruthy) :
    Begins n m (.execute (.ifElse condition thenBranch (some elseBranch))) m' (.execute elseBranch)
  | loop {m : Machine} {condition : Expr} {body : Stmt} :
    Begins n m (.execute (.while condition body)) m (.executeWhile condition body)
  | returned {m : Machine} {line : Nat} {value : Option Expr} :
    Begins n m (.execute (.return line value)) m (.evaluateOptional value)
  | superclass {m : Machine} {name : Name} {superclass : Option Expr}
    {methods : List FunctionDecl} :
    Begins n m (.execute (.class_ name superclass methods)) m (.evaluateSuperclass superclass)
  | value {m : Machine} {e : Expr} :
    Begins n m (.evaluateOptional (some e)) m (.evaluate e)
  | parent {m : Machine} {e : Expr} :
    Begins n m (.evaluateSuperclass (some e)) m (.evaluate e)
  | test {m : Machine} {condition : Expr} {body : Stmt} :
    Begins n m (.executeWhile condition body) m (.evaluate condition)
  | turn {m m' : Machine} {condition : Expr} {body : Stmt} {a : Value}
    (done : Lox.evaluate n condition m = .ok a m') (holds : a.isTruthy) :
    Begins n m (.executeWhile condition body) m' (.execute body)
  | again {m m₁ m₂ : Machine} {condition : Expr} {body : Stmt} {a last : Value}
    (done : Lox.evaluate n condition m = .ok a m₁) (holds : a.isTruthy)
    (ran : Lox.execute n body m₁ = .ok (.next last) m₂) :
    Begins n m (.executeWhile condition body) m₂ (.executeWhile condition body)
  | statement {m : Machine} {s : Stmt} {rest : List Stmt} :
    Begins n m (.executeAll (s :: rest)) m (.execute s)
  | following {m m' : Machine} {s : Stmt} {rest : List Stmt} {last : Value}
    (done : Lox.execute n s m = .ok (.next last) m') :
    Begins n m (.executeAll (s :: rest)) m' (.executeAll rest)

/-- A task within a bound on a machine comes to another, step by step. -/
inductive Task.Reaches : Nat → Machine → Task → Nat → Machine → Task → Prop
  | refl {n : Nat} {m : Machine} {t : Task} : Reaches n m t n m t
  | step {n k : Nat} {m m' m'' : Machine} {t t' t'' : Task} (begins : Begins n m t m' t')
    (rest : Reaches n m' t' k m'' t'') : Reaches (n + 1) m t k m'' t''

/-- The statements of a program, run one after another at top level, come to a task. -/
inductive ProgramReaches (fuel : Nat) : Machine → List Stmt → Nat → Machine → Task → Prop
  | first {m m' : Machine} {s : Stmt} {rest : List Stmt} {k : Nat} {t : Task}
    (reaches : Task.Reaches fuel m (.execute s) k m' t) :
    ProgramReaches fuel m (s :: rest) k m' t
  | rest {m m₁ m' : Machine} {s : Stmt} {rest : List Stmt} {flow : Flow} {k : Nat} {t : Task}
    (done : execute fuel s m = .ok flow m₁) (reaches : ProgramReaches fuel m₁ rest k m' t) :
    ProgramReaches fuel m (s :: rest) k m' t

/-- The second machine is the first one in another frame and at another depth of calls. -/
def Machine.Elsewhere (m m' : Machine) : Prop :=
  ∃ frame depth, m' = { m with current := frame, callDepth := depth }

theorem Machine.Elsewhere.refl (m : Machine) : m.Elsewhere m := ⟨m.current, m.callDepth, rfl⟩

theorem Machine.Elsewhere.trans {m₁ m₂ m₃ : Machine} (first : m₁.Elsewhere m₂)
    (next : m₂.Elsewhere m₃) : m₁.Elsewhere m₃ := by
  obtain ⟨_, _, rfl⟩ := first
  obtain ⟨frame, depth, rfl⟩ := next
  exact ⟨frame, depth, rfl⟩

namespace Run

variable {α β : Type} {m m' : Machine}

/-- Of two runs in sequence, both have ended if the whole has. -/
theorem bind_ok {x : Run α} {f : α → Run β} {b : β} (done : (x >>= f) m = .ok b m') :
    ∃ a m₁, x m = .ok a m₁ ∧ f a m₁ = .ok b m' := by
  change EStateM.bind x f m = _ at done
  unfold EStateM.bind at done
  cases ran : x m with
  | ok a m₁ =>
    rw [ran] at done
    exact ⟨a, m₁, rfl, done⟩
  | error halt m₁ =>
    rw [ran] at done
    cases done

end Run

end Lox
