import Lox.Proofs.Evaluation.Begins
import Lox.Proofs.Lexical.Simulation

/-!
# Tasks that an evaluation comes to

A task is ready on a machine if the machine stands for a lexical one and the code of the task is
well-scoped where the machine stands. A task that is ready begins only tasks that are ready, so all tasks
that an accepted program comes to are, in whatever order its functions are called.
-/

namespace Lox

namespace Lexical

variable {L : List Lookup} {g : FrameId} {n : Nat} {m m' : Machine} {Γ : Scopes}

/-- The machine stands in the given scopes. -/
def Here (L : List Lookup) (g : FrameId) (m : Machine) (Γ : Scopes) : Prop :=
  ∃ cells μ ρ, Sited L g m.current Γ ρ cells m μ

/-- A task whose code can be carried out where the machine stands. -/
def Ready (L : List Lookup) (g : FrameId) (m : Machine) : Task → Prop
  | .evaluate e => ∃ Γ, Here L g m Γ ∧ e.Scoped L Γ
  | .evaluateAll expressions => ∃ Γ, Here L g m Γ ∧ expressionsScoped L Γ expressions
  | .call _ _ _ => ∃ cells μ, Agree L g cells m μ
  | .callClosure closure arguments => ∃ cells μ closure', Agree L g cells m μ ∧
      FunctionsAgree L g cells m.store closure closure' ∧
      arguments.length = closure.declaration.parameters.length
  | .construct c arguments =>
    (∃ cells μ, Agree L g cells m μ) ∧ m.store.classArity c = arguments.length
  | .execute s => ∃ Γ, Here L g m Γ ∧ s.Scoped L Γ
  | .evaluateOptional e | .evaluateSuperclass e => ∃ Γ, Here L g m Γ ∧ ∀ x ∈ e, x.Scoped L Γ
  | .executeWhile condition body => ∃ Γ, Here L g m Γ ∧ condition.Scoped L Γ ∧
      body.Scoped L Γ ∧ body.declared? = none
  | .executeAll body => ∃ Γ, Here L g m Γ ∧ statementsScoped L Γ body

/-- What is known of a run that has ended and matches another. -/
theorem Matches.of_ok {α β : Type} {near : Option FrameId} {cells : List Slot}
    {P : List Slot → Machine → State → α → β → Prop} {r : EStateM.Result Halt Machine α}
    {r' : EStateM.Result Halt State β} {a : α} (outcome : Matches L g near cells m P r r')
    (done : r = .ok a m') :
    ∃ cells' μ' b, Later near cells m cells' m' ∧ Agree L g cells' m' μ' ∧ P cells' m' μ' a b := by
  rcases outcome.cases with ⟨a, m', b, μ', cells', left, _, later, agree, related⟩ |
    ⟨halt, m', μ', cells', left, _⟩
  · cases left.symm.trans done
    exact ⟨cells', μ', b, later, agree, related⟩
  · cases left.symm.trans done

theorem Here.agree (here : Here L g m Γ) : ∃ cells μ, Agree L g cells m μ := by
  obtain ⟨cells, μ, _, sited⟩ := here
  exact ⟨cells, μ, sited.agree⟩

/-- An expression leaves the machine where it was. -/
theorem Here.evaluate {e : Expr} {a : Value} (here : Here L g m Γ) (code : e.Scoped L Γ)
    (done : Lox.evaluate n e m = .ok a m') : Here L g m' Γ := by
  obtain ⟨cells, μ, ρ, sited⟩ := here
  obtain ⟨cells', μ', _, later, agree, _⟩ := ((simulates L g n).evaluate sited code).of_ok done
  exact ⟨cells', μ', ρ, sited.later later agree⟩

theorem Here.evaluateAll {expressions : List Expr} {values : List Value} (here : Here L g m Γ)
    (code : expressionsScoped L Γ expressions)
    (done : Lox.evaluateAll n expressions m = .ok values m') : Here L g m' Γ := by
  obtain ⟨cells, μ, ρ, sited⟩ := here
  obtain ⟨cells', μ', _, later, agree, _⟩ := ((simulates L g n).evaluateAll sited code).of_ok done
  exact ⟨cells', μ', ρ, sited.later later agree⟩

/-- A statement that has not returned leaves the machine in the scopes after it. -/
theorem Here.execute {s : Stmt} {last : Value} (here : Here L g m Γ) (code : s.Scoped L Γ)
    (done : Lox.execute n s m = .ok (.next last) m') : Here L g m' (s.after Γ) := by
  obtain ⟨cells, μ, ρ, sited⟩ := here
  obtain ⟨cells', μ', b, _, _, _, after⟩ := ((simulates L g n).execute sited code).of_ok done
  exact ⟨cells', μ', b.1, after last rfl⟩

/-! ### One step -/

/-- The declaration of a variable has begun when its initializer is evaluated. -/
theorem Here.declare {name : String} (here : Here L g m Γ)
    (new : Γ.head?.bind (·.get? name) = none) : Here L g m (Γ.mark name .declared) := by
  obtain ⟨cells, μ, ρ, sited⟩ := here
  obtain ⟨ρ', μ', cells', _, _, sited'⟩ := sited.declare new
  exact ⟨cells', μ', ρ', sited'⟩

/-- The frame of a block stands for a new scope without names. -/
theorem Here.block {frame : FrameId} (here : Here L g m Γ)
    (opened : Run.onStore (·.addFrame ∅ (some m.current)) m = .ok frame m') :
    Here L g { m' with current := frame } (Scope.of [] :: Γ) := by
  obtain ⟨cells, μ, ρ, sited⟩ := here
  have outcome := matches_openScope sited.agree sited.placed [] (by simp) nofun
  obtain ⟨cells', μ', ρ', _, _, _, _, inside⟩ := outcome.of_ok opened
  exact ⟨cells', μ', ρ', inside.inFrame⟩

/-- The body of a function stands in the scope of its parameters. -/
theorem ready_body {closure : Lox.Closure} {arguments : List Value} {frame : FrameId}
    (ready : Ready L g m (.callClosure closure arguments))
    (opened : Lox.Run.callFrame closure arguments m = .ok frame m') :
    Ready L g { m' with current := frame } (.executeAll closure.declaration.body) := by
  obtain ⟨cells, μ, closure', agree, both, arity⟩ := ready
  have outcome := matches_callFrame agree both arity
  obtain ⟨cells', μ', ρ', _, _, _, Γ, sited, code⟩ := outcome.of_ok opened
  exact ⟨Γ, ⟨cells', μ', ρ', sited.inFrame⟩, code⟩

/-- The initializer of a class is bound to the new instance when it is called. -/
theorem ready_initializer {m₁ m₂ : Machine} {c : ClassId} {arguments : List Value}
    {i : InstanceId} {method closure : Lox.Closure} (ready : Ready L g m (.construct c arguments))
    (made : Lox.Run.onStore (·.addInstance c) m = .ok i m₁)
    (found : m₁.store.initializer? c = some method)
    (bound : Lox.Run.onStore (·.bind method (.instance_ i)) m₁ = .ok closure m₂) :
    Ready L g m₂ (.callClosure closure arguments) := by
  obtain ⟨⟨cells, μ, agree⟩, arity⟩ := ready
  have added := matches_addInstance agree c
  obtain ⟨cells₁, μ₁, _, _, agree₁, _, same⟩ := added.of_ok made
  have related := agree₁.initializer? c
  rw [found] at related
  obtain ⟨none, _⟩ | ⟨_, method', here, _, both⟩ := optionRel_cases related
  · cases none
  cases here
  obtain ⟨cells₂, μ₂, closure', _, agree₂, both, code⟩ :=
    (matches_bindMethod agree₁ both i).of_ok bound
  refine ⟨cells₂, μ₂, closure', agree₂, both, ?_⟩
  -- the arguments were counted for the class before the instance was made
  have declared : m.store.initializer? c = some method :=
    (Store.findMethod_congr same c initializerName).symm.trans found
  rw [code, ← arity, Store.classArity, declared]

private theorem ready_inExpression {e : Expr} {t' : Task} (begins : Task.Begins n m (.evaluate e) m' t')
    (here : Here L g m Γ) (code : e.Scoped L Γ) : Ready L g m' t' := by
  -- what has been evaluated before in the expression leaves the machine in the same scopes
  cases begins <;> rw [Expr.Scoped] at code
  case grouping => exact ⟨Γ, here, code⟩
  case operand => exact ⟨Γ, here, code.2⟩
  case binaryLeft => exact ⟨Γ, here, code.2.1⟩
  case binaryRight done => exact ⟨Γ, here.evaluate code.2.1 done, code.2.2⟩
  case logicalLeft => exact ⟨Γ, here, code.1⟩
  case logicalRight done => exact ⟨Γ, here.evaluate code.1 done, code.2⟩
  case assigned => exact ⟨Γ, here, code.2.1⟩
  case callee => exact ⟨Γ, here, code.1⟩
  case arguments done => exact ⟨Γ, here.evaluate code.1 done, code.2⟩
  case call done given => exact ((here.evaluate code.1 done).evaluateAll code.2 given).agree
  case getObject => exact ⟨Γ, here, code⟩
  case setObject => exact ⟨Γ, here, code.2⟩
  case setValue done => exact ⟨Γ, here.evaluate code.2 done, code.1⟩

private theorem ready_inStatement {s : Stmt} {t' : Task} (begins : Task.Begins n m (.execute s) m' t')
    (here : Here L g m Γ) (code : s.Scoped L Γ) : Ready L g m' t' := by
  cases begins with
  | expression =>
    rw [Stmt.Scoped] at code
    exact ⟨Γ, here, code⟩
  | print =>
    rw [Stmt.Scoped] at code
    exact ⟨Γ, here, code⟩
  | var =>
    rw [Stmt.Scoped] at code
    exact ⟨_, here.declare code.1.2, code.2⟩
  | block opened =>
    rw [Stmt.Scoped] at code
    exact ⟨_, here.block opened, code⟩
  -- with a second branch or without one
  | condition => exact ⟨Γ, here, (Stmt.scoped_ifElse code).1⟩
  | thenBranch done _ =>
    obtain ⟨test, ⟨code, _⟩, _⟩ := Stmt.scoped_ifElse code
    exact ⟨Γ, here.evaluate test done, code⟩
  | elseBranch done _ =>
    obtain ⟨test, _, other⟩ := Stmt.scoped_ifElse code
    exact ⟨Γ, here.evaluate test done, (other _ rfl).1⟩
  | loop =>
    rw [Stmt.Scoped] at code
    exact ⟨Γ, here, code⟩
  | returned =>
    rw [Stmt.Scoped] at code
    exact ⟨Γ, here, code⟩
  | superclass =>
    rw [Stmt.Scoped] at code
    exact ⟨Γ, here, code.2.1⟩

private theorem ready_inCall {callee : Value} {line : Nat} {arguments : List Value} {t' : Task}
    (begins : Task.Begins n m (.call callee line arguments) m' t')
    (ready : ∃ cells μ, Agree L g cells m μ) : Ready L g m' t' := by
  obtain ⟨cells, μ, agree⟩ := ready
  have deeper : Agree L g cells { m with callDepth := m.callDepth + 1 }
      { μ with callDepth := m.callDepth + 1 } := { agree with callDepth := rfl }
  cases begins with
  | @function f closure _ _ found arity _ =>
    have related := agree.functionAt? f
    rw [found] at related
    obtain ⟨none, _⟩ | ⟨_, closure', here, _, both⟩ := optionRel_cases related
    · cases none
    cases here
    exact ⟨cells, _, closure', deeper, both, arity.symm⟩
  | class_ arity _ => exact ⟨⟨cells, _, deeper⟩, arity⟩

/-- A task that is ready begins only tasks that are ready. -/
theorem ready_of_begins {t t' : Task} (begins : Task.Begins n m t m' t') (ready : Ready L g m t) :
    Ready L g m' t' := by
  cases t with
  | evaluate e =>
    obtain ⟨Γ, here, code⟩ := ready
    exact ready_inExpression begins here code
  | execute s =>
    obtain ⟨Γ, here, code⟩ := ready
    exact ready_inStatement begins here code
  | call callee line arguments => exact ready_inCall begins ready
  | evaluateAll expressions =>
    obtain ⟨Γ, here, code⟩ := ready
    cases begins with
    | first =>
      rw [expressionsScoped] at code
      exact ⟨Γ, here, code.1⟩
    | others done =>
      rw [expressionsScoped] at code
      exact ⟨Γ, here.evaluate code.1 done, code.2⟩
  | callClosure closure arguments =>
    cases begins with
    | body opened => exact ready_body ready opened
  | construct c arguments =>
    cases begins with
    | initializer made found bound => exact ready_initializer ready made found bound
  | evaluateOptional e =>
    obtain ⟨Γ, here, code⟩ := ready
    cases begins with
    | value => exact ⟨Γ, here, code _ rfl⟩
  | evaluateSuperclass e =>
    obtain ⟨Γ, here, code⟩ := ready
    cases begins with
    | parent => exact ⟨Γ, here, code _ rfl⟩
  | executeWhile condition body =>
    obtain ⟨Γ, here, test, turn, silent⟩ := ready
    cases begins with
    | test => exact ⟨Γ, here, test⟩
    | turn done _ => exact ⟨Γ, here.evaluate test done, turn⟩
    | again done _ ran =>
      -- the body declares nothing, so the scopes are those before the turn
      have after := (here.evaluate test done).execute turn ran
      rw [Stmt.after_eq_self silent] at after
      exact ⟨Γ, after, test, turn, silent⟩
  | executeAll body =>
    obtain ⟨Γ, here, code⟩ := ready
    cases begins with
    | statement =>
      rw [statementsScoped] at code
      exact ⟨Γ, here, code.1⟩
    | following done =>
      rw [statementsScoped] at code
      exact ⟨_, here.execute code.1 done, code.2⟩

/-- All tasks that a ready one comes to are ready, by induction on the steps. -/
theorem ready_of_reaches {k : Nat} {t t' : Task} (reaches : Task.Reaches n m t k m' t')
    (ready : Ready L g m t) : Ready L g m' t' := by
  induction reaches with
  | refl => exact ready
  | step begins _ ih => exact ih (ready_of_begins begins ready)

end Lexical

end Lox
