import Lox.Proofs.Evaluation.Begins
import Lox.Proofs.Evaluation.Steps

/-!
# Where an evaluation halts early

A task that halts other than by a fault of one of its steps has begun one that halts so too, or is itself a
`print` whose text the sink did not take, or a call that was refused because too many others were in progress.
In particular no step of an evaluation is missing from `Task.Begins`. An evaluation that the sink has stopped has
therefore come to the `print` that did it. From there on nothing is done any more, so what is left behind is the
machine at that point, apart from its current frame and the depth of calls.
-/

namespace Lox

/-- A halt that none of the steps of an evaluation brings about. -/
def Halt.Early : Halt → Prop
  | .runtime e => e.fault = .stackOverflow
  | .sink _ | .outOfFuel => True

/-- The value is a function or a class that takes this many arguments. -/
def Store.Admits (s : Store) (callee : Value) (count : Nat) : Prop :=
  match callee with
  | .function f => ∃ closure, s.functionAt? f = some closure ∧
      closure.declaration.parameters.length = count
  | .class_ c => s.classArity c = count
  | _ => False

namespace Run

variable {α β : Type} {m m' : Machine} {halt : Halt}

/-- A run that never halts so. -/
def Spares (halt : Halt) (x : Run α) : Prop := ∀ m m', x m ≠ .error halt m'

/-- Of two runs in sequence, one halts if the whole does: the first, or the second where the first has
ended. -/
theorem bind_halted {x : Run α} {f : α → Run β} (halted : (x >>= f) m = .error halt m') :
    x m = .error halt m' ∨ ∃ a m₁, x m = .ok a m₁ ∧ f a m₁ = .error halt m' := by
  change EStateM.bind x f m = _ at halted
  unfold EStateM.bind at halted
  cases left : x m with
  | ok a m₁ =>
    rw [left] at halted
    exact .inr ⟨a, m₁, rfl, halted⟩
  | error cause m₁ =>
    rw [left] at halted
    cases halted
    exact .inl rfl

theorem Spares.bind {x : Run α} {f : α → Run β} (first : Spares halt x)
    (next : ∀ a, Spares halt (f a)) : Spares halt (x >>= f) := by
  intro m m' halted
  rcases bind_halted halted with left | ⟨a, m₁, _, right⟩
  · exact first m m' left
  · exact next a m₁ m' right

/-- After a run that does not halt so, only what follows can. -/
theorem Spares.of_bind {x : Run α} {f : α → Run β} (first : Spares halt x)
    (halted : (x >>= f) m = .error halt m') :
    ∃ a m₁, x m = .ok a m₁ ∧ f a m₁ = .error halt m' :=
  (bind_halted halted).resolve_left (first m m')

/-- Before what does not halt so, only the first run can. -/
theorem halted_of_bind {x : Run α} {f : α → Run β} (next : ∀ a, Spares halt (f a))
    (halted : (x >>= f) m = .error halt m') : x m = .error halt m' := by
  rcases bind_halted halted with left | ⟨a, m₁, _, right⟩
  · exact left
  · exact absurd right (next a m₁ m')

theorem inFrame_halted {frame : FrameId} {body : Run α}
    (halted : inFrame frame body m = .error halt m') :
    ∃ m₁, body { m with current := frame } = .error halt m₁ ∧ m₁.Elsewhere m' := by
  unfold inFrame at halted
  cases inside : body { m with current := frame } with
  | ok a m₁ =>
    rw [inside] at halted
    cases halted
  | error cause m₁ =>
    rw [inside] at halted
    cases halted
    exact ⟨m₁, rfl, m.current, m₁.callDepth, rfl⟩

theorem nested_halted {line : Nat} {body : Run α} (halted : nested line body m = .error halt m') :
    (m.callDepth < maxCallDepth ∧
      ∃ m₁, body { m with callDepth := m.callDepth + 1 } = .error halt m₁ ∧ m₁.Elsewhere m') ∨
    (maxCallDepth ≤ m.callDepth ∧ halt = .runtime ⟨.stackOverflow, line⟩ ∧ m' = m) := by
  unfold nested at halted
  split at halted
  · rename_i deep
    cases halted
    exact .inr ⟨deep, rfl, rfl⟩
  · rename_i shallow
    refine .inl ⟨Nat.lt_of_not_le shallow, ?_⟩
    cases inside : body { m with callDepth := m.callDepth + 1 } with
    | ok a m₁ =>
      rw [inside] at halted
      cases halted
    | error cause m₁ =>
      rw [inside] at halted
      cases halted
      exact ⟨m₁, rfl, m₁.current, _, rfl⟩

theorem spares_fault (early : halt.Early) (cause : Fault) (line : Nat)
    (shallow : cause ≠ .stackOverflow) : Spares halt (fault cause line : Run α) := by
  intro m m' halted
  cases halted
  exact shallow early

theorem checkArity_of_bind (early : halt.Early) {expected given line : Nat} {f : Unit → Run β}
    (halted : (checkArity expected given line >>= f) m = .error halt m') :
    expected = given ∧ f () m = .error halt m' := by
  unfold checkArity at halted
  split at halted
  · rename_i same
    exact ⟨same, halted⟩
  · obtain ⟨_, _, none, -⟩ := (spares_fault early _ _ (by nofun)).of_bind halted
    cases none

/-- The steps do not halt early, and neither do the operations composed of them. -/
theorem Spares.steps (early : halt.Early) : StepClosed fun _ => Spares halt where
  pure _ := nofun
  fault := spares_fault early
  ask _ := nofun
  onStore _ := nofun
  bind := Spares.bind
  inFrame inside _ m m' halted := by
    obtain ⟨m₁, halted, -⟩ := inFrame_halted halted
    exact inside _ m₁ halted

end Run

open Run

section

variable {n : Nat} {m m' : Machine} {halt : Halt}

/-- The task begins one that halts so, and leaves behind what that one does. -/
def Task.BeginsHalted (halt : Halt) (n : Nat) (m : Machine) (t : Task) (m' : Machine) : Prop :=
  ∃ m₁ t₁ m₂, Begins n m t m₁ t₁ ∧ t₁.perform n m₁ = .error halt m₂ ∧ m₂.Elsewhere m'

/-- The task prints the value of an expression, and this is where it halts. -/
def Task.HaltsPrinting (halt : Halt) (n : Nat) (m : Machine) (t : Task) (m' : Machine) : Prop :=
  ∃ value a m₁, t = .execute (.print value) ∧ Lox.evaluate n value m = .ok a m₁ ∧
    print a m₁ = .error halt m'

/-- The task is a call that is refused because too many are in progress, and this is where it halts. -/
def Task.HaltsRefused (halt : Halt) (m : Machine) (t : Task) (m' : Machine) : Prop :=
  ∃ callee line arguments, t = .call callee line arguments ∧
    m.store.Admits callee arguments.length ∧ maxCallDepth ≤ m.callDepth ∧
    halt = .runtime ⟨.stackOverflow, line⟩ ∧ m' = m

/-! ### The task that halts -/

section

variable (early : halt.Early)

include early

private theorem evaluate_halted {e : Expr} (halted : evaluate (n + 1) e m = .error halt m') :
    Task.BeginsHalted halt n m (.evaluate e) m' := by
  have steps := Spares.steps early
  -- of the runs in sequence, the first one that has not ended is the one that was begun
  cases e with
  | literal value => cases halted
  | grouping inner => exact ⟨m, _, m', .grouping, halted, .refl m'⟩
  | unary operator right =>
    refine ⟨m, _, m', .operand, halted_of_bind (fun a => ?_) halted, .refl m'⟩
    exact steps.ofExcept (applyPrefix_ne_overflow operator a) _
  | binary left operator right =>
    rcases bind_halted halted with first | ⟨a, m₁, done, second⟩
    · exact ⟨m, _, m', .binaryLeft, first, .refl m'⟩
    · refine ⟨m₁, _, m', .binaryRight done, halted_of_bind (fun b => ?_) second, .refl m'⟩
      exact steps.ofExcept (applyBinary_ne_overflow operator a b) _
  | logical left operator right =>
    rcases bind_halted halted with first | ⟨a, m₁, done, second⟩
    · exact ⟨m, _, m', .logicalLeft, first, .refl m'⟩
    · split at second
      · cases second
      · rename_i undecided
        exact ⟨m₁, _, m', .logicalRight done undecided, second, .refl m'⟩
  | «variable» name id => exact absurd halted (steps.lookUp _ id name.text m m')
  | assign name value id =>
    refine ⟨m, _, m', .assigned, halted_of_bind (fun a => ?_) halted, .refl m'⟩
    exact (steps.assign id name a).bind fun _ => steps.pure a
  | call callee line arguments =>
    rcases bind_halted halted with first | ⟨a, m₁, done, rest⟩
    · exact ⟨m, _, m', .callee, first, .refl m'⟩
    · rcases bind_halted rest with second | ⟨values, m₂, given, third⟩
      · exact ⟨m₁, _, m', .arguments done, second, .refl m'⟩
      · exact ⟨m₂, _, m', .call done given, third, .refl m'⟩
  | get object name =>
    exact ⟨m, _, m', .getObject, halted_of_bind (fun a => steps.getProperty a name) halted, .refl m'⟩
  | set object name value =>
    rcases bind_halted halted with first | ⟨a, m₁, done, rest⟩
    · exact ⟨m, _, m', .setObject, first, .refl m'⟩
    · cases a with
      | instance_ i =>
        refine ⟨m₁, _, m', .setValue done, halted_of_bind (fun a => ?_) rest, .refl m'⟩
        exact (steps.setField i name a).bind fun _ => steps.pure a
      | _ => exact absurd rest (steps.fault _ _ (by nofun) m₁ m')
  | this keyword id => exact absurd halted (steps.lookUp _ id keyword.text m m')
  | super keyword method id => exact absurd halted (steps.superMethod keyword method id m m')

private theorem call_halted {callee : Value} {line : Nat} {arguments : List Value}
    (halted : call (n + 1) callee line arguments m = .error halt m') :
    Task.BeginsHalted halt n m (.call callee line arguments) m' ∨
      Task.HaltsRefused halt m (.call callee line arguments) m' := by
  have steps := Spares.steps early
  cases callee with
  | native f =>
    -- a built-in function does not halt
    obtain ⟨_, rest⟩ := checkArity_of_bind early halted
    cases f
    cases rest
  | function f =>
    obtain ⟨closure, m₁, asked, rest⟩ := (steps.ask fun _ _ => rfl).of_bind halted
    -- asking the store does not move the machine
    injection asked with found same
    subst same
    cases closure with
    | none => exact absurd rest (steps.fault _ _ (by nofun) m m')
    | some closure =>
      obtain ⟨arity, rest⟩ := checkArity_of_bind early rest
      rcases nested_halted rest with ⟨shallow, m₂, inside, apart⟩ | ⟨deep, refused⟩
      · exact .inl ⟨_, _, m₂, .function found arity shallow, inside, apart⟩
      · exact .inr ⟨_, line, arguments, rfl, ⟨closure, found, arity⟩, deep, refused⟩
  | class_ c =>
    obtain ⟨arity, m₁, asked, rest⟩ := (steps.ask fun _ _ => rfl).of_bind halted
    cases asked
    obtain ⟨arity, rest⟩ := checkArity_of_bind early rest
    rcases nested_halted rest with ⟨shallow, m₂, inside, apart⟩ | ⟨deep, refused⟩
    · exact .inl ⟨_, _, m₂, .class_ arity shallow, inside, apart⟩
    · exact .inr ⟨_, line, arguments, rfl, arity, deep, refused⟩
  | _ => exact absurd halted (steps.fault _ _ (by nofun) m m')

private theorem callClosure_halted {closure : Closure} {arguments : List Value}
    (halted : callClosure (n + 1) closure arguments m = .error halt m') :
    Task.BeginsHalted halt n m (.callClosure closure arguments) m' := by
  have steps := Spares.steps early
  obtain ⟨frame, m₁, opened, rest⟩ := (steps.callFrame closure arguments).of_bind halted
  -- the frame is made and the result taken without evaluating: the body is what halts
  obtain ⟨m₂, inside, apart⟩ :=
    inFrame_halted (halted_of_bind (fun flow => steps.callResult closure flow) rest)
  exact ⟨_, _, m₂, .body opened, inside, apart⟩

private theorem construct_halted {c : ClassId} {arguments : List Value}
    (halted : construct (n + 1) c arguments m = .error halt m') :
    Task.BeginsHalted halt n m (.construct c arguments) m' := by
  have steps := Spares.steps early
  obtain ⟨i, m₁, made, rest⟩ := (steps.addInstance c).of_bind halted
  obtain ⟨method, m₂, asked, rest⟩ := (steps.ask fun _ _ => rfl).of_bind rest
  injection asked with found same
  subst same
  cases method with
  | none => cases rest
  | some method =>
    obtain ⟨closure, m₃, bound, rest⟩ := (steps.bindMethod method _).of_bind rest
    exact ⟨m₃, _, m', .initializer made found bound, halted_of_bind (fun _ => steps.pure _) rest,
      .refl m'⟩

private theorem execute_halted {s : Stmt} (halted : execute (n + 1) s m = .error halt m') :
    Task.BeginsHalted halt n m (.execute s) m' ∨ Task.HaltsPrinting halt n m (.execute s) m' := by
  have steps := Spares.steps early
  cases s with
  | expression value =>
    exact .inl ⟨m, _, m', .expression, halted_of_bind (fun _ => steps.pure _) halted, .refl m'⟩
  | print value =>
    rcases bind_halted halted with first | ⟨a, m₁, done, rest⟩
    · exact .inl ⟨m, _, m', .print, first, .refl m'⟩
    · exact .inr ⟨value, a, m₁, rfl, done, halted_of_bind (fun _ => steps.pure _) rest⟩
  | var name initializer =>
    refine .inl ⟨m, _, m', .var, halted_of_bind (fun a => ?_) halted, .refl m'⟩
    exact steps.current.bind fun _ => (steps.define _ _ _).bind fun _ => steps.pure _
  | block body =>
    obtain ⟨current, m₁, asked, rest⟩ := steps.current.of_bind halted
    cases asked
    obtain ⟨frame, m₂, opened, rest⟩ := (steps.addFrame _ _).of_bind rest
    obtain ⟨m₃, inside, apart⟩ := inFrame_halted rest
    exact .inl ⟨_, _, m₃, .block opened, inside, apart⟩
  | ifElse condition thenBranch elseBranch =>
    rcases bind_halted halted with first | ⟨a, m₁, done, rest⟩
    · exact .inl ⟨m, _, m', .condition, first, .refl m'⟩
    · split at rest
      · rename_i holds
        exact .inl ⟨m₁, _, m', .thenBranch done holds, rest, .refl m'⟩
      · rename_i fails
        cases elseBranch with
        | some s => exact .inl ⟨m₁, _, m', .elseBranch done fails, rest, .refl m'⟩
        | none => cases rest
  | «while» condition body => exact .inl ⟨m, _, m', .loop, halted, .refl m'⟩
  | function d =>
    -- a function is declared without evaluating anything
    have spares := (steps.declareFunction d).bind fun _ => steps.pure (Flow.next .nil)
    exact absurd halted (spares m m')
  | «return» line value =>
    exact .inl ⟨m, _, m', .returned, halted_of_bind (fun _ => steps.pure _) halted, .refl m'⟩
  | class_ name superclass methods =>
    refine .inl ⟨m, _, m', .superclass, halted_of_bind (fun c => ?_) halted, .refl m'⟩
    exact (steps.declareClass name c methods).bind fun _ => steps.pure _

omit early in
private theorem executeWhile_halted {condition : Expr} {body : Stmt}
    (halted : executeWhile (n + 1) condition body m = .error halt m') :
    Task.BeginsHalted halt n m (.executeWhile condition body) m' := by
  rcases bind_halted halted with first | ⟨a, m₁, done, rest⟩
  · exact ⟨m, _, m', .test, first, .refl m'⟩
  · split at rest
    · rename_i holds
      rcases bind_halted rest with second | ⟨flow, m₂, ran, rest⟩
      · exact ⟨m₁, _, m', .turn done holds, second, .refl m'⟩
      · cases flow with
        -- a loop that returns is over
        | «return» value => cases rest
        | next last => exact ⟨m₂, _, m', .again done holds ran, rest, .refl m'⟩
    · cases rest

/-- A task that halts early has begun one that does so too, or is the `print` or the call that does. -/
theorem Task.begins_of_halted {t : Task} (halted : t.perform (n + 1) m = .error halt m') :
    BeginsHalted halt n m t m' ∨ HaltsPrinting halt n m t m' ∨ HaltsRefused halt m t m' := by
  have steps := Spares.steps early
  cases t with
  | evaluate e => exact .inl (evaluate_halted early halted)
  | evaluateAll expressions =>
    cases expressions with
    | nil => cases halted
    | cons e rest =>
      rcases bind_halted halted with first | ⟨a, m₁, done, others⟩
      · exact .inl ⟨m, _, m', .first, first, .refl m'⟩
      · exact .inl ⟨m₁, _, m', .others done, halted_of_bind (fun _ => steps.pure _) others, .refl m'⟩
  | call callee line arguments => exact (call_halted early halted).imp_right .inr
  | callClosure closure arguments => exact .inl (callClosure_halted early halted)
  | construct c arguments => exact .inl (construct_halted early halted)
  | execute s => exact (execute_halted early halted).imp_right .inl
  | evaluateOptional e =>
    cases e with
    | none => cases halted
    | some e => exact .inl ⟨m, _, m', .value, halted, .refl m'⟩
  | evaluateSuperclass e =>
    cases e with
    | none => cases halted
    | some e =>
      refine .inl ⟨m, _, m', .parent, halted_of_bind (fun a => ?_) halted, .refl m'⟩
      cases a <;> first | exact steps.pure _ | exact steps.fault _ _ (by nofun)
  | executeWhile condition body => exact .inl (executeWhile_halted halted)
  | executeAll body =>
    cases body with
    | nil => cases halted
    | cons s rest =>
      rcases bind_halted halted with first | ⟨flow, m₁, done, following⟩
      · exact .inl ⟨m, _, m', .statement, first, .refl m'⟩
      · cases flow with
        | «return» value => cases following
        | next last => exact .inl ⟨m₁, _, m', .following done, following, .refl m'⟩

end

/-! ### How it was come to -/

/-- An evaluation fails for the sink only when it comes to a `print` that does, by induction on the bound.
What it leaves behind is the machine as this `print` has left it. -/
theorem Task.reaches_print {e : SinkError} {t : Task}
    (failed : t.perform n m = .error (.sink e) m') :
    ∃ k m₁ t₁ m₂, Reaches n m t (k + 1) m₁ t₁ ∧ t₁.HaltsPrinting (.sink e) k m₁ m₂ ∧
      m₂.Elsewhere m' := by
  induction n generalizing m t m' with
  | zero => exact absurd failed (by rw [t.perform_zero]; exact nofun)
  | succ n ih =>
    have early : Halt.Early (.sink e) := trivial
    rcases begins_of_halted early failed with ⟨m₁, t₁, m₂, begins, further, apart⟩ |
      printing | ⟨callee, line, arguments, -, -, -, refused, -⟩
    · obtain ⟨k, m₃, t₃, m₄, reaches, printing, apart'⟩ := ih further
      exact ⟨k, m₃, t₃, m₄, .step begins reaches, printing, apart'.trans apart⟩
    · exact ⟨n, m, t, m', .refl, printing, .refl m'⟩
    · cases refused

/-- So does a program, by induction on the statements that have ended before. -/
theorem reaches_print_of_runFrom {e : SinkError} {fuel : Nat} {last : Value}
    {statements : List Stmt} (failed : runFrom fuel last statements m = .error (.sink e) m') :
    ∃ k m₁ t m₂, ProgramReaches fuel m statements (k + 1) m₁ t ∧
      t.HaltsPrinting (.sink e) k m₁ m₂ ∧ m₂.Elsewhere m' := by
  induction statements generalizing m last with
  | nil => cases failed
  | cons s rest ih =>
    rcases bind_halted failed with first | ⟨flow, m₁, done, others⟩
    · obtain ⟨k, m₂, t, m₃, reaches, printing⟩ := Task.reaches_print (t := .execute s) first
      exact ⟨k, m₂, t, m₃, .first reaches, printing⟩
    · obtain ⟨k, m₂, t, m₃, reaches, printing⟩ := ih others
      exact ⟨k, m₂, t, m₃, .rest done reaches, printing⟩

end

end Lox
