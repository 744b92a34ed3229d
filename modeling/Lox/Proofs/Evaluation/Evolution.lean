import Lox.Proofs.Evaluation.Begins
import Lox.Proofs.Evaluation.Restoration

/-!
# Evolution of the machine

A relation of an earlier machine to a later one that goes along with every change holds between any two
points of an evaluation in the order they are passed: where a task starts, where one that it comes to
starts, where that one ends and where the first one ends, whether they give a value or halt.
-/

namespace Lox

open Run

/-- The relation goes along with everything that an evaluation does to a machine. -/
structure Evolution (R : Machine → Machine → Prop) : Prop where
  trans : ∀ {m₁ m₂ m₃ : Machine}, R m₁ m₂ → R m₂ m₃ → R m₁ m₃
  elsewhere : ∀ {m m' : Machine}, m.Elsewhere m' → R m m'
  store : ∀ (m : Machine) {s : Store}, m.store.Becomes s → R m { m with store := s }
  write : ∀ (m : Machine) (bytes : ByteArray), R m { m with sink := (m.sink.write bytes).2 }
  readClock : ∀ m : Machine, R m { m with readings := m.readings + 1 }

/-- The machine that a run leaves behind has evolved from the one that it started on. -/
def Run.Evolves {α : Type} (R : Machine → Machine → Prop) (x : Run α) : Prop :=
  ∀ m, R m (finalMachine (x m))

section

variable {α β : Type} {R : Machine → Machine → Prop} {m m' : Machine}

theorem Run.bind_of_ok {x : Run α} {a : α} (done : x m = .ok a m') (f : α → Run β) :
    (x >>= f) m = f a m' := by
  change EStateM.bind x f m = _
  unfold EStateM.bind
  rw [done]

theorem Run.bind_of_error {x : Run α} {halt : Halt} (halted : x m = .error halt m') (f : α → Run β) :
    (x >>= f) m = .error halt m' := by
  change EStateM.bind x f m = _
  unfold EStateM.bind
  rw [halted]

theorem Run.ask_eq {f : Machine → α} {a : α} (found : f m = a) : ask f m = .ok a m := by
  rw [← found]
  rfl

theorem Run.read_of_ok {f : Machine → Except Fault α} {a : α} (found : f m = .ok a) (line : Nat) :
    read line f m = .ok a m := by
  change ofExcept line (f m) m = _
  rw [found]
  rfl

theorem Run.read_of_error {f : Machine → Except Fault α} {cause : Fault} (failed : f m = .error cause)
    (line : Nat) : read line f m = .error (.runtime ⟨cause, line⟩) m := by
  change ofExcept line (f m) m = _
  rw [failed]
  rfl

/-- The same outcome on another machine. -/
def Run.onMachine (f : Machine → Machine) :
    EStateM.Result Halt Machine α → EStateM.Result Halt Machine α
  | .ok a m => .ok a (f m)
  | .error halt m => .error halt (f m)

theorem Run.finalMachine_onMachine (f : Machine → Machine) (result : EStateM.Result Halt Machine α) :
    finalMachine (onMachine f result) = f (finalMachine result) := by
  cases result <;> rfl

theorem Run.inFrame_eq (frame : FrameId) (body : Run α) (m : Machine) :
    inFrame frame body m =
      onMachine (fun m' => { m' with current := m.current }) (body { m with current := frame }) := by
  unfold inFrame
  cases body { m with current := frame } <;> rfl

theorem Run.nested_eq (shallow : m.callDepth < maxCallDepth) (line : Nat) (body : Run α) :
    nested line body m = onMachine (fun m' => { m' with callDepth := m'.callDepth - 1 })
      (body { m with callDepth := m.callDepth + 1 }) := by
  unfold nested
  rw [if_neg (Nat.not_le.mpr shallow)]
  cases body { m with callDepth := m.callDepth + 1 } <;> rfl

theorem Run.nested_eq_fault (deep : ¬ m.callDepth < maxCallDepth) (line : Nat) (body : Run α) :
    nested line body m = fault .stackOverflow line m := by
  unfold nested
  rw [if_pos (Nat.not_lt.mp deep)]

/-- A function that takes the arguments is run one level deeper. -/
theorem call_function_eq {f : FunctionId} {closure : Closure} {arguments : List Value}
    (found : m.store.functionAt? f = some closure)
    (arity : closure.declaration.parameters.length = arguments.length) (n line : Nat) :
    call (n + 1) (.function f) line arguments m =
      nested line (callClosure n closure arguments) m := by
  rw [call, bind_of_ok (ask_eq found)]
  simp only [checkArity, if_pos arity]
  rfl

/-- A class that takes the arguments is instantiated one level deeper. -/
theorem call_class_eq {c : ClassId} {arguments : List Value}
    (arity : m.store.classArity c = arguments.length) (n line : Nat) :
    call (n + 1) (.class_ c) line arguments m = nested line (construct n c arguments) m := by
  rw [call, bind_of_ok (ask_eq arity)]
  simp only [checkArity, if_true]
  rfl

theorem inFrame_elsewhere (frame : FrameId) (body : Run α) :
    (finalMachine (body { m with current := frame })).Elsewhere
      (finalMachine (inFrame frame body m)) := by
  rw [inFrame_eq, finalMachine_onMachine]
  exact ⟨_, _, rfl⟩

theorem nested_elsewhere (line : Nat) (body : Run α) (shallow : m.callDepth < maxCallDepth) :
    (finalMachine (body { m with callDepth := m.callDepth + 1 })).Elsewhere
      (finalMachine (nested line body m)) := by
  rw [nested_eq shallow, finalMachine_onMachine]
  exact ⟨_, _, rfl⟩

namespace Evolution

variable (E : Evolution R)

include E

theorem refl (m : Machine) : R m m := E.elsewhere (.refl m)

/-! ### From start to end -/

theorem bind {x : Run α} {f : α → Run β} (first : Evolves R x) (next : ∀ a, Evolves R (f a)) :
    Evolves R (x >>= f) := by
  intro m
  have begun := first m
  cases ran : x m with
  | ok a m₁ =>
    rw [ran] at begun
    rw [bind_of_ok ran]
    exact E.trans begun (next a m₁)
  | error halt m₁ =>
    rw [ran] at begun
    rw [bind_of_error ran]
    exact begun

/-- All that an evaluation is made of goes along with the relation. -/
theorem closed : EvalClosed fun _ => Evolves R where
  pure _ := E.refl
  fault _ _ _ := E.refl
  ask _ := E.refl
  onStore becomes m := E.store m (becomes m.store)
  bind := E.bind
  inFrame within frame m := by
    have entered : R m { m with current := frame } := E.elsewhere ⟨frame, m.callDepth, rfl⟩
    exact E.trans (E.trans entered (within _)) (E.elsewhere (inFrame_elsewhere frame _))
  exhausted _ := E.refl
  nested {_ body} within line m := by
    by_cases shallow : m.callDepth < maxCallDepth
    · have deeper : R m { m with callDepth := m.callDepth + 1 } :=
        E.elsewhere ⟨m.current, m.callDepth + 1, rfl⟩
      exact E.trans (E.trans deeper (within _)) (E.elsewhere (nested_elsewhere line body shallow))
    · rw [nested_eq_fault shallow]
      exact E.refl m
  print value m := by
    have written := E.write m (m.store.text value ++ "\n").toUTF8
    unfold print
    dsimp only
    split <;> rename_i result <;> rw [result] at written <;> exact written
  readClock := E.readClock
  flush m := by
    unfold flush
    split <;> exact E.refl m

/-- A task that has given a value has evolved the machine. -/
theorem of_ok {n : Nat} (t : Task) {a : t.Result} (done : t.perform n m = .ok a m') : R m m' := by
  have evolved := E.closed.task n t m
  rwa [done] at evolved

/-! ### From start to a task begun -/

theorem before {n : Nat} {t t' : Task} (begins : Task.Begins n m t m' t') : R m m' := by
  cases begins with
  | grouping | operand | binaryLeft | logicalLeft | assigned | callee | getObject | setObject | first
  | expression | print | var | condition | loop | returned | superclass | value | parent | test
  | statement => exact E.refl m
  | binaryRight done | logicalRight done _ | arguments done | setValue done | others done
  | thenBranch done _ | elseBranch done _ | turn done _ => exact E.of_ok (.evaluate _) done
  | call done given =>
    exact E.trans (E.of_ok (.evaluate _) done) (E.of_ok (.evaluateAll _) given)
  | following done => exact E.of_ok (.execute _) done
  | again done _ ran => exact E.trans (E.of_ok (.evaluate _) done) (E.of_ok (.execute _) ran)
  | function | class_ => exact E.elsewhere ⟨m.current, m.callDepth + 1, rfl⟩
  | body opened =>
    cases opened
    exact E.trans (E.store m (.addFrame .refl _ _)) (E.elsewhere ⟨_, m.callDepth, rfl⟩)
  | block opened =>
    cases opened
    exact E.trans (E.store m (.addFrame .refl _ _)) (E.elsewhere ⟨_, m.callDepth, rfl⟩)
  | initializer made _ bound =>
    cases made
    cases bound
    exact E.store m (.addFrame (.addInstance .refl _) _ _)

theorem before_of_reaches {n k : Nat} {t t' : Task} (reaches : Task.Reaches n m t k m' t') :
    R m m' := by
  induction reaches with
  | refl => exact E.refl _
  | step begins _ ih => exact E.trans (E.before begins) ih

/-! ### From the end of a task to the end of the one that began it -/

/-- The first of two runs leads on to the end of both. -/
theorem first {x : Run α} {f : α → Run β} (next : ∀ a, Evolves R (f a)) (m : Machine) :
    R (finalMachine (x m)) (finalMachine ((x >>= f) m)) := by
  cases ran : x m with
  | ok a m₁ =>
    rw [bind_of_ok ran]
    exact next a m₁
  | error halt m₁ =>
    rw [bind_of_error ran]
    exact E.refl m₁

private theorem after_expression {n : Nat} {e : Expr} {t : Task}
    (begins : Task.Begins n m (.evaluate e) m' t) :
    R (finalMachine (t.perform n m')) (finalMachine (evaluate (n + 1) e m)) := by
  have closed := E.closed
  have value (e : Expr) : Evolves R (evaluate n e) := closed.task n (.evaluate e)
  -- the task begun is the first of the runs that are left, and the others go along
  cases begins with
  | grouping => exact E.refl _
  | operand => exact E.first (fun _ => closed.ofExcept (applyPrefix_ne_overflow _ _) _) m
  | binaryLeft =>
    refine E.first (fun a => closed.bind (value _) fun b => ?_) m
    exact closed.ofExcept (applyBinary_ne_overflow _ a b) _
  | binaryRight done =>
    rw [evaluate, bind_of_ok done]
    exact E.first (fun b => closed.ofExcept (applyBinary_ne_overflow _ _ b) _) m'
  | @logicalLeft _ right =>
    refine E.first (fun a => ?_) m
    split
    · exact closed.pure a
    · exact value right
  | logicalRight done undecided =>
    rw [evaluate, bind_of_ok done, if_neg undecided]
    exact E.refl _
  | assigned =>
    exact E.first (fun a => closed.bind (closed.assign _ _ a) fun _ => closed.pure a) m
  | @callee _ line arguments =>
    refine E.first (fun a => closed.bind (closed.task n (.evaluateAll arguments)) fun values => ?_) m
    exact closed.task n (.call a line values)
  | @arguments _ _ line _ a done =>
    rw [evaluate, bind_of_ok done]
    exact E.first (fun values => closed.task n (.call a line values)) m'
  | call done given =>
    rw [evaluate, bind_of_ok done, bind_of_ok given]
    exact E.refl _
  | getObject => exact E.first (fun a => closed.getProperty a _) m
  | setObject =>
    refine E.first (fun a => ?_) m
    cases a with
    | instance_ i =>
      exact closed.bind (value _) fun a => closed.bind (closed.setField i _ a) fun _ => closed.pure a
    | _ => exact closed.fault _ _ (by nofun)
  | @setValue _ _ _ _ i done =>
    rw [evaluate, bind_of_ok done]
    exact E.first (fun a => closed.bind (closed.setField i _ a) fun _ => closed.pure a) m'

private theorem after_statement {n : Nat} {s : Stmt} {t : Task}
    (begins : Task.Begins n m (.execute s) m' t) :
    R (finalMachine (t.perform n m')) (finalMachine (execute (n + 1) s m)) := by
  have closed := E.closed
  cases begins with
  | expression => exact E.first (fun _ => closed.pure _) m
  | print => exact E.first (fun a => closed.bind (closed.print a) fun _ => closed.pure _) m
  | var =>
    exact E.first (fun a => closed.bind closed.current fun _ =>
      closed.bind (closed.define _ _ a) fun _ => closed.pure _) m
  | block opened =>
    cases opened
    exact E.elsewhere (inFrame_elsewhere _ _)
  | @condition _ thenBranch elseBranch =>
    refine E.first (fun a => ?_) m
    split
    · exact closed.task n (.execute thenBranch)
    · cases elseBranch with
      | some s => exact closed.task n (.execute s)
      | none => exact closed.pure _
  | thenBranch done holds =>
    change R _ (finalMachine ((evaluate n _ >>= _) m))
    rw [bind_of_ok done, if_pos holds]
    exact E.refl _
  | elseBranch done fails =>
    change R _ (finalMachine ((evaluate n _ >>= _) m))
    rw [bind_of_ok done, if_neg fails]
    exact E.refl _
  | loop => exact E.refl _
  | returned => exact E.first (fun _ => closed.pure _) m
  | superclass =>
    exact E.first (fun c => closed.bind (closed.declareClass _ c _) fun _ => closed.pure _) m

private theorem after_call {n : Nat} {callee : Value} {line : Nat} {arguments : List Value} {t : Task}
    (begins : Task.Begins n m (.call callee line arguments) m' t) :
    R (finalMachine (t.perform n m')) (finalMachine (call (n + 1) callee line arguments m)) := by
  cases begins with
  | function found arity shallow =>
    rw [call_function_eq found arity]
    exact E.elsewhere (nested_elsewhere line _ shallow)
  | class_ arity shallow =>
    rw [call_class_eq arity]
    exact E.elsewhere (nested_elsewhere line _ shallow)

/-- Where a task that is begun ends, the one that has begun it goes on. -/
theorem after {n : Nat} {t t' : Task} (begins : Task.Begins n m t m' t') :
    R (finalMachine (t'.perform n m')) (finalMachine (t.perform (n + 1) m)) := by
  have closed := E.closed
  cases t with
  | evaluate e => exact E.after_expression begins
  | execute s => exact E.after_statement begins
  | call callee line arguments => exact E.after_call begins
  | evaluateAll expressions =>
    cases begins with
    | @first e rest =>
      exact E.first (fun _ => closed.bind (closed.task n (.evaluateAll rest)) fun _ => closed.pure _) m
    | others done =>
      change R _ (finalMachine ((evaluate n _ >>= _) m))
      rw [bind_of_ok done]
      exact E.first (fun _ => closed.pure _) m'
  | callClosure closure arguments =>
    cases begins with
    | body opened =>
      change R _ (finalMachine ((callFrame closure arguments >>= _) m))
      rw [bind_of_ok opened]
      exact E.trans (E.elsewhere (inFrame_elsewhere _ _))
        (E.first (fun flow => closed.callResult closure flow) _)
  | construct c arguments =>
    cases begins with
    | initializer made found bound =>
      change R _ (finalMachine ((onStore _ >>= _) m))
      rw [bind_of_ok made, bind_of_ok (ask_eq found)]
      change R _ (finalMachine ((onStore _ >>= _) _))
      rw [bind_of_ok bound]
      exact E.first (fun _ => closed.pure _) m'
  | evaluateOptional e =>
    cases begins with
    | value => exact E.refl _
  | evaluateSuperclass e =>
    cases begins with
    | parent =>
      refine E.first (fun a => ?_) m
      cases a with
      | class_ c => exact closed.pure _
      | _ => exact closed.fault _ _ (by nofun)
  | executeWhile condition body =>
    cases begins with
    | test =>
      refine E.first (fun a => ?_) m
      split
      · refine closed.bind (closed.task n (.execute body)) fun flow => ?_
        cases flow with
        | «return» value => exact closed.pure _
        | next value => exact closed.task n (.executeWhile condition body)
      · exact closed.pure _
    | turn done holds =>
      change R _ (finalMachine ((evaluate n condition >>= _) m))
      rw [bind_of_ok done, if_pos holds]
      refine E.first (fun flow => ?_) m'
      cases flow with
      | «return» value => exact closed.pure _
      | next value => exact closed.task n (.executeWhile condition body)
    | again done holds ran =>
      change R _ (finalMachine ((evaluate n condition >>= _) m))
      rw [bind_of_ok done, if_pos holds, bind_of_ok ran]
      exact E.refl _
  | executeAll body =>
    cases begins with
    | @statement _ rest =>
      refine E.first (fun flow => ?_) m
      cases flow with
      | «return» value => exact closed.pure _
      | next value => exact closed.task n (.executeAll rest)
    | following done =>
      change R _ (finalMachine ((execute n _ >>= _) m))
      rw [bind_of_ok done]
      exact E.refl _

theorem after_of_reaches {n k : Nat} {t t' : Task} (reaches : Task.Reaches n m t k m' t') :
    R (finalMachine (t'.perform k m')) (finalMachine (t.perform n m)) := by
  induction reaches with
  | refl => exact E.refl _
  | step begins _ ih => exact E.trans ih (E.after begins)

/-! ### Programs -/

section

variable {fuel k : Nat} {statements : List Stmt} {t : Task}

theorem before_of_programReaches (reaches : ProgramReaches fuel m statements k m' t) : R m m' := by
  induction reaches with
  | first reaches => exact E.before_of_reaches reaches
  | rest done _ ih => exact E.trans (E.of_ok (.execute _) done) ih

theorem after_of_programReaches (reaches : ProgramReaches fuel m statements k m' t) (last : Value) :
    R (finalMachine (t.perform k m')) (finalMachine (runFrom fuel last statements m)) := by
  induction reaches generalizing last with
  | first reaches =>
    refine E.trans (E.after_of_reaches reaches) ?_
    exact E.first (fun flow : Flow => E.closed.runFrom fuel flow.value _) _
  | rest done _ ih =>
    rw [runFrom, bind_of_ok done]
    exact ih _

/-- A task that a program comes to lies between the start of the program and its end. -/
theorem within_program (reaches : ProgramReaches fuel m statements k m' t) :
    R m m' ∧ R m' (finalMachine (t.perform k m')) ∧
      R (finalMachine (t.perform k m')) (finalMachine (runProgram fuel statements m)) := by
  refine ⟨E.before_of_programReaches reaches, E.closed.task k t m', ?_⟩
  refine E.trans (E.after_of_programReaches reaches .nil) (E.first (fun last => ?_) m)
  exact E.closed.bind E.closed.flush fun _ => E.closed.pure last

end

end Evolution

end

/-- The global frame and the distances stay in the course of every evaluation. -/
theorem place_evolution :
    Evolution fun m m' => m'.globals = m.globals ∧ m'.distances = m.distances where
  trans first next := ⟨next.1.trans first.1, next.2.trans first.2⟩
  elsewhere := by
    rintro m _ ⟨_, _, rfl⟩
    exact ⟨rfl, rfl⟩
  store _ _ _ := ⟨rfl, rfl⟩
  write _ _ := ⟨rfl, rfl⟩
  readClock _ := ⟨rfl, rfl⟩

end Lox
