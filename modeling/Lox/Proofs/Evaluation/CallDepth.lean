import Mathlib
import Lox.Proofs.Evaluation.Evolution
import Lox.Proofs.Evaluation.Halting

/-!
# The depth of calls

The depth counts the calls of functions and classes that have been let through and have not ended. On the
way to a task these are among the tasks in progress: `Task.Amid` keeps them. A class that runs its
initializer counts once, since the initializer is not called but run, and built-in functions do not count. A
call is refused only with the greatest number of others in progress, before anything of it is begun.
-/

namespace Lox

open Run

/-- The task is a call of a function or a class. -/
def Task.isUserCall : Task → Bool
  | .call (.function _) _ _ | .call (.class_ _) _ _ => true
  | _ => false

/-- A task comes to another one, and the tasks of the list, the outermost first, are in progress then. -/
inductive Task.Amid : Nat → Machine → Task → List Task → Nat → Machine → Task → Prop
  | refl {n : Nat} {m : Machine} {t : Task} : Amid n m t [] n m t
  | step {n k : Nat} {m m' m'' : Machine} {t t' t'' : Task} {inside : List Task}
    (begins : Begins n m t m' t') (rest : Amid n m' t' inside k m'' t'') :
    Amid (n + 1) m t (t :: inside) k m'' t''

/-- The statements of a program, run one after another at top level, come to a task while the tasks of the
list are in progress. -/
inductive ProgramAmid (fuel : Nat) :
    Machine → List Stmt → List Task → Nat → Machine → Task → Prop
  | first {m m' : Machine} {s : Stmt} {rest : List Stmt} {tasks : List Task} {k : Nat} {t : Task}
    (amid : Task.Amid fuel m (.execute s) tasks k m' t) :
    ProgramAmid fuel m (s :: rest) tasks k m' t
  | rest {m m₁ m' : Machine} {s : Stmt} {rest : List Stmt} {flow : Flow} {tasks : List Task}
    {k : Nat} {t : Task} (done : execute fuel s m = .ok flow m₁)
    (amid : ProgramAmid fuel m₁ rest tasks k m' t) : ProgramAmid fuel m (s :: rest) tasks k m' t

section

variable {n k fuel : Nat} {m m' : Machine} {t t' : Task} {tasks : List Task} {statements : List Stmt}

/-! ### Tasks in progress -/

/-- A task is come to amid some tasks or other. -/
theorem Task.reaches_iff : Reaches n m t k m' t' ↔ ∃ tasks, Amid n m t tasks k m' t' := by
  constructor
  · intro reaches
    induction reaches with
    | refl => exact ⟨[], .refl⟩
    | step begins _ ih =>
      obtain ⟨tasks, amid⟩ := ih
      exact ⟨_ :: tasks, .step begins amid⟩
  · rintro ⟨tasks, amid⟩
    induction amid with
    | refl => exact .refl
    | step begins _ ih => exact .step begins ih

theorem programReaches_iff :
    ProgramReaches fuel m statements k m' t ↔ ∃ tasks, ProgramAmid fuel m statements tasks k m' t := by
  constructor
  · intro reaches
    induction reaches with
    | first reaches =>
      obtain ⟨tasks, amid⟩ := Task.reaches_iff.mp reaches
      exact ⟨tasks, .first amid⟩
    | rest done _ ih =>
      obtain ⟨tasks, amid⟩ := ih
      exact ⟨tasks, .rest done amid⟩
  · rintro ⟨tasks, amid⟩
    induction amid with
    | first amid => exact .first (Task.reaches_iff.mpr ⟨_, amid⟩)
    | rest done _ ih => exact .rest done ih

/-! ### The depth -/

/-- A task that has given a value has left the depth as it was. -/
theorem Task.callDepth_of_ok {a : t.Result} (done : t.perform n m = .ok a m') :
    m'.callDepth = m.callDepth := by
  have place := Task.restores n t m
  rw [done] at place
  exact place.callDepth

/-- One step goes one deeper if it is that of a call which has been let through. -/
theorem Task.Begins.callDepth (begins : Begins n m t m' t') :
    m'.callDepth = m.callDepth + if t.isUserCall then 1 else 0 := by
  cases begins with
  | grouping | operand | binaryLeft | logicalLeft | assigned | callee | getObject | setObject | first
  | expression | print | var | condition | loop | returned | superclass | value | parent | test
  | statement | function | class_ => rfl
  | binaryRight done | logicalRight done _ | arguments done | setValue done | others done
  | thenBranch done _ | elseBranch done _ | turn done _ =>
    exact Task.callDepth_of_ok (t := .evaluate _) done
  | call done given =>
    exact (Task.callDepth_of_ok (t := .evaluateAll _) given).trans
      (Task.callDepth_of_ok (t := .evaluate _) done)
  | following done => exact Task.callDepth_of_ok (t := .execute _) done
  | again done _ ran =>
    exact (Task.callDepth_of_ok (t := .execute _) ran).trans
      (Task.callDepth_of_ok (t := .evaluate _) done)
  | body opened | block opened =>
    cases opened
    rfl
  | initializer made _ bound =>
    cases made
    cases bound
    rfl

/-- A call is let through only where there is room for one more. -/
theorem Task.Begins.callDepth_le (begins : Begins n m t m' t') (within : m.callDepth ≤ maxCallDepth) :
    m'.callDepth ≤ maxCallDepth := by
  have depth := begins.callDepth
  cases begins with
  | function _ _ shallow | class_ _ shallow => exact shallow
  | _ =>
    rw [depth]
    exact within

/-- The depth has grown by the calls among the tasks in progress, by induction on the steps. -/
theorem Task.Amid.callDepth (amid : Amid n m t tasks k m' t') :
    m'.callDepth = m.callDepth + tasks.countP isUserCall := by
  induction amid with
  | refl => rfl
  | step begins _ ih =>
    rw [ih, begins.callDepth, List.countP_cons]
    omega

theorem Task.Amid.callDepth_le (amid : Amid n m t tasks k m' t')
    (within : m.callDepth ≤ maxCallDepth) : m'.callDepth ≤ maxCallDepth := by
  induction amid with
  | refl => exact within
  | step begins _ ih => exact ih (begins.callDepth_le within)

/-- So it has for a program, whose statements end at the depth where they begin. -/
theorem ProgramAmid.callDepth (amid : ProgramAmid fuel m statements tasks k m' t) :
    m'.callDepth = m.callDepth + tasks.countP Task.isUserCall := by
  induction amid with
  | first amid => exact amid.callDepth
  | rest done _ ih => rw [ih, Task.callDepth_of_ok (t := .execute _) done]

theorem ProgramAmid.callDepth_le (amid : ProgramAmid fuel m statements tasks k m' t)
    (within : m.callDepth ≤ maxCallDepth) : m'.callDepth ≤ maxCallDepth := by
  induction amid with
  | first amid => exact amid.callDepth_le within
  | rest done _ ih =>
    rw [← Task.callDepth_of_ok (t := .execute _) done] at within
    exact ih within

end

/-! ### Calls that are let through -/

section

variable {n : Nat} {m m' : Machine} {line : Nat} {arguments : List Value}

/-- Below the limit a body runs one level deeper, and the depth is the same again when it has ended. -/
theorem Run.nested_eq_of_restores {α : Type} {body : Run α} (restores : Restores body)
    (shallow : m.callDepth < maxCallDepth) (line : Nat) :
    nested line body m = onMachine (fun m' => { m' with callDepth := m.callDepth })
      (body { m with callDepth := m.callDepth + 1 }) := by
  have place := restores { m with callDepth := m.callDepth + 1 }
  rw [nested_eq shallow]
  cases ended : body { m with callDepth := m.callDepth + 1 } with
  | ok a m' | error halt m' =>
    rw [ended] at place
    have depth : m'.callDepth - 1 = m.callDepth := by
      have deeper : m'.callDepth = m.callDepth + 1 := place.callDepth
      omega
    simp only [onMachine, depth]

/-- A built-in function runs on the spot, however many calls are in progress. -/
theorem call_native_eq {f : Native} (arity : f.arity = arguments.length) (n : Nat) (m : Machine) :
    call (n + 1) (.native f) line arguments m = callNative f m := by
  rw [call]
  simp only [checkArity, if_pos arity]
  rfl

/-! ### Calls that are refused -/

/-- At the limit a call with the right number of arguments is refused, and the machine stays as it is. -/
theorem call_refused {callee : Value} (admits : m.store.Admits callee arguments.length)
    (deep : maxCallDepth ≤ m.callDepth) (n : Nat) :
    call (n + 1) callee line arguments m = .error (.runtime ⟨.stackOverflow, line⟩) m := by
  cases callee with
  | function f =>
    obtain ⟨closure, found, arity⟩ := admits
    rw [call_function_eq found arity, nested_eq_fault (Nat.not_lt.mpr deep)]
    rfl
  | class_ c =>
    rw [call_class_eq admits, nested_eq_fault (Nat.not_lt.mpr deep)]
    rfl
  | nil | bool _ | number _ | string _ | native _ | instance_ _ => exact admits.elim

/-- At the limit no call begins anything. -/
theorem Task.not_begins_of_deep {callee : Value} {t : Task} (deep : maxCallDepth ≤ m.callDepth) :
    ¬ Begins n m (.call callee line arguments) m' t := by
  intro begins
  cases begins with
  | function _ _ shallow | class_ _ shallow => exact absurd deep (Nat.not_le.mpr shallow)

/-- Where an evaluation fails because too many calls are in progress, it has come to a call that was refused
for this, by induction on the bound. -/
theorem Task.amid_refused {t : Task}
    (failed : t.perform n m = .error (.runtime ⟨.stackOverflow, line⟩) m') :
    ∃ tasks k m₁ callee arguments, Amid n m t tasks (k + 1) m₁ (.call callee line arguments) ∧
      m₁.store.Admits callee arguments.length ∧ maxCallDepth ≤ m₁.callDepth := by
  induction n generalizing m t m' with
  | zero =>
    rw [t.perform_zero] at failed
    cases failed
  | succ n ih =>
    have early : Halt.Early (.runtime ⟨.stackOverflow, line⟩) := rfl
    rcases begins_of_halted early failed with ⟨m₁, t₁, m₂, begins, further, -⟩ |
      ⟨value, a, m₁, -, -, printed⟩ | ⟨callee, _, arguments, rfl, admits, deep, refused, -⟩
    · obtain ⟨tasks, k, m₃, callee, arguments, amid, rest⟩ := ih further
      exact ⟨_, k, m₃, callee, arguments, .step begins amid, rest⟩
    · -- printing fails for the sink only
      unfold print at printed
      dsimp only at printed
      split at printed <;> cases printed
    · cases refused
      exact ⟨[], n, m, callee, arguments, .refl, admits, deep⟩

/-- A call below the limit is not refused itself: it has let through one that came to a call at the limit. -/
theorem Task.amid_refused_of_shallow {callee : Value} {line' : Nat}
    (shallow : m.callDepth < maxCallDepth)
    (failed : Lox.call n callee line arguments m = .error (.runtime ⟨.stackOverflow, line'⟩) m') :
    ∃ tasks k m₁ callee' arguments',
      Amid n m (.call callee line arguments) (.call callee line arguments :: tasks) (k + 1) m₁
        (.call callee' line' arguments') ∧
      m₁.store.Admits callee' arguments'.length ∧ m₁.callDepth = maxCallDepth := by
  obtain ⟨tasks, k, m₁, callee', arguments', amid, admits, deep⟩ :=
    amid_refused (t := .call callee line arguments) failed
  have depth : m₁.callDepth = maxCallDepth :=
    Nat.le_antisymm (amid.callDepth_le (Nat.le_of_lt shallow)) deep
  cases amid with
  | refl => exact absurd depth (Nat.ne_of_lt shallow)
  | step begins rest => exact ⟨_, k, m₁, callee', arguments', .step begins rest, admits, depth⟩

end

/-! ### The whole -/

/-- The depth of calls is exact and bounded. Wherever a program comes to that begins at depth zero, and when
that has ended, the depth is the number of calls of functions and classes in progress, and it is never more
than 255. A class and the initializer that it runs count once, and a built-in function does not count. Below
255 the body of a function or class runs one level deeper, and a stack overflow only comes from within it. At
255 such a call fails on its line, with the machine as the arguments have left it and nothing begun. -/
theorem call_depth_is_exact :
    (∀ (fuel : Nat) (m : Machine) (statements : List Stmt), m.callDepth = 0 →
      ∀ tasks k m' t, ProgramAmid fuel m statements tasks k m' t →
        m'.callDepth = tasks.countP Task.isUserCall ∧
        (finalMachine (t.perform k m')).callDepth = tasks.countP Task.isUserCall ∧
        tasks.countP Task.isUserCall ≤ 255) ∧
    (∀ n m c line arguments m₁ m₂ t,
      Task.Begins (n + 1) m (.call (.class_ c) line arguments) m₁ (.construct c arguments) →
      Task.Begins n m₁ (.construct c arguments) m₂ t →
        m₂.callDepth = m.callDepth + 1 ∧ ∃ closure, t = .callClosure closure arguments) ∧
    (∀ n m f line arguments, (∀ m' t, ¬ Task.Begins n m (.call (.native f) line arguments) m' t) ∧
      (f.arity = arguments.length →
        call (n + 1) (.native f) line arguments m = callNative f m)) ∧
    (∀ n (m : Machine) line (arguments : List Value), m.callDepth < 255 →
      (∀ f closure, m.store.functionAt? f = some closure →
        closure.declaration.parameters.length = arguments.length →
          call (n + 1) (.function f) line arguments m =
            onMachine (fun m' => { m' with callDepth := m.callDepth })
              (callClosure n closure arguments { m with callDepth := m.callDepth + 1 })) ∧
      (∀ c, m.store.classArity c = arguments.length →
          call (n + 1) (.class_ c) line arguments m =
            onMachine (fun m' => { m' with callDepth := m.callDepth })
              (construct n c arguments { m with callDepth := m.callDepth + 1 })) ∧
      ∀ callee e m', call (n + 1) callee line arguments m = .error (.runtime e) m' →
        e.fault = .stackOverflow → ∃ tasks k m₁ callee' arguments',
          Task.Amid (n + 1) m (.call callee line arguments) (.call callee line arguments :: tasks)
            (k + 1) m₁ (.call callee' e.line arguments') ∧
          m₁.store.Admits callee' arguments'.length ∧ m₁.callDepth = 255) ∧
    (∀ n m callee line arguments a values m₁ m₂, evaluate (n + 1) callee m = .ok a m₁ →
      evaluateAll (n + 1) arguments m₁ = .ok values m₂ → m₂.store.Admits a values.length →
      m₂.callDepth = 255 →
        evaluate (n + 2) (.call callee line arguments) m =
          .error (.runtime ⟨.stackOverflow, line⟩) m₂ ∧
        ∀ m' t, ¬ Task.Begins n m₂ (.call a line values) m' t) ∧
    Fault.message .stackOverflow = "Stack overflow." := by
  refine ⟨fun fuel m statements top tasks k m' t amid => ?_, ?_, ?_, ?_, ?_, rfl⟩
  · have depth : m'.callDepth = tasks.countP Task.isUserCall := by
      rw [amid.callDepth, top, Nat.zero_add]
    have bound : m'.callDepth ≤ maxCallDepth := amid.callDepth_le (top ▸ Nat.zero_le _)
    refine ⟨depth, ?_, depth ▸ bound⟩
    exact (Task.restores k t m').callDepth.trans depth
  · intro n m c line arguments m₁ m₂ t called begun
    refine ⟨begun.callDepth.trans called.callDepth, ?_⟩
    cases begun with
    | initializer _ _ _ => exact ⟨_, rfl⟩
  · exact fun n m f line arguments => ⟨fun m' t => nofun, fun arity => call_native_eq arity n m⟩
  · intro n m line arguments shallow
    refine ⟨fun f closure found arity => ?_, fun c arity => ?_, fun callee e m' failed overflow => ?_⟩
    · rw [call_function_eq found arity]
      exact nested_eq_of_restores (Task.restores n (.callClosure closure arguments)) shallow line
    · rw [call_class_eq arity]
      exact nested_eq_of_restores (Task.restores n (.construct c arguments)) shallow line
    · obtain ⟨fault, line'⟩ := e
      subst overflow
      exact Task.amid_refused_of_shallow shallow failed
  · intro n m callee line arguments a values m₁ m₂ done given admits deep
    have limit : maxCallDepth ≤ m₂.callDepth := Nat.le_of_eq deep.symm
    refine ⟨?_, fun m' t => Task.not_begins_of_deep limit⟩
    rw [evaluate, bind_of_ok done, bind_of_ok given]
    exact call_refused admits limit n

namespace AtLimit

/-- A machine on which a function without parameters has been declared, with 255 calls in progress. -/
def machine : Machine :=
  { finalMachine (execute 1 (.function ⟨⟨"f", 1⟩, [], []⟩)
      (Session.start .unlimited fun _ => 0).machine) with callDepth := 255 }

def callee : Expr := .variable ⟨"f", 1⟩ 0

end AtLimit

open AtLimit in
/-- One more call of the function is refused. -/
theorem call_at_limit_is_refused : evaluate 2 (.call callee 3 []) machine =
    .error (.runtime ⟨.stackOverflow, 3⟩) machine := by
  obtain ⟨named, found⟩ : evaluate 1 callee machine = .ok (.function ⟨0⟩) machine ∧
      machine.store.functionAt? ⟨0⟩ = some ⟨⟨⟨"f", 1⟩, [], []⟩, ⟨0⟩, false⟩ := by cbv
  obtain ⟨-, -, -, -, limit, -⟩ := call_depth_is_exact
  exact (limit 0 machine callee 3 [] _ [] machine machine named rfl ⟨_, found, rfl⟩ rfl).1

end Lox
