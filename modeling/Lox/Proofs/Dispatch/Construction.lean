import Lox.Proofs.Dispatch.Initializers

/-!
# Construction in sessions

In every state that a session of accepted programs comes to, a class that is called gives an instance of its
own, and an initializer that is called gives the instance that it is bound to, wherever it has been kept since.
-/

namespace Lox

open Run

variable {L : List Lookup} {g g' : FrameId} {n k : Nat} {m m' : Machine} {t : Task} {s s' : Store}
  {closure : Closure}

/-! ### Calls -/

theorem Run.nested_ok {α : Type} {line : Nat} {body : Run α} {a : α}
    (done : nested line body m = .ok a m') :
    ∃ m₁, body { m with callDepth := m.callDepth + 1 } = .ok a m₁ := by
  by_cases shallow : m.callDepth < maxCallDepth
  · rw [nested_eq shallow] at done
    cases ran : body { m with callDepth := m.callDepth + 1 } with
    | ok b m₁ =>
      rw [ran] at done
      cases done
      exact ⟨m₁, rfl⟩
    | error halt m₁ =>
      rw [ran] at done
      cases done
  · rw [nested_eq_fault shallow] at done
    cases done

theorem call_function_ok {f : FunctionId} {line : Nat} {arguments : List Value} {v : Value}
    (found : m.store.functionAt? f = some closure)
    (done : call n (.function f) line arguments m = .ok v m') :
    ∃ k m₁, callClosure k closure arguments { m with callDepth := m.callDepth + 1 } = .ok v m₁ := by
  cases n with
  | zero => cases done
  | succ n =>
    by_cases arity : closure.declaration.parameters.length = arguments.length
    · rw [call_function_eq found arity] at done
      exact ⟨n, nested_ok done⟩
    · rw [call, bind_of_ok (ask_eq found)] at done
      simp only [checkArity, if_neg arity] at done
      cases done

/-- The number of arguments of a class is that of the nearest initializer on the chain of its superclasses. -/
theorem Store.Grounded.classArity_eq (grounded : s.Grounded g) {c : ClassId}
    (here : (s.classAt? c).isSome) : ∃ cs, Chain s.superclass? c cs ∧ s.classArity c =
      ((cs.findSome? (s.ownMethod? · initializerName)).map (·.declaration.parameters.length)).getD 0 := by
  obtain ⟨cs, chain⟩ := grounded.class_chain c
  refine ⟨cs, chain, ?_⟩
  rw [← grounded.findMethod_eq_findSome? here chain, classArity, initializer?]
  cases s.findMethod c initializerName <;> rfl

/-- What a function has for `this` in its own frame is an instance. -/
theorem Callable.receiver_is_instance {receiver : Value} (callable : Callable L g s closure)
    (this : s.binding? closure.frame Keyword.this.spelling = some receiver) :
    ∃ i, receiver = .instance_ i := by
  obtain ⟨-, Γ, lodged, -⟩ := callable
  have absurd {P : Prop} (vacant : s.binding? closure.frame Keyword.this.spelling = none) : P := by
    rw [this] at vacant
    cases vacant
  generalize closure.frame = f at this lodged absurd
  cases lodged with
  | top vacant => exact absurd (vacant _ notPlain_this)
  | inner _ _ _ vacant => exact absurd (vacant _ notPlain_this)
  | parent _ _ _ _ _ vacant => exact absurd vacant
  | receiver _ _ _ _ bound =>
    cases this.symm.trans bound
    exact ⟨_, rfl⟩

/-- Calls that construct or initialize, made where the machine stands. -/
structure Machine.Constructs (m : Machine) : Prop where
  /-- A class that is called gives a new instance of this class. -/
  classes : ∀ n c line arguments v m', call n (.class_ c) line arguments m = .ok v m' →
    m.store.classArity c = arguments.length ∧ ∃ i object, v = .instance_ i ∧
      m.store.instanceAt? i = none ∧ m'.store.instanceAt? i = some object ∧ object.cls = c
  /-- It takes the arguments of the nearest initializer on the chain of its superclasses. -/
  arity : ∀ c, (m.store.classAt? c).isSome → ∃ cs, Chain m.store.superclass? c cs ∧
    m.store.classArity c = ((cs.findSome? (m.store.ownMethod? · initializerName)).map
      (·.declaration.parameters.length)).getD 0
  /-- Just the bound methods that are named so are initializers. -/
  marks : ∀ f closure, m.store.functionAt? f = some closure → (closure.isInitializer ↔
    closure.declaration.isInitializer ∧ ∃ receiver, m.store.IsBound closure receiver)
  /-- A bound method is bound to an instance, and an initializer that is called gives this instance. -/
  initializers : ∀ f closure receiver, m.store.functionAt? f = some closure →
    m.store.IsBound closure receiver → (∃ i, receiver = .instance_ i) ∧
      (closure.declaration.isInitializer → ∀ n line arguments v m',
        call n (.function f) line arguments m = .ok v m' → v = receiver)
  /-- A method that is bound gives such a function. -/
  binds : ∀ c name method receiver, m.store.findMethod c name = some method → ∃ f closure,
    (m.store.bindValue method receiver).1 = .function f ∧
      (m.store.bindValue method receiver).2.functionAt? f = some closure ∧
      closure.declaration = method.declaration ∧
      (m.store.bindValue method receiver).2.IsBound closure receiver

/-- A machine on which functions lodge and are marked constructs. -/
theorem Settled.constructs (settled : Settled L g m.store) (recorded : Recorded L m)
    (marked : m.store.Marked) (grounded : m.store.Grounded g') : m.Constructs where
  classes _ _ _ _ _ _ done := call_class_ok done
  arity _ here := grounded.classArity_eq here
  marks f closure found := (marked.functions f closure found).isInitializer_iff
  initializers f closure receiver found bound := by
    have callable := settled.functions f closure found
    refine ⟨callable.receiver_is_instance bound.this, fun named n line arguments v m' done => ?_⟩
    obtain ⟨k, m₁, called⟩ := call_function_ok found done
    have initializer := (marked.functions f closure found).isInitializer_iff.mpr ⟨named, receiver, bound⟩
    have lodged : (Task.callClosure closure arguments).IsLodged L g
        { m with callDepth := m.callDepth + 1 } := ⟨settled, recorded, callable⟩
    exact callClosure_initializer lodged initializer bound called
  binds _ _ _ receiver found := Store.bindValue_isBound found receiver

/-- A bound method of the name of initializers gives the instance that it is bound to where it is carried out,
also for a class that is called. -/
def Task.GivesReceiver (n : Nat) (m : Machine) : Task → Prop
  | .callClosure closure arguments => closure.declaration.isInitializer → ∀ receiver v m',
      m.store.IsBound closure receiver → Lox.callClosure n closure arguments m = .ok v m' → v = receiver
  | _ => True

theorem Task.IsMarked.givesReceiver (good : t.IsMarked L g m) (n : Nat) : t.GivesReceiver n m := by
  unfold GivesReceiver
  split
  · intro named receiver v m' bound done
    have marks := good.called _ _ rfl
    exact callClosure_initializer good.lodged (marks.isInitializer_iff.mpr ⟨named, receiver, bound⟩) bound done
  · trivial

/-- Whatever is bound in the first store is bound to the same in the second one. -/
def Store.KeepsReceivers (s s' : Store) : Prop :=
  ∀ closure receiver, s.IsBound closure receiver → s'.IsBound closure receiver

/-! ### Programs -/

/-- Statements that can be carried out in order at top level. -/
structure Fitting (L : List Lookup) (g : FrameId) (m : Machine) (statements : List Stmt) : Prop where
  settled : Settled L g m.store
  recorded : Recorded L m
  fits : ∃ Γ, Room g m.store m.current (statementIds statements) Γ ∧ statementsScoped L Γ statements

namespace Fitting

variable {stmt : Stmt} {rest statements : List Stmt} {fuel : Nat}

theorem first (fitting : Fitting L g m (stmt :: rest)) : (Task.execute stmt).IsLodged L g m := by
  obtain ⟨settled, recorded, Γ, room, code⟩ := fitting
  rw [statementsScoped] at code
  exact ⟨settled, recorded, Γ, room.part (List.sublist_append_left _ _), code.1⟩

theorem next {flow : Flow} (fitting : Fitting L g m (stmt :: rest))
    (done : execute fuel stmt m = .ok flow m') : Fitting L g m' rest := by
  obtain ⟨settled, recorded, Γ, room, code⟩ := fitting
  rw [statementsScoped] at code
  obtain ⟨place, later, settled', others⟩ :=
    ((Keeping.all L g fuel).statement settled recorded room code.1).of_ok done
  exact ⟨settled', recorded.of_place place, _, others, code.2⟩

theorem marked_of_reaches (fitting : Fitting L g m statements) (marked : m.store.Marked)
    (reaches : ProgramReaches fuel m statements k m' t) : t.IsMarked L g m' ∧ m'.store.Marked :=
  (maintains_marked L g).programReaches (fun fitting => ⟨fitting.first, nofun⟩) next reaches fitting marked

/-- Where a program comes to, calls construct, before and after the task there. -/
theorem constructs (fitting : Fitting L g m statements) (marked : m.store.Marked)
    (grounded : m.Grounded g') (reaches : ProgramReaches fuel m statements k m' t) :
    m'.Constructs ∧ t.GivesReceiver k m' ∧ (finalMachine (t.perform k m')).Constructs := by
  obtain ⟨good, marked'⟩ := fitting.marked_of_reaches marked reaches
  obtain ⟨grounded', inside⟩ := grounded_of_programReaches grounded reaches
  obtain ⟨place, -, settled⟩ := (good.lodged.keeps k).final
  have final := (maintains_marked L g).task good marked' (n := k)
  have ended := (grounding g' k t m' grounded' inside).final grounded'
  exact ⟨good.lodged.settled.constructs good.lodged.recorded marked' grounded'.store,
    good.givesReceiver k, settled.constructs (good.lodged.recorded.of_place place) final ended.store⟩

/-- What is bound stays so up to a task, through it, and on to the end of the program. -/
theorem keepsReceivers (fitting : Fitting L g m statements)
    (reaches : ProgramReaches fuel m statements k m' t) :
    m.store.KeepsReceivers m'.store ∧ m'.store.KeepsReceivers (finalMachine (t.perform k m')).store ∧
      (finalMachine (t.perform k m')).store.KeepsReceivers
        (finalMachine (runProgram fuel statements m)).store ∧
      ∀ j m₁ t₁, Task.Reaches k m' t j m₁ t₁ → m'.store.KeepsReceivers m₁.store ∧
        (finalMachine (t₁.perform j m₁)).store.KeepsReceivers (finalMachine (t.perform k m')).store := by
  have lodged : t.IsLodged L g m' := by
    obtain ⟨settled, recorded, Γ, room, code⟩ := id fitting
    exact Task.isLodged_of_programReaches reaches settled recorded room code
  have keeps := maintains_isBound L g
  refine ⟨fun closure receiver bound => ?_, fun closure receiver bound => ?_,
    fun closure receiver bound => ?_, fun j m₁ t₁ reaches' => ⟨fun closure receiver bound => ?_,
      fun closure receiver bound => ?_⟩⟩
  · exact ((keeps closure receiver).programReaches first next reaches fitting bound).2
  · exact (keeps closure receiver).task lodged bound
  · refine Maintains.of_runFrom (J := fun m => m.store.IsBound closure receiver) ?_
    exact (keeps closure receiver).after_of_programReaches first next Task.IsLodged.begins reaches
      fitting .nil bound
  · exact ((keeps closure receiver).reaches reaches' lodged bound).2
  · exact (keeps closure receiver).after_of_reaches Task.IsLodged.begins reaches' lodged bound

end Fitting

/-! ### Sessions -/

namespace Session

variable {session : Session} {source : String} {program : Accepted}

theorem Opened.fitting (opened : Opened L session source program) :
    Fitting L session.machine.globals (session.machine.recordAll program.bindings) program.statements := by
  obtain ⟨settled, record, room, code⟩ := opened
  have recorded := record.recorded
  rw [Lexical.recordAll_eq] at recorded ⊢
  exact ⟨settled, recorded, [], room, code⟩

/-- A run leaves all marks right, whatever has become of it. -/
theorem AtRest.marked_run (rest : AtRest L session) (marked : session.machine.store.Marked) (fuel : Nat)
    (source : String) : (session.run fuel source).2.machine.store.Marked := by
  change (session.after (.run fuel source)).machine.store.Marked
  cases verdict : (Source.accept source session.nextId).1 with
  | error diagnostics => rwa [after_run_of_rejected verdict]
  | ok program =>
    obtain ⟨L', opened⟩ := rest.begin verdict
    rw [after_run_of_accepted verdict]
    refine Maintains.of_runFrom (J := fun m => m.store.Marked) ?_
    refine (maintains_marked L' session.machine.globals).runFrom
      (fun fitting => ⟨fitting.first, nofun⟩) Fitting.next opened.fitting ?_
    rwa [Lexical.recordAll_eq]

/-- After any runs a session is at rest and all marks are right. -/
theorem marked_afterRuns (sink : Sink) (clock : Nat → Float) (runs : List (Nat × String)) :
    ∃ L, AtRest L ((Session.start sink clock).afterRuns runs) ∧
      ((Session.start sink clock).afterRuns runs).machine.store.Marked := by
  have begun := AtRest.start sink clock
  have marked : (Session.start sink clock).machine.store.Marked := ⟨nofun, nofun⟩
  generalize Session.start sink clock = session at begun marked
  generalize ([] : List Lookup) = L at begun
  unfold afterRuns
  induction runs generalizing L session with
  | nil => exact ⟨L, begun, marked⟩
  | cons run others ih =>
    obtain ⟨L', rest⟩ := begun.run run.1 run.2
    exact ih _ (begun.marked_run marked run.1 run.2) L' rest

theorem afterRuns_eq_afterAll (session : Session) (runs : List (Nat × String)) :
    session.afterRuns runs = session.afterAll (runs.map fun run => .run run.1 run.2) := by
  unfold afterRuns afterAll
  rw [List.foldl_map]
  rfl

end Session

/-- Construction and initializers yield the receiver. Wherever a session of accepted programs stands, at
rest, before a task and after it, a class that is called gives a new instance of exactly this class and takes
the arguments of its nearest initializer, and a bound method of the name of initializers gives the instance
that it is bound to. What it is bound to is the same from then on. -/
theorem construction_yields_receiver (sink : Sink) (clock : Nat → Float) (runs : List (Nat × String))
    (fuel : Nat) (source : String) :
    let s := (Session.start sink clock).afterRuns runs
    s.machine.Constructs ∧ ∀ k m t, s.ComesTo (.run fuel source) k m t →
      let m' := finalMachine (t.perform k m)
      m.Constructs ∧ t.GivesReceiver k m ∧ m'.Constructs ∧
        s.machine.store.KeepsReceivers m.store ∧ m.store.KeepsReceivers m'.store ∧
        m'.store.KeepsReceivers (s.run fuel source).2.machine.store ∧
        ∀ j m₁ t₁, Task.Reaches k m t j m₁ t₁ → m.store.KeepsReceivers m₁.store ∧
          (finalMachine (t₁.perform j m₁)).store.KeepsReceivers m'.store := by
  intro s
  obtain ⟨L, rest, marked⟩ := Session.marked_afterRuns sink clock runs
  have grounded : s.machine.Grounded (Session.start sink clock).machine.globals := by
    change ((Session.start sink clock).afterRuns runs).machine.Grounded _
    rw [Session.afterRuns_eq_afterAll]
    exact Session.afterAll_grounded (Session.start_grounded sink clock) _
  refine ⟨rest.settled.constructs rest.record.recorded marked grounded.store, fun k m t comes => ?_⟩
  cases comes with
  | @run _ _ program _ _ _ accepted reaches =>
    obtain ⟨L', opened⟩ := rest.begin accepted
    have marked' : (s.machine.recordAll program.bindings).store.Marked := by
      rwa [Lexical.recordAll_eq]
    obtain ⟨before, gives, after⟩ :=
      opened.fitting.constructs marked' (grounded.recordAll program.bindings) reaches
    obtain ⟨up, through, on, within⟩ := opened.fitting.keepsReceivers reaches
    refine ⟨before, gives, after, ?_, through, ?_, within⟩
    · rwa [Lexical.recordAll_eq] at up
    · change Store.KeepsReceivers _ (s.after (.run fuel source)).machine.store
      rwa [Session.after_run_of_accepted accepted]

namespace Reinitialized

/-- An initializer that is called again, on the instance that it has been run on, and returns from a loop. -/
def source : String := "class A\x7binit()\x7bwhile(true)\x7breturn;\x7d\x7d\x7dA().init();"

def initializer : FunctionDecl :=
  ⟨⟨"init", 1⟩, [], [.while (.literal (.bool true)) (.block [.return 1 none])]⟩

def declaration : Stmt := .class_ ⟨"A", 1⟩ none [initializer]

def callee : Expr := .get (.call (.variable ⟨"A", 1⟩ 0) 1 []) ⟨"init", 1⟩

def program : Accepted := ⟨[declaration, .expression (.call callee 1 [])], []⟩

def begun : Machine := (Session.start .unlimited fun _ => 0).machine.recordAll program.bindings

def declared : Machine := finalMachine (execute 14 declaration begun)

/-- The machine with the bound method at hand. -/
def called : Machine := finalMachine (evaluate 12 callee declared)

/-- The method bound to the instance. -/
def bound : Closure := ⟨initializer, ⟨4⟩, true⟩

end Reinitialized

open Reinitialized in
/-- The call gives the instance that the method is bound to. -/
theorem called_again_initializer_gives_instance :
    (Session.start .unlimited fun _ => 0).ComesTo (.run 14 source) 12 called (.call (.function ⟨0⟩) 1 []) ∧
      called.store.IsBound bound (.instance_ ⟨0⟩) ∧
      ∃ v m', call 12 (.function ⟨0⟩) 1 [] called = .ok v m' ∧ v = .instance_ ⟨0⟩ := by
  have accepted : (Source.accept source 0).1 = .ok program := by cbv
  obtain ⟨first, given, found⟩ : execute 14 declaration begun = .ok (.next .nil) declared ∧
      evaluate 12 callee declared = .ok (.function ⟨0⟩) called ∧
      called.store.functionAt? ⟨0⟩ = some bound := by cbv
  have comes : (Session.start .unlimited fun _ => 0).ComesTo (.run 14 source) 12 called
      (.call (.function ⟨0⟩) 1 []) :=
    .run accepted (.rest first (.first (.step .expression (.step (.call given rfl) .refl))))
  obtain ⟨has, this⟩ : called.store.classAt? ⟨0⟩ =
        some ⟨"A", none, methodTable ⟨0⟩ [initializer]⟩ ∧
      called.store.binding? bound.frame Keyword.this.spelling = some (.instance_ ⟨0⟩) := by cbv
  have binds : called.store.IsBound bound (.instance_ ⟨0⟩) :=
    ⟨⟨⟨0⟩, ⟨initializer, ⟨0⟩, true⟩, ⟨_, "init", has, by cbv⟩, rfl⟩, this⟩
  have ran : call 12 (.function ⟨0⟩) 1 [] called =
      .ok (.instance_ ⟨0⟩) (finalMachine (call 12 (.function ⟨0⟩) 1 [] called)) := by cbv
  obtain ⟨-, yields⟩ := construction_yields_receiver .unlimited (fun _ => 0) [] 14 source
  obtain ⟨constructs, -⟩ := yields 12 called _ comes
  obtain ⟨-, gives⟩ := constructs.initializers ⟨0⟩ bound _ found binds
  exact ⟨comes, binds, _, _, ran, gives rfl 12 1 [] _ _ ran⟩

end Lox
