import Lox.Proofs.Evaluation.Evolution

/-!
# What tasks do themselves

Carrying a task out means to begin others and, before, between or after them, to change the machine.
`Task.Does` tells what a task changes itself, as `Task.Begins` tells what it begins. A property of machines
that these changes keep, as long as they are made by tasks of some kind that begin only tasks of this kind,
holds at every point of an evaluation.
-/

namespace Lox

open Run

/-- Within `n + 1` the task, begun on the machine `m`, itself takes the third machine to the fourth. -/
inductive Task.Does (n : Nat) (m : Machine) : Task → Machine → Machine → Prop
  | assign {name : Name} {value : Expr} {id : NodeId} {a : Value} {m₁ : Machine}
    (done : Lox.evaluate n value m = .ok a m₁) :
    Does n m (.evaluate (.assign name value id)) m₁ (finalMachine (Run.assign id name a m₁))
  | get {object : Expr} {name : Name} {a : Value} {m₁ : Machine}
    (done : Lox.evaluate n object m = .ok a m₁) :
    Does n m (.evaluate (.get object name)) m₁ (finalMachine (getProperty a name m₁))
  | set {object value : Expr} {name : Name} {i : InstanceId} {a : Value} {m₁ m₂ : Machine}
    (done : Lox.evaluate n object m = .ok (.instance_ i) m₁)
    (given : Lox.evaluate n value m₁ = .ok a m₂) :
    Does n m (.evaluate (.set object name value)) m₂ (finalMachine (setField i name a m₂))
  | super {keyword method : Name} {id : NodeId} :
    Does n m (.evaluate (.super keyword method id)) m (finalMachine (superMethod keyword method id m))
  | native {f : Native} {line : Nat} {arguments : List Value} :
    Does n m (.call (.native f) line arguments) m (finalMachine (callNative f m))
  | frame {closure : Closure} {arguments : List Value} :
    Does n m (.callClosure closure arguments) m (finalMachine (callFrame closure arguments m))
  | instance_ {c : ClassId} {arguments : List Value} :
    Does n m (.construct c arguments) m (finalMachine (onStore (·.addInstance c) m))
  | receiver {c : ClassId} {arguments : List Value} {i : InstanceId} {method : Closure} {m₁ : Machine}
    (made : onStore (·.addInstance c) m = .ok i m₁) (found : m₁.store.initializer? c = some method) :
    Does n m (.construct c arguments) m₁
      (finalMachine (onStore (·.bind method (.instance_ i)) m₁))
  | print {value : Expr} {a : Value} {m₁ : Machine} (done : Lox.evaluate n value m = .ok a m₁) :
    Does n m (.execute (.print value)) m₁ (finalMachine (Run.print a m₁))
  | var {name : Name} {initializer : Option Expr} {a : Value} {m₁ : Machine}
    (done : Lox.evaluateOptional n initializer m = .ok a m₁) :
    Does n m (.execute (.var name initializer)) m₁ (finalMachine (define m₁.current name.text a m₁))
  | block {body : List Stmt} :
    Does n m (.execute (.block body)) m (finalMachine (onStore (·.addFrame ∅ (some m.current)) m))
  | function {d : FunctionDecl} :
    Does n m (.execute (.function d)) m (finalMachine (declareFunction d m))
  | class_ {name : Name} {superclass : Option Expr} {methods : List FunctionDecl}
    {parent : Option ClassId} {m₁ : Machine}
    (done : Lox.evaluateSuperclass n superclass m = .ok parent m₁) :
    Does n m (.execute (.class_ name superclass methods)) m₁
      (finalMachine (declareClass name parent methods m₁))

/-- What the task, begun on the machine `m`, may itself do to a store. -/
inductive Task.Alters (m : Machine) (t : Task) (s : Store) : Store → Prop
  | nothing : Alters m t s s
  | addFrame (bindings : Table Value) (enclosing : Option FrameId) :
    Alters m t s (s.addFrame bindings enclosing).2
  | addInstance (c : ClassId) : Alters m t s (s.addInstance c).2
  | setField (i : InstanceId) (name : String) (value : Value) : Alters m t s (s.setField i name value)
  | bind {c : ClassId} {name : String} {method : Closure} (found : s.findMethod c name = some method)
    (receiver : Value) : Alters m t s (s.bind method receiver).2
  | bindValue {c : ClassId} {name : String} {method : Closure}
    (found : s.findMethod c name = some method) (receiver : Value) :
    Alters m t s (s.bindValue method receiver).2
  | assign {name : Name} {e : Expr} {id : NodeId} (is : t = .evaluate (.assign name e id))
    (frame : FrameId) (value : Value) : Alters m t s (s.define frame name.text value)
  | var {name : Name} {e : Option Expr} (is : t = .execute (.var name e)) (frame : FrameId)
    (value : Value) : Alters m t s (s.define frame name.text value)
  | function {d : FunctionDecl} (is : t = .execute (.function d)) (first : s = m.store)
    (value : Value) : Alters m t s
      ((s.addFunction ⟨d, m.current, false⟩).2.define m.current d.name.text value)
  | class_ {name : Name} {e : Option Expr} {methods : List FunctionDecl}
    (is : t = .execute (.class_ name e methods)) {s' : Store}
    (opened : s' = s ∨ ∃ bindings enclosing, s' = (s.addFrame bindings enclosing).2)
    (parent : Option ClassId) (closed frame : FrameId) (value : Value) : Alters m t s
      ((s'.addClass ⟨name.text, parent, methodTable closed methods⟩).2.define frame name.text value)

/-- What a task does itself it does to the store in one of these ways, if it does anything to it. -/
theorem Task.Does.alters {n : Nat} {m m₁ m₂ : Machine} {t : Task} (does : t.Does n m m₁ m₂) :
    t.Alters m m₁.store m₂.store := by
  cases does with
  | @assign name value id a done =>
    unfold Run.assign
    cases found : m₁.target id name.text with
    | error cause =>
      rw [bind_of_error (read_of_error found _)]
      exact .nothing
    | ok frame =>
      rw [bind_of_ok (read_of_ok found _)]
      exact .assign rfl frame a
  | @get object name a done =>
    cases a with
    | instance_ i =>
      change Alters _ _ _ (finalMachine ((Run.read _ (·.store.property i name.text) >>= _) m₁)).store
      cases found : m₁.store.property i name.text with
      | error cause =>
        rw [bind_of_error (read_of_error found _)]
        exact .nothing
      | ok property =>
        rw [bind_of_ok (read_of_ok found _)]
        cases property with
        | field value => exact .nothing
        | method closure =>
          obtain ⟨object, -, method⟩ := Store.findMethod_of_property found
          exact .bindValue method _
    | _ => exact .nothing
  | set => exact .setField _ _ _
  | @super keyword method id =>
    unfold superMethod
    cases found : m.lookUpSuper id with
    | error cause =>
      rw [bind_of_error (read_of_error found _)]
      exact .nothing
    | ok pair =>
      obtain ⟨parent, receiver⟩ := pair
      rw [bind_of_ok (read_of_ok found _)]
      change Alters _ _ _ (finalMachine ((ask (·.store.findMethod parent method.text) >>= _) m)).store
      cases has : m.store.findMethod parent method.text with
      | none =>
        rw [bind_of_ok (ask_eq has)]
        exact .nothing
      | some closure =>
        rw [bind_of_ok (ask_eq has)]
        exact .bindValue has _
  | @native f =>
    cases f
    exact .nothing
  | frame => exact .addFrame _ _
  | instance_ => exact .addInstance _
  | receiver _ found => exact .bind found _
  | print =>
    unfold Run.print
    dsimp only
    split <;> exact .nothing
  | var => exact .var rfl _ _
  | block => exact .addFrame _ _
  | function => exact .function rfl rfl _
  | @class_ _ _ _ parent _ done =>
    cases parent with
    | none => exact .class_ rfl (.inl rfl) _ _ _ _
    | some c => exact .class_ rfl (.inr ⟨_, _, rfl⟩) _ _ _ _

/-- Good tasks begin only good ones, and what they do themselves keeps the property of machines. -/
structure Maintains (J : Machine → Prop) (Good : Machine → Task → Prop) : Prop where
  elsewhere : ∀ {m m' : Machine}, m.Elsewhere m' → J m → J m'
  begins : ∀ {n : Nat} {m m' : Machine} {t t' : Task}, Good m t → Task.Begins n m t m' t' → J m' →
    Good m' t'
  does : ∀ {n : Nat} {m m₁ m₂ : Machine} {t : Task}, Good m t → t.Does n m m₁ m₂ → J m₁ → J m₂

namespace Maintains

variable {α β : Type} {J : Machine → Prop} {Good : Machine → Task → Prop} {n : Nat} {m m' : Machine}
  {t t' : Task}

/-- A property of stores is kept if all that good tasks may do to a store keeps it. -/
theorem of_store {K : Store → Prop}
    (begins : ∀ {n : Nat} {m m' : Machine} {t t' : Task}, Good m t → Task.Begins n m t m' t' →
      K m'.store → Good m' t')
    (alters : ∀ {m : Machine} {t : Task} {s s' : Store}, Good m t → t.Alters m s s' → K s → K s') :
    Maintains (fun m => K m.store) Good where
  elsewhere := by
    rintro m _ ⟨_, _, rfl⟩ held
    exact held
  begins := begins
  does good does held := alters good does.alters held

/-! ### Runs in sequence -/

private theorem of_bind {x : Run α} {f : α → Run β} (first : J (finalMachine (x m)))
    (next : ∀ a m₁, x m = .ok a m₁ → J m₁ → J (finalMachine (f a m₁))) :
    J (finalMachine ((x >>= f) m)) := by
  cases ran : x m with
  | ok a m₁ =>
    rw [ran] at first
    rw [bind_of_ok ran]
    exact next a m₁ ran first
  | error halt m₁ =>
    rw [ran] at first
    rw [bind_of_error ran]
    exact first

/-- A value follows without any change. -/
private theorem of_pure {x : Run α} (first : J (finalMachine (x m))) (f : α → β) :
    J (finalMachine ((x >>= fun a => pure (f a)) m)) :=
  of_bind first fun _ _ _ held => held

private theorem of_ofExcept (held : J m) (line : Nat) (result : Except Fault α) :
    J (finalMachine (ofExcept line result m)) := by
  cases result <;> exact held

private theorem of_checkArity {f : Unit → Run β} {expected given line : Nat} (held : J m)
    (next : expected = given → J (finalMachine (f () m))) :
    J (finalMachine ((checkArity expected given line >>= f) m)) := by
  unfold checkArity
  split
  · rename_i same
    exact next same
  · exact held

private theorem of_inFrame (keeps : Maintains J Good) {frame : FrameId} {body : Run α}
    (inside : J (finalMachine (body { m with current := frame }))) :
    J (finalMachine (inFrame frame body m)) :=
  keeps.elsewhere (inFrame_elsewhere frame body) inside

private theorem of_nested (keeps : Maintains J Good) {line : Nat} {body : Run α} (held : J m)
    (inside : m.callDepth < maxCallDepth →
      J (finalMachine (body { m with callDepth := m.callDepth + 1 }))) :
    J (finalMachine (nested line body m)) := by
  by_cases shallow : m.callDepth < maxCallDepth
  · exact keeps.elsewhere (nested_elsewhere line body shallow) (inside shallow)
  · rw [nested_eq_fault shallow]
    exact held

/-! ### One step -/

section

variable (keeps : Maintains J Good) (ih : ∀ {m t}, Good m t → J m → J (finalMachine (t.perform n m)))

include keeps ih

/-- The property holds where a task that is begun ends, if it holds where this task begins. -/
private theorem part (good : Good m t) (begins : Task.Begins n m t m' t') (held : J m') :
    J (finalMachine (t'.perform n m')) :=
  ih (keeps.begins good begins held) held

private theorem part_of_ok (good : Good m t) (begins : Task.Begins n m t m' t') (held : J m')
    {a : t'.Result} {m₁ : Machine} (done : t'.perform n m' = .ok a m₁) : J m₁ := by
  have kept := part keeps ih good begins held
  rwa [done] at kept

/-- The property holds where a task is begun. -/
private theorem begun (good : Good m t) (held : J m) (begins : Task.Begins n m t m' t') : J m' := by
  have part_of_ok {t₁ : Task} {a : t₁.Result} {m₁ m₂ : Machine} (begins : Task.Begins n m t m₁ t₁)
      (held : J m₁) (done : t₁.perform n m₁ = .ok a m₂) : J m₂ :=
    part_of_ok keeps ih good begins held done
  cases begins with
  | grouping | operand | binaryLeft | logicalLeft | assigned | callee | getObject | setObject | first
  | expression | print | var | condition | loop | returned | superclass | value | parent | test
  | statement => exact held
  | binaryRight done => exact part_of_ok .binaryLeft held done
  | logicalRight done _ => exact part_of_ok .logicalLeft held done
  | arguments done => exact part_of_ok .callee held done
  | call done given => exact part_of_ok (.arguments done) (part_of_ok .callee held done) given
  | setValue done => exact part_of_ok .setObject held done
  | others done => exact part_of_ok .first held done
  | function | class_ => exact keeps.elsewhere ⟨m.current, m.callDepth + 1, rfl⟩ held
  | body opened =>
    have kept := keeps.does good .frame held (n := n)
    rw [opened] at kept
    exact keeps.elsewhere ⟨_, _, rfl⟩ kept
  | initializer made found bound =>
    have kept := keeps.does good .instance_ held (n := n)
    rw [made] at kept
    have kept' := keeps.does good (.receiver made found) kept (n := n)
    rwa [bound] at kept'
  | block opened =>
    have kept := keeps.does good .block held (n := n)
    rw [opened] at kept
    exact keeps.elsewhere ⟨_, _, rfl⟩ kept
  | thenBranch done _ | elseBranch done _ => exact part_of_ok .condition held done
  | turn done _ => exact part_of_ok .test held done
  | again done holds ran => exact part_of_ok (.turn done holds) (part_of_ok .test held done) ran
  | following done => exact part_of_ok .statement held done

/-! A task goes on where one that it has begun ends: the property holds there, and so it does in the end. -/

private theorem after_expression {e : Expr} (good : Good m (.evaluate e))
    (begins : Task.Begins n m (.evaluate e) m' t') (held : J (finalMachine (t'.perform n m'))) :
    J (finalMachine (evaluate (n + 1) e m)) := by
  have part {t' : Task} {m' : Machine} (begins : Task.Begins n m (.evaluate e) m' t') (held : J m') :=
    part keeps ih good begins held
  cases begins with
  | grouping => exact held
  | operand => exact of_bind held fun a _ _ held => of_ofExcept held _ _
  | binaryLeft =>
    refine of_bind held fun a m₁ done held => ?_
    exact of_bind (part (.binaryRight done) held) fun b _ _ held => of_ofExcept held _ _
  | binaryRight done =>
    rw [evaluate, bind_of_ok done]
    exact of_bind held fun b _ _ held => of_ofExcept held _ _
  | logicalLeft =>
    refine of_bind held fun a m₁ done held => ?_
    split
    · exact held
    · rename_i undecided
      exact part (.logicalRight done undecided) held
  | logicalRight done undecided =>
    rwa [evaluate, bind_of_ok done, if_neg undecided]
  | assigned =>
    refine of_bind held fun a m₁ done held => ?_
    exact of_pure (keeps.does good (.assign done) held) fun _ => a
  | callee =>
    refine of_bind held fun a m₁ done held => ?_
    exact of_bind (part (.arguments done) held) fun values m₂ given held => part (.call done given) held
  | arguments done =>
    rw [evaluate, bind_of_ok done]
    exact of_bind held fun values m₂ given held => part (.call done given) held
  | call done given => rwa [evaluate, bind_of_ok done, bind_of_ok given]
  | getObject => exact of_bind held fun a m₁ done held => keeps.does good (.get done) held
  | setObject =>
    refine of_bind held fun a m₁ done held => ?_
    cases a with
    | instance_ i =>
      refine of_bind (part (.setValue done) held) fun b m₂ given held => ?_
      exact of_pure (keeps.does good (.set done given) held) fun _ => b
    | _ => exact held
  | setValue done =>
    rw [evaluate, bind_of_ok done]
    refine of_bind held fun b m₂ given held => ?_
    exact of_pure (keeps.does good (.set done given) held) fun _ => b

private theorem after_statement {s : Stmt} (good : Good m (.execute s))
    (begins : Task.Begins n m (.execute s) m' t') (held : J (finalMachine (t'.perform n m'))) :
    J (finalMachine (execute (n + 1) s m)) := by
  cases begins with
  | expression => exact of_pure held Flow.next
  | print =>
    refine of_bind held fun a m₁ done held => ?_
    exact of_pure (keeps.does good (.print done) held) fun _ => Flow.next .nil
  | var =>
    refine of_bind held fun a m₁ done held => ?_
    exact of_pure (keeps.does good (.var done) held) fun _ => Flow.next .nil
  | block opened =>
    cases opened
    exact of_inFrame keeps held
  | @condition _ _ elseBranch =>
    refine of_bind held fun a m₁ done held => ?_
    split
    · rename_i holds
      exact part keeps ih good (.thenBranch done holds) held
    · rename_i fails
      cases elseBranch with
      | some s => exact part keeps ih good (.elseBranch done fails) held
      | none => exact held
  | thenBranch done holds =>
    change J (finalMachine ((evaluate n _ >>= _) m))
    rwa [bind_of_ok done, if_pos holds]
  | elseBranch done fails =>
    change J (finalMachine ((evaluate n _ >>= _) m))
    rwa [bind_of_ok done, if_neg fails]
  | loop => exact held
  | returned => exact of_pure held Flow.return
  | superclass =>
    refine of_bind held fun parent m₁ done held => ?_
    exact of_pure (keeps.does good (.class_ done) held) fun _ => Flow.next .nil

omit ih in
private theorem after_call {callee : Value} {line : Nat} {arguments : List Value}
    (begins : Task.Begins n m (.call callee line arguments) m' t')
    (held : J (finalMachine (t'.perform n m'))) :
    J (finalMachine (call (n + 1) callee line arguments m)) := by
  cases begins with
  | function found arity shallow =>
    rw [call_function_eq found arity]
    exact keeps.elsewhere (nested_elsewhere line _ shallow) held
  | class_ arity shallow =>
    rw [call_class_eq arity]
    exact keeps.elsewhere (nested_elsewhere line _ shallow) held

private theorem after_loop {condition : Expr} {body : Stmt} (good : Good m (.executeWhile condition body))
    (begins : Task.Begins n m (.executeWhile condition body) m' t')
    (held : J (finalMachine (t'.perform n m'))) :
    J (finalMachine (executeWhile (n + 1) condition body m)) := by
  have part {t' : Task} {m' : Machine} (begins : Task.Begins n m (.executeWhile condition body) m' t')
      (held : J m') := part keeps ih good begins held
  cases begins with
  | test =>
    refine of_bind held fun a m₁ done held => ?_
    split
    · rename_i holds
      refine of_bind (part (.turn done holds) held) fun flow m₂ ran held => ?_
      cases flow with
      | «return» value => exact held
      | next value => exact part (.again done holds ran) held
    · exact held
  | turn done holds =>
    change J (finalMachine ((evaluate n condition >>= _) m))
    rw [bind_of_ok done, if_pos holds]
    refine of_bind held fun flow m₂ ran held => ?_
    cases flow with
    | «return» value => exact held
    | next value => exact part (.again done holds ran) held
  | again done holds ran =>
    change J (finalMachine ((evaluate n condition >>= _) m))
    rwa [bind_of_ok done, if_pos holds, bind_of_ok ran]

private theorem after (good : Good m t) (begins : Task.Begins n m t m' t')
    (held : J (finalMachine (t'.perform n m'))) : J (finalMachine (t.perform (n + 1) m)) := by
  cases t with
  | evaluate e => exact after_expression keeps ih good begins held
  | execute s => exact after_statement keeps ih good begins held
  | call callee line arguments => exact after_call keeps begins held
  | executeWhile condition body => exact after_loop keeps ih good begins held
  | evaluateAll expressions =>
    cases begins with
    | first =>
      refine of_bind held fun a m₁ done held => ?_
      exact of_pure (part keeps ih good (.others done) held) fun values => a :: values
    | @others _ _ _ a done =>
      change J (finalMachine ((evaluate n _ >>= _) m))
      rw [bind_of_ok done]
      exact of_pure held fun values => a :: values
  | callClosure closure arguments =>
    cases begins with
    | body opened =>
      change J (finalMachine ((callFrame closure arguments >>= _) m))
      rw [bind_of_ok opened]
      refine of_bind (of_inFrame keeps held) fun flow m₂ _ held => ?_
      unfold callResult
      split
      · exact of_ofExcept held _ _
      · cases flow <;> exact held
  | construct c arguments =>
    cases begins with
    | initializer made found bound =>
      change J (finalMachine ((onStore _ >>= _) m))
      rw [bind_of_ok made, bind_of_ok (ask_eq found)]
      change J (finalMachine ((onStore _ >>= _) _))
      rw [bind_of_ok bound]
      exact of_pure held fun _ => Value.instance_ _
  | evaluateOptional e =>
    cases begins with
    | value => exact held
  | evaluateSuperclass e =>
    cases begins with
    | parent =>
      refine of_bind held fun a m₁ _ held => ?_
      cases a <;> exact held
  | executeAll body =>
    cases begins with
    | statement =>
      refine of_bind held fun flow m₁ done held => ?_
      cases flow with
      | «return» value => exact held
      | next value => exact part keeps ih good (.following done) held
    | following done =>
      change J (finalMachine ((execute n _ >>= _) m))
      rwa [bind_of_ok done]

/-! What a task begins first, if anything, it begins where it stands or after what it does itself. -/

private theorem evaluate_succ {e : Expr} (good : Good m (.evaluate e)) (held : J m) :
    J (finalMachine (evaluate (n + 1) e m)) := by
  have first {t' : Task} (begins : Task.Begins n m (.evaluate e) m t') :
      J (finalMachine (evaluate (n + 1) e m)) :=
    after_expression keeps ih good begins (part keeps ih good begins held)
  cases e with
  | literal value => exact held
  | grouping inner => exact first .grouping
  | unary operator right => exact first .operand
  | binary left operator right => exact first .binaryLeft
  | logical left operator right => exact first .logicalLeft
  | «variable» name id => exact of_ofExcept held _ _
  | assign name value id => exact first .assigned
  | call callee line arguments => exact first .callee
  | get object name => exact first .getObject
  | set object name value => exact first .setObject
  | this keyword id => exact of_ofExcept held _ _
  | super keyword method id => exact keeps.does good .super held (n := n)

private theorem execute_succ {s : Stmt} (good : Good m (.execute s)) (held : J m) :
    J (finalMachine (execute (n + 1) s m)) := by
  have first {m' : Machine} {t' : Task} (begins : Task.Begins n m (.execute s) m' t') :
      J (finalMachine (execute (n + 1) s m)) :=
    after_statement keeps ih good begins
      (part keeps ih good begins (begun keeps ih good held begins))
  cases s with
  | expression value => exact first .expression
  | print value => exact first .print
  | var name initializer => exact first .var
  | block body => exact first (.block rfl)
  | ifElse condition thenBranch elseBranch => exact first .condition
  | «while» condition body => exact first .loop
  | function d => exact of_pure (keeps.does good .function held (n := n)) fun _ => Flow.next .nil
  | «return» line value => exact first .returned
  | class_ name superclass methods => exact first .superclass

private theorem call_succ {callee : Value} {line : Nat} {arguments : List Value}
    (good : Good m (.call callee line arguments)) (held : J m) :
    J (finalMachine (call (n + 1) callee line arguments m)) := by
  have part {t' : Task} {m' : Machine} (begins : Task.Begins n m (.call callee line arguments) m' t') :=
    part keeps ih good begins (begun keeps ih good held begins)
  cases callee with
  | native f => exact of_checkArity held fun _ => keeps.does good .native held (n := n)
  | function f =>
    rw [call]
    cases found : m.store.functionAt? f with
    | none =>
      rw [bind_of_ok (ask_eq found)]
      exact held
    | some closure =>
      rw [bind_of_ok (ask_eq found)]
      exact of_checkArity held fun arity =>
        of_nested keeps held fun shallow => part (.function found arity shallow)
  | class_ c =>
    rw [call, bind_of_ok (ask_eq rfl)]
    exact of_checkArity held fun arity =>
      of_nested keeps held fun shallow => part (.class_ arity shallow)
  | nil | bool _ | number _ | string _ | instance_ _ => exact held

private theorem construct_succ {c : ClassId} {arguments : List Value}
    (good : Good m (.construct c arguments)) (held : J m) :
    J (finalMachine (construct (n + 1) c arguments m)) := by
  refine of_bind (keeps.does good .instance_ held (n := n)) fun i m₁ made held₁ => ?_
  cases found : m₁.store.initializer? c with
  | none =>
    rw [bind_of_ok (ask_eq found)]
    exact held₁
  | some method =>
    rw [bind_of_ok (ask_eq found)]
    refine of_bind (keeps.does good (.receiver made found) held₁ (n := n)) fun closure m₂ bound held₂ => ?_
    exact of_pure (part keeps ih good (.initializer made found bound) held₂) fun _ => Value.instance_ i

private theorem perform_succ (good : Good m t) (held : J m) :
    J (finalMachine (t.perform (n + 1) m)) := by
  have first {m' : Machine} {t' : Task} (begins : Task.Begins n m t m' t') :
      J (finalMachine (t.perform (n + 1) m)) :=
    after keeps ih good begins (part keeps ih good begins (begun keeps ih good held begins))
  cases t with
  | evaluate e => exact evaluate_succ keeps ih good held
  | execute s => exact execute_succ keeps ih good held
  | call callee line arguments => exact call_succ keeps ih good held
  | construct c arguments => exact construct_succ keeps ih good held
  | callClosure closure arguments => exact first (.body rfl)
  | executeWhile condition body => exact first .test
  | evaluateAll expressions =>
    cases expressions with
    | nil => exact held
    | cons e rest => exact first .first
  | evaluateOptional e =>
    cases e with
    | none => exact held
    | some e => exact first .value
  | evaluateSuperclass e =>
    cases e with
    | none => exact held
    | some e => exact first .parent
  | executeAll body =>
    cases body with
    | nil => exact held
    | cons s rest => exact first .statement

end

/-! ### Every task -/

section

variable (keeps : Maintains J Good)

include keeps

/-- The property holds where a good task ends, however it ends, by induction on the bound. -/
theorem task (good : Good m t) (held : J m) : J (finalMachine (t.perform n m)) := by
  induction n generalizing m t with
  | zero =>
    rw [t.perform_zero]
    exact held
  | succ n ih => exact perform_succ keeps ih good held

theorem task_of_ok (good : Good m t) (held : J m) {a : t.Result} (done : t.perform n m = .ok a m') :
    J m' := by
  have kept := keeps.task good held (n := n)
  rwa [done] at kept

/-- All tasks that a good one comes to are good, and begin where the property holds. -/
theorem reaches {k : Nat} (reaches : Task.Reaches n m t k m' t') (good : Good m t) (held : J m) :
    Good m' t' ∧ J m' := by
  induction reaches with
  | refl => exact ⟨good, held⟩
  | step begins _ ih =>
    have held' := begun keeps keeps.task good held begins
    exact ih (keeps.begins good begins held') held'

/-- If goodness does not hang on the property, the property holds where a good task ends as soon as it holds
where one that it comes to ends. -/
theorem after_of_reaches
    (closed : ∀ {n m m' t t'}, Good m t → Task.Begins n m t m' t' → Good m' t') {k : Nat}
    (reaches : Task.Reaches n m t k m' t') (good : Good m t)
    (held : J (finalMachine (t'.perform k m'))) : J (finalMachine (t.perform n m)) := by
  induction reaches with
  | refl => exact held
  | step begins _ ih => exact after keeps keeps.task good begins (ih (closed good begins) held)

end

/-! ### Programs -/

section

variable (keeps : Maintains J Good) {P : Machine → List Stmt → Prop} {fuel : Nat} {statements : List Stmt}
  (first : ∀ {m s rest}, P m (s :: rest) → Good m (.execute s))
  (next : ∀ {m s rest flow m'}, P m (s :: rest) → execute fuel s m = .ok flow m' → P m' rest)

include keeps first next

/-- All tasks that a program comes to are good if its statements are, in order, where they begin. -/
theorem programReaches {k : Nat} (reaches : ProgramReaches fuel m statements k m' t)
    (top : P m statements) (held : J m) : Good m' t ∧ J m' := by
  induction reaches with
  | first reaches => exact keeps.reaches reaches (first top) held
  | rest done _ ih => exact ih (next top done) (keeps.task_of_ok (t := .execute _) (first top) held done)

/-- The property holds where the program ends, however it ends, by induction on its statements. -/
theorem runFrom {last : Value} (top : P m statements) (held : J m) :
    J (finalMachine (runFrom fuel last statements m)) := by
  induction statements generalizing m last with
  | nil => exact held
  | cons s rest ih =>
    have kept := keeps.task (t := .execute s) (first top) held (n := fuel)
    exact of_bind kept fun flow m' done held' => ih (next top done) held'

/-- If goodness does not hang on the property, the property holds where the statements end as soon as it
holds where a task that they come to ends. -/
theorem after_of_programReaches
    (closed : ∀ {n m m' t t'}, Good m t → Task.Begins n m t m' t' → Good m' t') {k : Nat}
    (reaches : ProgramReaches fuel m statements k m' t) (top : P m statements) (last : Value)
    (held : J (finalMachine (t.perform k m'))) : J (finalMachine (Lox.runFrom fuel last statements m)) := by
  induction reaches generalizing last with
  | first reaches =>
    have kept := keeps.after_of_reaches closed reaches (first top) held
    exact of_bind kept fun flow m' done held' => keeps.runFrom first next (next top done) held'
  | rest done _ ih =>
    rw [Lox.runFrom, bind_of_ok done]
    exact ih (next top done) _ held

omit keeps first next in
/-- Flushing the sink does no harm. -/
theorem of_runFrom (held : J (finalMachine (Lox.runFrom fuel .nil statements m))) :
    J (finalMachine (Lox.runProgram fuel statements m)) := by
  refine of_bind held fun last m' _ held' => ?_
  refine of_pure ?_ fun _ => last
  unfold flush
  split <;> exact held'

end

end Maintains

end Lox
