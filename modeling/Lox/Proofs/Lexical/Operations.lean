import Lox.Proofs.Lexical.Objects

/-!
# Declarations, properties and calls on both machines

The steps of an evaluation that take more than one change of the machine. A function is bound to its
name only after it has been made, and a class after its methods have; for the functions to be callable
when they are made, the name is taken to be bound first, which makes no difference to the outcome.
-/

namespace Lox.Lexical

section

variable {L : List Lookup} {g : FrameId} {near : Option FrameId} {cells cells' : List Slot}
  {m : Machine} {μ : State} {Γ : Scopes} {ρ : Env} {f : FrameId} {α β : Type}

/-! ### Frames, depth, output and time -/

theorem Sited.inFrame (sited : Sited L g f Γ ρ cells m μ) :
    Sited L g f Γ ρ cells { m with current := f } μ :=
  ⟨{ sited.agree with globals := sited.agree.globals }, sited.placed, sited.own⟩

/-- Running in another frame changes nothing else. -/
theorem Matches.inFrame {frame : FrameId} {x : Lox.Run α} {y : Run α}
    (body : Matches L g near cells { m with current := frame } Equal
      (x { m with current := frame }) (y μ)) :
    Matches L g near cells m Equal (Lox.Run.inFrame frame x m) (y μ) := by
  rw [Lox.Run.inFrame]
  rcases body.cases with ⟨a, m', b, μ', cells', left, right, later, agree, same⟩ |
    ⟨halt, m', μ', cells', left, right, possible, later, agree⟩
  · rw [left, right]
    exact ⟨cells', { later with current := rfl }, { agree with globals := agree.globals }, same⟩
  · rw [left, right]
    exact ⟨⟨rfl, possible⟩, cells', { later with current := rfl },
      { agree with globals := agree.globals }⟩

/-- Both machines count the calls in progress alike. -/
theorem Matches.nested (agree : Agree L g cells m μ) (line : Nat) {x : Lox.Run α} {y : Run α}
    (body : ∀ m' μ', m'.store = m.store → Agree L g cells m' μ' →
      Matches L g near cells m' Equal (x m') (y μ')) :
    Matches L g near cells m Equal (Lox.Run.nested line x m) (Run.nested line y μ) := by
  rw [Lox.Run.nested, Run.nested, agree.callDepth]
  split
  · exact matches_fault agree id line
  · have inner := body { m with callDepth := m.callDepth + 1 }
      { μ with callDepth := m.callDepth + 1 } rfl { agree with callDepth := rfl }
    rcases inner.cases with ⟨a, m', b, μ', cells', left, right, later, agree', same⟩ |
      ⟨halt, m', μ', cells', left, right, possible, later, agree'⟩
    · rw [left, right]
      exact ⟨cells', { later with current := later.current },
        { agree' with callDepth := congrArg (· - 1) agree'.callDepth }, same⟩
    · rw [left, right]
      exact ⟨⟨rfl, possible⟩, cells', { later with current := later.current },
        { agree' with callDepth := congrArg (· - 1) agree'.callDepth }⟩

theorem matches_print (agree : Agree L g cells m μ) (value : Value) :
    Matches L g near cells m Equal (Lox.Run.print value m) (Run.print value μ) := by
  rw [Lox.Run.print, Run.print, agree.text, agree.sink]
  rcases m.sink.write (m.store.text value ++ "\n").toUTF8 with ⟨_ | e, sink⟩
  · exact ⟨cells, .of_frames_eq near cells rfl rfl, { agree with sink := rfl }, rfl⟩
  · exact ⟨⟨rfl, id⟩, cells, .of_frames_eq near cells rfl rfl, { agree with sink := rfl }⟩

theorem matches_flush (agree : Agree L g cells m μ) :
    Matches L g near cells m Equal (Lox.Run.flush m) (Run.flush μ) := by
  rw [Lox.Run.flush, Run.flush, agree.sink]
  cases m.sink.flush
  · exact ⟨cells, .refl near cells m, agree, rfl⟩
  · exact ⟨⟨rfl, id⟩, cells, .refl near cells m, agree⟩

theorem matches_callNative (agree : Agree L g cells m μ) (native : Native) :
    Matches L g near cells m Equal (Lox.Run.callNative native m) (Run.callNative native μ) := by
  cases native with
  | clock =>
    -- both machines have read the clock as often, so they read the same time
    have time : Matches L g near cells m Equal (Lox.Run.readClock m) (Run.readClock μ) := by
      rw [Lox.Run.readClock, Run.readClock, agree.clock, agree.readings]
      exact ⟨cells, .of_frames_eq near cells rfl rfl, { agree with clock := rfl, readings := rfl },
        rfl⟩
    refine time.bind fun _ agree same => matches_pure agree ?_
    rw [Equal, same]

theorem matches_checkArity (agree : Agree L g cells m μ) (expected given line : Nat) :
    Matches L g near cells m (fun _ m' _ _ _ => m' = m ∧ expected = given)
      (Lox.Run.checkArity expected given line m) (Run.checkArity expected given line μ) := by
  rw [Lox.Run.checkArity, Run.checkArity]
  split
  · rename_i same
    exact matches_pure agree ⟨rfl, same⟩
  · exact matches_fault agree id line

/-! ### Methods and properties -/

/-- A method that is bound to an instance can be called. -/
theorem matches_bindMethod (agree : Agree L g cells m μ) {method : Lox.Closure}
    {method' : Closure} (both : MethodsAgree L g cells m.store method method') (i : InstanceId) :
    Matches L g none cells m
      (fun cells' m' _ closure closure' => FunctionsAgree L g cells' m'.store closure closure' ∧
        closure.declaration = method.declaration)
      (Lox.Run.onStore (·.bind method (.instance_ i)) m)
      (Run.bindMethod method' (.instance_ i) μ) := by
  obtain ⟨Γ, captures, code⟩ := both
  have fits : ∀ p ∈ [(Keyword.this.spelling, Value.instance_ i)], Fits p.1 p.2 := by
    intro p member
    rw [List.mem_singleton.mp member]
    have other : Keyword.this.spelling ≠ Keyword.super.spelling := by decide
    exact ⟨fun _ => ⟨i, rfl⟩, fun same => absurd same other⟩
  -- the method bound to the instance closes over a new frame with `this` alone
  have opened := matches_openScope agree captures.placed _ (by simp) fits
  have bound : Lox.Run.onStore (·.bind method (.instance_ i)) m =
      (do let frame ← Lox.Run.onStore (·.addFrame
            (Table.insertAll ∅ [(Keyword.this.spelling, .instance_ i)]) (some method.frame))
          pure { method with frame } : Lox.Run Lox.Closure) m := rfl
  rw [bound]
  refine opened.bind fun later agree' made => matches_pure agree' ⟨?_, rfl⟩
  obtain ⟨rfl, _, sited⟩ := made
  exact ⟨_, ⟨captures.declaration, captures.isInitializer, sited.placed⟩, code,
    fun _ => ⟨Γ, rfl⟩⟩

theorem matches_bindValue (agree : Agree L g cells m μ) {method : Lox.Closure}
    {method' : Closure} (both : MethodsAgree L g cells m.store method method') (i : InstanceId) :
    Matches L g none cells m Equal (Lox.Run.onStore (·.bindValue method (.instance_ i)) m)
      (Run.bindValue method' (.instance_ i) μ) := by
  have bound : Lox.Run.onStore (·.bindValue method (.instance_ i)) m =
      (do let closure ← Lox.Run.onStore (·.bind method (.instance_ i))
          let f ← Lox.Run.onStore (·.addFunction closure)
          pure (.function f) : Lox.Run Value) m := rfl
  rw [bound]
  refine (matches_bindMethod agree both i).bind fun _ agree' both' => ?_
  refine (matches_addFunction agree' both'.1).bind fun _ agree'' same => ?_
  exact matches_pure agree'' (by rw [Equal, same])

theorem matches_getProperty (agree : Agree L g cells m μ) (object : Value) (name : Name) :
    Matches L g none cells m Equal (Lox.Run.getProperty object name m)
      (Run.getProperty object name μ) := by
  cases object with
  | instance_ i =>
    refine (matches_read (P := fun cells' m' μ' => PropertiesAgree L g cells' m'.store) agree
      name.line (agree.property i name.text) fun _ _ both => both).bind fun _ agree' both => ?_
    cases both with
    | field value => exact matches_pure agree' rfl
    | method both => exact matches_bindValue agree' both i
  | _ => exact matches_fault agree id name.line

theorem matches_superMethod {keyword method : Name} {id : NodeId} {d : Nat}
    (sited : Sited L g m.current Γ ρ cells m μ) (this : Γ.Holds Keyword.this.spelling d)
    (super : Γ.Holds Keyword.super.spelling (d + 1))
    (found : ⟨id, Keyword.super.spelling, some (d + 1)⟩ ∈ L) :
    Matches L g none cells m Equal (Lox.Run.superMethod keyword method id m)
      (Run.superMethod ρ keyword method μ) := by
  obtain ⟨parent, i, left, right⟩ := sited.lookUpSuper this super found
  have read : LookUpsAgree (fun a b => b = a ∧ ∃ i, a.2 = .instance_ i) (m.lookUpSuper id)
      (μ.lookUpSuper ρ) := by
    rw [left, right]
    exact ⟨rfl, i, rfl⟩
  refine (matches_read (P := fun _ _ _ a b => b = a ∧ ∃ i, a.2 = .instance_ i) sited.agree
    keyword.line read fun _ _ both => both).bind fun {_ m' _ a _} _ agree both => ?_
  obtain ⟨parent, receiver⟩ := a
  obtain ⟨rfl, i, rfl⟩ := both
  -- both machines look the method up from the superclass on
  change Matches L g none _ _ Equal
    (EStateM.bind (Lox.Run.ask (·.store.findMethod parent method.text)) _ _)
    (EStateM.bind (Run.ask (·.findMethod parent method.text)) _ _)
  simp only [EStateM.bind, Lox.Run.ask, Run.ask]
  rcases optionRel_cases (agree.findMethod parent method.text) with
    ⟨left, right⟩ | ⟨_, _, left, right, both⟩
  · simp only [left, right]
    have possible : ¬ (Fault.undefinedProperty method.text).RuledOut := fun ruledOut => ruledOut
    exact matches_fault agree possible method.line
  · simp only [left, right]
    exact matches_bindValue agree both i

/-! ### Calls -/

/-- The innermost frame of an initializer binds `this` to an instance. -/
theorem FunctionsAgree.receiver (agree : Agree L g cells m μ) {closure : Lox.Closure}
    {closure' : Closure} (both : FunctionsAgree L g cells m.store closure closure')
    (initializer : closure.isInitializer) :
    ∃ i, m.store.getAt closure.frame 0 Keyword.this.spelling = .ok (.instance_ i) ∧
      μ.lookUp closure'.env Keyword.this.spelling = .ok (.instance_ i) := by
  obtain ⟨Γ, captures, _, receiver⟩ := both
  obtain ⟨outer, rfl⟩ := receiver initializer
  obtain ⟨frame, value, reached, bound, same, fits⟩ :=
    captures.placed.getAt agree (Scopes.holds_of outer Keyword.this.spelling)
  obtain ⟨i, rfl⟩ := fits.1 rfl
  exact ⟨i, getAt_of_reached reached bound, same⟩

theorem matches_callResult (agree : Agree L g cells m μ) {closure : Lox.Closure}
    {closure' : Closure} (both : FunctionsAgree L g cells m.store closure closure') (flow : Flow) :
    Matches L g near cells m Equal (Lox.Run.callResult closure flow m)
      (Run.callResult closure' flow μ) := by
  have ⟨_, captures, _⟩ := both
  unfold Lox.Run.callResult Run.callResult
  rw [captures.isInitializer, captures.declaration]
  split
  · -- an initializer gives its instance, also after a `return`
    rename_i initializer
    obtain ⟨i, left, right⟩ := both.receiver agree initializer
    refine matches_read (R := fun a b => b = a) agree _ ?_ fun _ _ same => same
    rw [left, right]
    rfl
  · cases flow <;> exact matches_pure agree rfl

/-- A call opens a scope with the parameters, in which the body is well-scoped. -/
theorem matches_callFrame (agree : Agree L g cells m μ) {closure : Lox.Closure}
    {closure' : Closure} (both : FunctionsAgree L g cells m.store closure closure')
    {arguments : List Value} (arity : arguments.length = closure.declaration.parameters.length) :
    Matches L g none cells m
      (fun cells' m' μ' frame ρ' => frame = ⟨m.store.frames.size⟩ ∧
        ∃ Γ, Sited L g frame Γ ρ' cells' m' μ' ∧ statementsScoped L Γ closure.declaration.body)
      (Lox.Run.callFrame closure arguments m) (Run.callEnv closure' arguments μ) := by
  obtain ⟨Γ, captures, code, _⟩ := both
  obtain ⟨declaration, frame, isInitializer⟩ := closure
  obtain ⟨name, parameters, body⟩ := declaration
  rw [FunctionDecl.Scoped] at code
  obtain ⟨distinct, plain, statements⟩ := code
  have names : ((parameters.map (·.text)).zip arguments).map (·.1) = parameters.map (·.text) :=
    List.map_fst_zip (by simp [arity])
  have fits : ∀ p ∈ (parameters.map (·.text)).zip arguments, Fits p.1 p.2 := by
    intro p member
    -- a parameter is a plain name, which any argument can be bound to
    have parameter : p.1 ∈ parameters.map (·.text) := (List.of_mem_zip member).1
    obtain ⟨x, declared, same⟩ := List.mem_map.mp parameter
    exact .of_plain (same ▸ plain x declared) p.2
  -- as many arguments as parameters: the scope opens with all of them
  rw [← names] at distinct
  have opened := matches_openScope agree captures.placed _ distinct fits
  rw [names] at opened
  rw [Run.callEnv, captures.declaration]
  exact opened.imp fun made => ⟨made.1, _, made.2.2, statements⟩

/-! ### Declarations of functions and classes -/

theorem State.bind_addFunction (μ : State) (ρ : Env) (name : String) (value : Value)
    (closure : Closure) :
    (μ.addFunction closure).2.bind ρ name value = ((μ.bind ρ name value).addFunction closure).2 := by
  simp only [State.bind, State.addFunction]
  split <;> rfl

theorem State.bind_addClass (μ : State) (ρ : Env) (name : String) (value : Value) (cls : Class) :
    (μ.addClass cls).2.bind ρ name value = ((μ.bind ρ name value).addClass cls).2 := by
  simp only [State.bind, State.addClass]
  split <;> rfl

/-- A function is declared. Its own name counts as bound when the function is made. -/
theorem matches_declareFunction {d : FunctionDecl} (sited : Sited L g m.current Γ ρ cells m μ)
    (declarable : Γ.Declarable d.name.text) (code : d.Scoped L (Γ.mark d.name.text .defined)) :
    Matches L g (some m.current) cells m
      (fun cells' m' μ' _ ρ' =>
        Sited L g m'.current (Γ.mark d.name.text .defined) ρ' cells' m' μ')
      (Lox.Run.declareFunction d m) (Run.declareFunction ρ d μ) := by
  obtain ⟨ρ₁, μ₁, cells₁, declared, later₁, sited₁⟩ := sited.declare declarable.2
  have number := sited₁.agree.functions.size
  -- the function that is bound is the one that is added next
  obtain ⟨later₂, sited₂⟩ := sited₁.define (some m.current)
    (.of_plain declarable.1 (.function ⟨m.store.functions.size⟩))
  have both : FunctionsAgree L g cells₁ _ ⟨d, m.current, false⟩ ⟨d, ρ₁, false⟩ :=
    ⟨_, ⟨rfl, rfl, sited₂.placed⟩, code, fun initializer => by cases initializer⟩
  obtain ⟨cells₃, later₃, agree₃, _⟩ := matches_addFunction sited₂.agree both
  have right : Run.declareFunction ρ d μ = .ok ρ₁
      ((μ₁.bind ρ₁ d.name.text (.function ⟨m.store.functions.size⟩)).addFunction
        ⟨d, ρ₁, false⟩).2 := by
    change EStateM.bind (Run.declare ρ d.name.text) _ μ = _
    rw [EStateM.bind, declared, ← State.bind_addFunction, ← number]
    rfl
  rw [right]
  exact ⟨cells₃, (later₁.trans later₂).trans (later₃.weaken _), agree₃,
    sited₂.mono later₃ nofun agree₃⟩

/-- Methods that capture places in the same scopes agree name by name. -/
theorem methodTable_agree {frame : FrameId} (placed : Placed cells m.store g frame Γ ρ)
    {methods : List FunctionDecl}
    (code : methodsScoped L (Scope.of [Keyword.this.spelling] :: Γ) methods) (name : String) :
    Option.Rel (MethodsAgree L g cells m.store) ((Lox.methodTable frame methods).get? name)
      ((Run.methodTable ρ methods).get? name) := by
  rw [methodsScoped_iff] at code
  -- the tables agree after any part of the methods has been entered
  have entered (t : Table Lox.Closure) (t' : Table Closure) (rest : List FunctionDecl)
      (scoped_rest : ∀ d ∈ rest, d.Scoped L (Scope.of [Keyword.this.spelling] :: Γ))
      (before : ∀ x, Option.Rel (MethodsAgree L g cells m.store) (t.get? x) (t'.get? x)) :
      Option.Rel (MethodsAgree L g cells m.store)
        ((t.insertAll (rest.map fun d => (d.name.text, ⟨d, frame, d.isInitializer⟩))).get? name)
        ((t'.insertAll (rest.map fun d => (d.name.text, ⟨d, ρ, d.isInitializer⟩))).get? name) := by
    induction rest generalizing t t' with
    | nil => exact before name
    | cons d rest ih =>
      refine ih _ _ (fun d' member => scoped_rest d' (List.mem_cons_of_mem d member)) fun x => ?_
      rw [Table.get?_insert, Table.get?_insert]
      split
      · -- a method replaces one of the same name in both tables
        exact .some ⟨Γ, ⟨rfl, rfl, placed⟩, scoped_rest d List.mem_cons_self⟩
      · exact before x
  exact entered ∅ ∅ methods code fun _ => .none

/-- The methods of a class that is being declared capture the current place or, in a derived class, a
place inside it that binds `super`. -/
theorem matches_declareMethods (sited : Sited L g m.current Γ ρ cells m μ)
    (superclass : Option ClassId) (methods : List FunctionDecl) :
    Matches L g none cells m
      (fun cells' m' _ table table' => ∃ frame ρ', table = Lox.methodTable frame methods ∧
        table' = Run.methodTable ρ' methods ∧
        Placed cells' m'.store g frame (Γ.ofMethods superclass.isSome) ρ' ∧
        if superclass.isSome then m'.store.enclosing? frame = some m.current
        else frame = m.current)
      (Lox.Run.declareMethods superclass methods m) (Run.declareMethods ρ superclass methods μ) := by
  cases superclass with
  | none =>
    exact ⟨cells, .refl _ _ _, sited.agree, m.current, ρ, rfl, rfl, sited.placed, rfl⟩
  | some parent =>
    have fits : ∀ p ∈ [(Keyword.super.spelling, Value.class_ parent)], Fits p.1 p.2 := by
      intro p member
      rw [List.mem_singleton.mp member]
      have other : Keyword.super.spelling ≠ Keyword.this.spelling := by decide
      exact ⟨fun same => absurd same other, fun _ => ⟨parent, rfl⟩⟩
    have opened := matches_openScope sited.agree sited.placed _ (by simp) fits
    have declared : Lox.Run.declareMethods (some parent) methods m =
        (do let frame ← Lox.Run.onStore (·.addFrame
              (Table.insertAll ∅ [(Keyword.super.spelling, .class_ parent)]) (some m.current))
            pure (Lox.methodTable frame methods) : Lox.Run (Table Lox.Closure)) m := rfl
    rw [declared]
    refine opened.bind fun _ agree made => matches_pure agree ?_
    obtain ⟨_, link, inside⟩ := made
    exact ⟨_, _, rfl, rfl, inside.placed, link⟩

/-- A class is made after its methods. Its name counts as bound when that happens, so that the methods can
use it. -/
private theorem matches_makeClass {name : Name} {methods : List FunctionDecl}
    (sited : Sited L g m.current (Γ.mark name.text .declared) ρ cells m μ)
    (plain : IsPlain name.text) (superclass : Option ClassId) {frame : FrameId} {ρ' : Env}
    (placed : Placed cells m.store g frame
      ((Γ.mark name.text .declared).ofMethods superclass.isSome) ρ')
    (link : if superclass.isSome then m.store.enclosing? frame = some m.current
      else frame = m.current)
    (code : methodsScoped L (Scope.of [Keyword.this.spelling] ::
      (Γ.mark name.text .defined).ofMethods superclass.isSome) methods) :
    Matches L g (some m.current) cells m
      (fun cells' m' μ' _ ρ'' =>
        Sited L g m'.current (Γ.mark name.text .defined) ρ'' cells' m' μ')
      ((do let c ← Lox.Run.onStore
             (·.addClass ⟨name.text, superclass, Lox.methodTable frame methods⟩)
           Lox.Run.define (← Lox.Run.ask (·.current)) name.text (.class_ c) : Lox.Run Unit) m)
      ((do let c ← Run.onState (·.addClass ⟨name.text, superclass, Run.methodTable ρ' methods⟩)
           Run.define ρ name.text (.class_ c)
           pure ρ : Run Env) μ) := by
  -- as many classes on both machines, so the next one has the same number
  have number := sited.agree.classes.size
  have fits := Fits.of_plain plain (.class_ ⟨m.store.classes.size⟩)
  obtain ⟨later, sited'⟩ := sited.define (some m.current) fits
  have settled := (placed.mono later).settle_methods (f := m.current)
    (by cases superclass with
      | none => exact link
      | some parent => exact later.links link)
    (Store.binding?_define_self _ _ sited.present) fits
  have both : ClassesAgree L g cells _ ⟨name.text, superclass, Lox.methodTable frame methods⟩
      ⟨name.text, superclass, Run.methodTable ρ' methods⟩ :=
    ⟨rfl, rfl, methodTable_agree settled code⟩
  obtain ⟨cells', later', agree', _⟩ := matches_addClass sited'.agree both
  -- on the lexical machine the name can be bound before the class is added
  have right : (do let c ← Run.onState
                     (·.addClass ⟨name.text, superclass, Run.methodTable ρ' methods⟩)
                   Run.define ρ name.text (.class_ c)
                   pure ρ : Run Env) μ =
      .ok ρ ((μ.bind ρ name.text (.class_ ⟨m.store.classes.size⟩)).addClass
        ⟨name.text, superclass, Run.methodTable ρ' methods⟩).2 := by
    rw [← State.bind_addClass, ← number]
    rfl
  rw [right]
  exact ⟨cells', later.trans (later'.weaken _), agree', sited'.mono later' nofun agree'⟩

theorem matches_declareClass {name : Name} {methods : List FunctionDecl}
    (sited : Sited L g m.current Γ ρ cells m μ) (declarable : Γ.Declarable name.text)
    (superclass : Option ClassId)
    (code : methodsScoped L (Scope.of [Keyword.this.spelling] ::
      (Γ.mark name.text .defined).ofMethods superclass.isSome) methods) :
    Matches L g (some m.current) cells m
      (fun cells' m' μ' _ ρ' =>
        Sited L g m'.current (Γ.mark name.text .defined) ρ' cells' m' μ')
      (Lox.Run.declareClass name superclass methods m)
      (Run.declareClass ρ name superclass methods μ) := by
  obtain ⟨ρ₁, μ₁, cells₁, declared, later₁, sited₁⟩ := sited.declare declarable.2
  have right : Run.declareClass ρ name superclass methods μ =
      (do let table ← Run.declareMethods ρ₁ superclass methods
          let c ← Run.onState (·.addClass ⟨name.text, superclass, table⟩)
          Run.define ρ₁ name.text (.class_ c)
          pure ρ₁ : Run Env) μ₁ := by
    change EStateM.bind (Run.declare ρ name.text) _ μ = _
    rw [EStateM.bind, declared]
  rw [right]
  refine .after later₁ (fun _ same => .inl same) ?_
  refine (matches_declareMethods sited₁ superclass methods).bindApart
    fun {cells₂ m₂ μ₂ _ _} later₂ agree₂ made => ?_
  obtain ⟨frame, ρ', rfl, rfl, placed, link⟩ := made
  rw [← later₂.current] at link ⊢
  exact matches_makeClass (sited₁.later later₂ agree₂) declarable.1 superclass placed link code

end

end Lox.Lexical
