import Lox.Proofs.Lexical.Operations

/-!
# Simulation

On machines that agree, the evaluation of a well-scoped tree and its lexical evaluation come to the same
outcome, and the machines agree again. The proof is one induction on the bound of the depth, with a case
for each function of the evaluation: what a function does itself is done by operations that match, and
the functions that it calls have less of the bound.
-/

namespace Lox.Lexical

/-- Within the bound `n`, evaluations match. Expressions and calls work apart from every old frame;
statements also work in the current one. -/
structure Simulates (L : List Lookup) (g : FrameId) (n : Nat) : Prop where
  evaluate : ∀ {cells m μ Γ ρ e}, Sited L g m.current Γ ρ cells m μ → e.Scoped L Γ →
    Matches L g none cells m Equal (Lox.evaluate n e m) (evaluate n ρ e μ)
  evaluateAll : ∀ {cells m μ Γ ρ expressions}, Sited L g m.current Γ ρ cells m μ →
    expressionsScoped L Γ expressions →
    Matches L g none cells m Equal (Lox.evaluateAll n expressions m)
      (evaluateAll n ρ expressions μ)
  call : ∀ {cells m μ} callee line arguments, Agree L g cells m μ →
    Matches L g none cells m Equal (Lox.call n callee line arguments m)
      (call n callee line arguments μ)
  callClosure : ∀ {cells m μ closure closure'} {arguments : List Value}, Agree L g cells m μ →
    FunctionsAgree L g cells m.store closure closure' →
    arguments.length = closure.declaration.parameters.length →
    Matches L g none cells m Equal (Lox.callClosure n closure arguments m)
      (callClosure n closure' arguments μ)
  construct : ∀ {cells m μ c} {arguments : List Value}, Agree L g cells m μ →
    m.store.classArity c = arguments.length →
    Matches L g none cells m Equal (Lox.construct n c arguments m) (construct n c arguments μ)
  execute : ∀ {cells m μ Γ ρ s}, Sited L g m.current Γ ρ cells m μ → s.Scoped L Γ →
    Matches L g (some m.current) cells m
      (fun cells' m' μ' flow result => result.2 = flow ∧
        ∀ value, flow = .next value → Sited L g m'.current (s.after Γ) result.1 cells' m' μ')
      (Lox.execute n s m) (execute n ρ s μ)
  evaluateOptional : ∀ {cells m μ Γ ρ} {e : Option Expr}, Sited L g m.current Γ ρ cells m μ →
    (∀ x ∈ e, x.Scoped L Γ) →
    Matches L g none cells m Equal (Lox.evaluateOptional n e m) (evaluateOptional n ρ e μ)
  evaluateSuperclass : ∀ {cells m μ Γ ρ} {e : Option Expr}, Sited L g m.current Γ ρ cells m μ →
    (∀ x ∈ e, x.Scoped L Γ) →
    Matches L g none cells m (fun _ _ _ c c' => c' = c ∧ c.isSome = e.isSome)
      (Lox.evaluateSuperclass n e m) (evaluateSuperclass n ρ e μ)
  executeWhile : ∀ {cells m μ Γ ρ condition body}, Sited L g m.current Γ ρ cells m μ →
    condition.Scoped L Γ → body.Scoped L Γ → body.declared? = none →
    Matches L g (some m.current) cells m
      (fun cells' m' μ' flow flow' => flow' = flow ∧
        ∀ value, flow = .next value → Sited L g m'.current Γ ρ cells' m' μ')
      (Lox.executeWhile n condition body m) (executeWhile n ρ condition body μ)
  executeAll : ∀ {cells m μ Γ ρ body}, Sited L g m.current Γ ρ cells m μ →
    statementsScoped L Γ body →
    Matches L g (some m.current) cells m Equal (Lox.executeAll n body m) (executeAll n ρ body μ)

section

variable {L : List Lookup} {g : FrameId} {n : Nat} (ih : Simulates L g n)
  {cells : List Slot} {m : Machine} {μ : State} {Γ : Scopes} {ρ : Env}

/-! ### Expressions -/

theorem lookUpsAgree_refl {α : Type} {x : Except Fault α}
    (possible : ∀ cause, x = .error cause → ¬ cause.RuledOut) :
    LookUpsAgree (fun a b => b = a) x x := by
  cases x with
  | ok a => rfl
  | error cause => exact ⟨rfl, possible cause rfl⟩

include ih

private theorem evaluate_simulates {e : Expr} (sited : Sited L g m.current Γ ρ cells m μ)
    (code : e.Scoped L Γ) :
    Matches L g none cells m Equal (Lox.evaluate (n + 1) e m) (evaluate (n + 1) ρ e μ) := by
  cases e with
  | literal value => exact matches_pure sited.agree rfl
  | grouping inner =>
    rw [Expr.Scoped] at code
    exact ih.evaluate sited code
  | unary operator right =>
    rw [Expr.Scoped] at code
    refine (ih.evaluate sited code.2).bindEqual fun value _ agree => ?_
    have applied := lookUpsAgree_refl (x := applyPrefix operator value)
      fun _ failed => applyPrefix_possible code.1 failed
    exact matches_ofExcept agree operator.line applied fun _ _ same => same
  | binary left operator right =>
    rw [Expr.Scoped] at code
    obtain ⟨valid, codeLeft, codeRight⟩ := code
    -- the right side is evaluated where the left one has left the machines
    refine (ih.evaluate sited codeLeft).bindEqual fun a later agree => ?_
    refine (ih.evaluate (sited.later later agree) codeRight).bindEqual fun b _ agree => ?_
    have applied := lookUpsAgree_refl (x := applyBinary operator a b)
      fun _ failed => applyBinary_possible valid failed
    exact matches_ofExcept agree operator.line applied fun _ _ same => same
  | logical left operator right =>
    rw [Expr.Scoped] at code
    refine (ih.evaluate sited code.1).bindEqual fun value later agree => ?_
    split
    · exact matches_pure agree rfl
    · exact ih.evaluate (sited.later later agree) code.2
  | «variable» name id =>
    rw [Expr.Scoped] at code
    obtain ⟨plain, readable, found⟩ := code
    exact matches_read sited.agree name.line (sited.lookUp plain readable found)
      fun _ _ same => same
  | assign name value id =>
    rw [Expr.Scoped] at code
    obtain ⟨plain, code, found⟩ := code
    refine (ih.evaluate sited code).bindEqual fun value later agree => ?_
    exact (matches_assign (sited.later later agree) plain found value).bindEqual
      fun _ _ agree => matches_pure agree rfl
  | call callee line arguments =>
    rw [Expr.Scoped] at code
    refine (ih.evaluate sited code.1).bindEqual fun callee later agree => ?_
    refine (ih.evaluateAll (sited.later later agree) code.2).bindEqual fun values _ agree => ?_
    exact ih.call callee line values agree
  | get object name =>
    rw [Expr.Scoped] at code
    exact (ih.evaluate sited code).bindEqual fun object _ agree =>
      matches_getProperty agree object name
  | set object name value =>
    rw [Expr.Scoped] at code
    obtain ⟨codeValue, codeObject⟩ := code
    refine (ih.evaluate sited codeObject).bindEqual fun object later agree => ?_
    -- the value is evaluated only if there is an instance to set the field of
    cases object with
    | instance_ i =>
      refine (ih.evaluate (sited.later later agree) codeValue).bindEqual fun value _ agree => ?_
      exact (matches_setField agree i name value).bindEqual fun _ _ agree => matches_pure agree rfl
    | _ => exact matches_fault agree id name.line
  | this keyword id =>
    rw [Expr.Scoped] at code
    obtain ⟨spelt, d, held, found⟩ := code
    rw [spelt] at found
    obtain ⟨i, left, right⟩ := sited.lookUp_this held found
    refine matches_read (R := fun a b => b = a) sited.agree keyword.line ?_ fun _ _ same => same
    rw [spelt, left, right]
    rfl
  | super keyword method id =>
    rw [Expr.Scoped] at code
    obtain ⟨spelt, d, this, super, found⟩ := code
    rw [spelt] at found
    exact matches_superMethod sited this super found

private theorem evaluateAll_simulates {expressions : List Expr}
    (sited : Sited L g m.current Γ ρ cells m μ) (code : expressionsScoped L Γ expressions) :
    Matches L g none cells m Equal (Lox.evaluateAll (n + 1) expressions m)
      (evaluateAll (n + 1) ρ expressions μ) := by
  cases expressions with
  | nil => exact matches_pure sited.agree rfl
  | cons e rest =>
    rw [expressionsScoped] at code
    refine (ih.evaluate sited code.1).bindEqual fun value later agree => ?_
    exact (ih.evaluateAll (sited.later later agree) code.2).bindEqual fun values _ agree =>
      matches_pure agree rfl

private theorem evaluateOptional_simulates {e : Option Expr}
    (sited : Sited L g m.current Γ ρ cells m μ) (code : ∀ x ∈ e, x.Scoped L Γ) :
    Matches L g none cells m Equal (Lox.evaluateOptional (n + 1) e m)
      (evaluateOptional (n + 1) ρ e μ) := by
  cases e with
  | none => exact matches_pure sited.agree rfl
  | some e => exact ih.evaluate sited (code e rfl)

private theorem evaluateSuperclass_simulates {e : Option Expr}
    (sited : Sited L g m.current Γ ρ cells m μ) (code : ∀ x ∈ e, x.Scoped L Γ) :
    Matches L g none cells m (fun _ _ _ c c' => c' = c ∧ c.isSome = e.isSome)
      (Lox.evaluateSuperclass (n + 1) e m) (evaluateSuperclass (n + 1) ρ e μ) := by
  cases e with
  | none => exact matches_pure sited.agree ⟨rfl, rfl⟩
  | some e =>
    refine (ih.evaluate sited (code e rfl)).bindEqual fun value _ agree => ?_
    cases value with
    | class_ c => exact matches_pure agree ⟨rfl, rfl⟩
    | _ => exact matches_fault agree id e.superclassLine

/-! ### Calls -/

private theorem call_simulates (callee : Value) (line : Nat) (arguments : List Value)
    (agree : Agree L g cells m μ) :
    Matches L g none cells m Equal (Lox.call (n + 1) callee line arguments m)
      (call (n + 1) callee line arguments μ) := by
  cases callee with
  | native f =>
    exact (matches_checkArity agree _ _ line).bind fun _ agree _ => matches_callNative agree f
  | function f =>
    -- both machines find code under the identity, or neither does
    refine (matches_ask (P := fun cells' m' _ x y =>
      Option.Rel (FunctionsAgree L g cells' m'.store) x y) agree (agree.functionAt? f)).bind
        fun _ agree both => ?_
    cases both with
    | none => exact matches_fault agree id line
    | @some closure closure' both =>
      have ⟨_, captures, _⟩ := both
      dsimp only
      rw [captures.declaration]
      refine (matches_checkArity agree _ _ line).bind fun later agree arity => ?_
      refine .nested agree line fun _ _ same agree => ih.callClosure agree ?_ arity.2.symm
      rw [same]
      exact both.mono later
  | class_ c =>
    -- the arity is that of the initializer, which is the same code on both machines
    refine (matches_ask (P := fun _ m' _ arity arity' => arity' = arity ∧
      arity = m'.store.classArity c) agree ⟨agree.classArity c, rfl⟩).bind
        fun {_ m₁ _ arity _} _ agree both => ?_
    obtain ⟨rfl, expected⟩ := both
    refine (matches_checkArity agree _ _ line).bind fun _ agree' given => ?_
    refine .nested agree' line fun _ _ same agree'' => ih.construct agree'' ?_
    rw [same, given.1, ← expected]
    exact given.2
  | _ => exact matches_fault agree id line

private theorem callClosure_simulates {closure : Lox.Closure} {closure' : Closure}
    {arguments : List Value} (agree : Agree L g cells m μ)
    (both : FunctionsAgree L g cells m.store closure closure')
    (arity : arguments.length = closure.declaration.parameters.length) :
    Matches L g none cells m Equal (Lox.callClosure (n + 1) closure arguments m)
      (callClosure (n + 1) closure' arguments μ) := by
  -- from here on the call works in its own frame, which is new
  refine (matches_callFrame agree both arity).bind_of (some ⟨m.store.frames.size⟩)
    (fun _ same => same) (fun frame same => ?_) fun {cells₁ m₁ μ₁ frame ρ₁} later agree made => ?_
  · cases same
    exact .inr (Nat.le_refl _)
  · obtain ⟨rfl, Γ, sited, code⟩ := made
    have ⟨_, captures, _⟩ := both
    rw [captures.declaration]
    have ran := Matches.inFrame (ih.executeAll sited.inFrame code)
    refine ran.bind fun {_ _ _ flow _} later' agree same => ?_
    rw [Equal] at same
    rw [same]
    exact matches_callResult agree ((both.mono later).mono later') flow

private theorem construct_simulates {c : ClassId} {arguments : List Value}
    (agree : Agree L g cells m μ) (arity : m.store.classArity c = arguments.length) :
    Matches L g none cells m Equal (Lox.construct (n + 1) c arguments m)
      (construct (n + 1) c arguments μ) := by
  refine (matches_addInstance agree c).bind fun {_ m₁ _ _ i} _ agree₁ made => ?_
  obtain ⟨rfl, same⟩ := made
  refine (matches_ask (P := fun cells' m' _ x y => m' = m₁ ∧ x = m₁.store.initializer? c ∧
    Option.Rel (MethodsAgree L g cells' m'.store) x y) agree₁
    ⟨rfl, rfl, agree₁.initializer? c⟩).bind fun _ agree₂ found => ?_
  obtain ⟨here, found, both⟩ := found
  cases both with
  | none => exact matches_pure agree₂ rfl
  | @some method method' both =>
    -- the class and its initializer are still those that the arguments were counted for
    have declared : m.store.initializer? c = some method :=
      (Store.findMethod_congr same c initializerName).symm.trans found.symm
    have expected : method.declaration.parameters.length = arguments.length := by
      rw [← arity, Store.classArity, declared]
    refine (matches_bindMethod agree₂ both i).bind fun _ agree₃ bound => ?_
    refine (ih.callClosure agree₃ bound.1 ?_).bindEqual fun _ _ agree₄ =>
      matches_pure agree₄ rfl
    rw [bound.2]
    exact expected.symm

/-! ### Statements -/

/-- The name of a variable has its location while the initializer is evaluated, and its value afterwards. -/
private theorem var_simulates {name : Name} {initializer : Option Expr}
    (sited : Sited L g m.current Γ ρ cells m μ) (declarable : Γ.Declarable name.text)
    (code : ∀ e ∈ initializer, e.Scoped L (Γ.mark name.text .declared)) :
    Matches L g (some m.current) cells m
      (fun cells' m' μ' flow result => result.2 = flow ∧ ∀ value, flow = .next value →
        Sited L g m'.current (Γ.mark name.text .defined) result.1 cells' m' μ')
      (Lox.execute (n + 1) (.var name initializer) m)
      (execute (n + 1) ρ (.var name initializer) μ) := by
  obtain ⟨ρ₁, μ₁, cells₁, declared, later₁, sited₁⟩ := sited.declare declarable.2
  have right : execute (n + 1) ρ (.var name initializer) μ =
      (do let value ← evaluateOptional n ρ₁ initializer
          Run.define ρ₁ name.text value
          pure (ρ₁, .next .nil) : Run (Env × Flow)) μ₁ := by
    change EStateM.bind (Run.declare ρ name.text) _ μ = _
    rw [EStateM.bind, declared]
  rw [right]
  -- making the location leaves the frames as they are
  refine .after later₁ (fun _ same => .inl same) ?_
  refine (ih.evaluateOptional sited₁ code).bindEqual fun {cells₂ m₂ μ₂} value later₂ agree₂ => ?_
  have sited₂ := sited₁.mono later₂ nofun agree₂
  obtain ⟨later₃, sited₃⟩ := sited₂.define (some m.current) (.of_plain declarable.1 value)
  have left : (do Lox.Run.define (← Lox.Run.ask (·.current)) name.text value
                  pure (.next .nil) : Lox.Run Flow) m₂ =
      .ok (.next .nil) { m₂ with store := m₂.store.define m.current name.text value } := by
    rw [← later₂.current]
    rfl
  rw [left]
  exact ⟨cells₂, later₃, sited₃.agree, rfl, fun _ _ => sited₃.of_eq later₂.current⟩

/-- A block works in a frame of its own, and the place around it is found again after it. -/
theorem block_simulates {body : List Stmt} (sited : Sited L g m.current Γ ρ cells m μ)
    (code : statementsScoped L (Scope.of [] :: Γ) body) :
    Matches L g none cells m
      (fun cells' m' μ' flow result => result.2 = flow ∧
        Sited L g m'.current Γ result.1 cells' m' μ')
      (Lox.execute (n + 1) (.block body) m) (execute (n + 1) ρ (.block body) μ) := by
  have opened := matches_openScope sited.agree sited.placed [] (by simp) (by simp)
  have left : Lox.execute (n + 1) (.block body) m =
      (do let frame ← Lox.Run.onStore (·.addFrame (Table.insertAll ∅ []) (some m.current))
          Lox.Run.inFrame frame (Lox.executeAll n body) : Lox.Run Flow) m := rfl
  rw [left]
  refine opened.bind_of (some ⟨m.store.frames.size⟩) nofun (fun frame same => ?_)
    fun {cells₁ m₁ μ₁ frame ρ₁} later₁ agree₁ made => ?_
  · cases same
    exact .inr (Nat.le_refl _)
  · obtain ⟨rfl, _, inside⟩ := made
    have outside := sited.mono later₁ nofun agree₁
    have other : some ⟨m.store.frames.size⟩ ≠ some m.current := by
      intro same
      exact sited.not_next (Option.some.inj same).symm
    have ran := Matches.inFrame (ih.executeAll inside.inFrame code)
    refine ran.mapRight fun later₂ agree₂ same => ⟨same, ?_⟩
    exact (outside.mono later₂ other agree₂).of_eq (later₂.current.trans later₁.current)

private theorem execute_simulates {s : Stmt} (sited : Sited L g m.current Γ ρ cells m μ)
    (code : s.Scoped L Γ) :
    Matches L g (some m.current) cells m
      (fun cells' m' μ' flow result => result.2 = flow ∧
        ∀ value, flow = .next value → Sited L g m'.current (s.after Γ) result.1 cells' m' μ')
      (Lox.execute (n + 1) s m) (execute (n + 1) ρ s μ) := by
  cases s with
  | expression value =>
    rw [Stmt.Scoped] at code
    exact (ih.evaluate sited code).bindEqual fun value later agree =>
      matches_pure agree ⟨rfl, fun _ _ => sited.later later agree⟩
  | print value =>
    rw [Stmt.Scoped] at code
    refine (ih.evaluate sited code).bindEqual fun value later agree => ?_
    have sited := sited.later later agree
    exact (matches_print agree value).bindEqual fun _ later agree =>
      matches_pure agree ⟨rfl, fun _ _ => sited.later later agree⟩
  | var name initializer =>
    rw [Stmt.Scoped] at code
    exact var_simulates ih sited code.1 code.2
  | block body =>
    rw [Stmt.Scoped] at code
    have near := (block_simulates ih sited code).after (.refl (some m.current) cells m) fun _ none => by
      cases none
    exact near.imp fun both => ⟨both.1, fun _ _ => both.2⟩
  | ifElse condition thenBranch elseBranch =>
    obtain ⟨codeCondition, codeThen, codeElse⟩ := Stmt.scoped_ifElse code
    refine (ih.evaluate sited codeCondition).bindEqual fun value later agree => ?_
    have sited' := sited.later later agree
    rw [← later.current]
    -- a branch declares nothing, so the names after it are those before it
    split
    · have branch := ih.execute sited' codeThen.1
      rw [Stmt.after_eq_self codeThen.2] at branch
      exact branch
    · cases elseBranch with
      | none => exact matches_pure agree ⟨rfl, fun _ _ => sited'⟩
      | some s =>
        have branch := ih.execute sited' (codeElse s rfl).1
        rw [Stmt.after_eq_self (codeElse s rfl).2] at branch
        exact branch
  | «while» condition body =>
    rw [Stmt.Scoped] at code
    obtain ⟨codeCondition, codeBody, none⟩ := code
    exact (ih.executeWhile sited codeCondition codeBody none).mapRight fun _ _ both => both
  | function d =>
    rw [Stmt.Scoped] at code
    exact (matches_declareFunction sited code.1 code.2).bind fun _ agree sited =>
      matches_pure agree ⟨rfl, fun _ _ => sited⟩
  | «return» line value =>
    rw [Stmt.Scoped] at code
    exact (ih.evaluateOptional sited code).bindEqual fun value later agree =>
      matches_pure agree ⟨rfl, fun _ same => by cases same⟩
  | class_ name superclass methods =>
    rw [Stmt.Scoped] at code
    obtain ⟨declarable, codeSuperclass, codeMethods⟩ := code
    refine (ih.evaluateSuperclass sited codeSuperclass).bindApart fun later agree found => ?_
    obtain ⟨rfl, derived⟩ := found
    -- a superclass has been found if one is named, so the methods have the scopes of a derived class
    rw [← derived] at codeMethods
    rw [← later.current]
    exact (matches_declareClass (sited.later later agree) declarable _ codeMethods).bind
      fun _ agree sited => matches_pure agree ⟨rfl, fun _ _ => sited⟩

private theorem executeWhile_simulates {condition : Expr} {body : Stmt}
    (sited : Sited L g m.current Γ ρ cells m μ) (codeCondition : condition.Scoped L Γ)
    (codeBody : body.Scoped L Γ) (none : body.declared? = none) :
    Matches L g (some m.current) cells m
      (fun cells' m' μ' flow flow' => flow' = flow ∧
        ∀ value, flow = .next value → Sited L g m'.current Γ ρ cells' m' μ')
      (Lox.executeWhile (n + 1) condition body m) (executeWhile (n + 1) ρ condition body μ) := by
  refine (ih.evaluate sited codeCondition).bindEqual fun value later agree => ?_
  have sited' := sited.later later agree
  rw [← later.current]
  split
  · refine (ih.execute sited' codeBody).bind fun {_ _ _ flow result} later agree both => ?_
    obtain ⟨ρ', flow'⟩ := result
    obtain ⟨rfl, inside⟩ := both
    cases flow' with
    | «return» value => exact matches_pure agree ⟨rfl, fun _ same => by cases same⟩
    | next value =>
      -- the body declares nothing, so the next turn begins with the same names
      have after := inside value rfl
      rw [Stmt.after_eq_self none] at after
      have again := sited'.restore later (after.of_eq later.current.symm)
      rw [← later.current]
      exact ih.executeWhile (again.of_eq later.current) codeCondition codeBody none
  · exact matches_pure agree ⟨rfl, fun _ _ => sited'⟩

private theorem executeAll_simulates {body : List Stmt}
    (sited : Sited L g m.current Γ ρ cells m μ) (code : statementsScoped L Γ body) :
    Matches L g (some m.current) cells m Equal (Lox.executeAll (n + 1) body m)
      (executeAll (n + 1) ρ body μ) := by
  cases body with
  | nil => exact matches_pure sited.agree rfl
  | cons s rest =>
    rw [statementsScoped] at code
    refine (ih.execute sited code.1).bind fun {_ _ _ flow result} later agree both => ?_
    obtain ⟨ρ', flow'⟩ := result
    obtain ⟨rfl, inside⟩ := both
    cases flow' with
    | «return» value => exact matches_pure agree rfl
    | next value =>
      -- what follows stands where the first statement has left the machines
      rw [← later.current]
      exact ih.executeAll (inside value rfl) code.2

end

/-- Evaluations match within any bound. -/
theorem simulates (L : List Lookup) (g : FrameId) (n : Nat) : Simulates L g n := by
  induction n with
  | zero =>
    constructor <;> intros <;> exact matches_throw (by first | assumption | exact Sited.agree ‹_›) id
  | succ n ih =>
    exact {
      evaluate := evaluate_simulates ih
      evaluateAll := evaluateAll_simulates ih
      call := call_simulates ih
      callClosure := callClosure_simulates ih
      construct := construct_simulates ih
      execute := execute_simulates ih
      evaluateOptional := evaluateOptional_simulates ih
      evaluateSuperclass := evaluateSuperclass_simulates ih
      executeWhile := executeWhile_simulates ih
      executeAll := executeAll_simulates ih }

end Lox.Lexical
