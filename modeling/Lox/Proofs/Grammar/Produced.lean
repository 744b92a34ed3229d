import Lox.Proofs.Grammar.Yields

/-!
# What the rules for programs produce

The statements of a source are well-formed, and their nodes are numbered with identities that were free
before the source was read. A declaration that fails takes identities with it, which nothing else gets.
-/

namespace Lox

namespace Grammar

open Rule

/-! ### Statements and declarations -/

/-- A statement that is well-formed and numbered from the given range. -/
structure StmtIsRead (lo hi : NodeId) (s : Stmt) : Prop where
  wellFormed : s.WellFormed
  numbered : Numbered lo hi s.ids

/-- A function that is well-formed and numbered from the given range. -/
structure FunctionIsRead (lo hi : NodeId) (d : FunctionDecl) : Prop where
  wellFormed : d.WellFormed
  numbered : Numbered lo hi d.ids

theorem StmtIsRead.skip {lo mid hi : NodeId} {s : Stmt} (read : StmtIsRead mid hi s)
    (below : lo ≤ mid) : StmtIsRead lo hi s :=
  ⟨read.wellFormed, read.numbered.skip below⟩

/-- An expression that may have been left out. -/
structure OptionIsRead (lo hi : NodeId) (e : Option Expr) : Prop where
  wellFormed : ∀ x ∈ e, x.WellFormed
  numbered : Numbered lo hi (optionalIds e)

/-- A statement that may stand as a branch: it declares nothing. -/
structure BranchIsRead (lo hi : NodeId) (s : Stmt) : Prop where
  read : StmtIsRead lo hi s
  silent : s.declared? = none

theorem BranchIsRead.skip {lo mid hi : NodeId} {s : Stmt} (read : BranchIsRead mid hi s)
    (below : lo ≤ mid) : BranchIsRead lo hi s :=
  ⟨read.read.skip below, read.silent⟩

theorem BranchIsRead.widen {lo hi hi' : NodeId} {s : Stmt} (read : BranchIsRead lo hi s)
    (above : hi ≤ hi') : BranchIsRead lo hi' s :=
  ⟨⟨read.read.wellFormed, read.read.numbered.widen above⟩, read.silent⟩

theorem OptionIsRead.widen {lo hi hi' : NodeId} {e : Option Expr} (read : OptionIsRead lo hi e)
    (above : hi ≤ hi') : OptionIsRead lo hi' e :=
  ⟨read.wellFormed, read.numbered.widen above⟩

theorem OptionIsRead.skip {lo mid hi : NodeId} {e : Option Expr} (read : OptionIsRead mid hi e)
    (below : lo ≤ mid) : OptionIsRead lo hi e :=
  ⟨read.wellFormed, read.numbered.skip below⟩

theorem OptionIsRead.none {lo hi : NodeId} (range : lo ≤ hi) : OptionIsRead lo hi none :=
  ⟨nofun, .nil range⟩

theorem IsRead.some {lo hi : NodeId} {e : Expr} (read : IsRead lo hi e) :
    OptionIsRead lo hi (some e) := by
  refine ⟨?_, read.numbered⟩
  intro x same
  cases same
  exact read.wellFormed

theorem IsRead.expression {lo hi : NodeId} {e : Expr} (read : IsRead lo hi e) :
    BranchIsRead lo hi (.expression e) := by
  refine ⟨⟨?_, ?_⟩, rfl⟩
  · rw [Stmt.WellFormed]
    exact read.wellFormed
  · rw [Stmt.ids]
    exact read.numbered

theorem IsRead.print {lo hi : NodeId} {e : Expr} (read : IsRead lo hi e) :
    BranchIsRead lo hi (.print e) := by
  refine ⟨⟨?_, ?_⟩, rfl⟩
  · rw [Stmt.WellFormed]
    exact read.wellFormed
  · rw [Stmt.ids]
    exact read.numbered

theorem OptionIsRead.var {lo hi : NodeId} {initializer : Option Expr} {name : Name}
    (read : OptionIsRead lo hi initializer) (plain : IsPlain name.text) :
    StmtIsRead lo hi (.var name initializer) := by
  constructor
  · rw [Stmt.WellFormed]
    exact ⟨plain, read.wellFormed⟩
  · rw [Stmt.ids]
    exact read.numbered

theorem OptionIsRead.return {lo hi : NodeId} {value : Option Expr}
    (read : OptionIsRead lo hi value) (line : Nat) : BranchIsRead lo hi (.return line value) := by
  refine ⟨⟨?_, ?_⟩, rfl⟩
  · rw [Stmt.WellFormed]
    exact read.wellFormed
  · rw [Stmt.ids]
    exact read.numbered

/-- The statements read so far, the last first. -/
abbrev StatementsAreRead (lo hi : NodeId) (statements : List Stmt) : Prop :=
  Collected Stmt.WellFormed Stmt.ids lo hi statements

/-- The methods read so far, the last first. -/
abbrev MethodsAreRead (lo hi : NodeId) (methods : List FunctionDecl) : Prop :=
  Collected FunctionDecl.WellFormed FunctionDecl.ids lo hi methods

theorem block_isRead {lo hi : NodeId} {body : List Stmt} (read : StatementsAreRead lo hi body) :
    BranchIsRead lo hi (.block body) := by
  refine ⟨⟨?_, ?_⟩, rfl⟩
  · rw [Stmt.WellFormed]
    exact (statementsWellFormed_iff body).mpr read.wellFormed
  · rw [Stmt.ids, statementIds_eq_flatMap]
    exact read.numbered

theorem while_isRead {lo hi : NodeId} {condition : Expr} {body : Stmt}
    (condition' : condition.WellFormed) (body' : body.WellFormed) (silent : body.declared? = none)
    (numbered : Numbered lo hi (condition.ids ++ body.ids)) :
    BranchIsRead lo hi (.while condition body) := by
  refine ⟨⟨?_, ?_⟩, rfl⟩
  · rw [Stmt.WellFormed]
    exact ⟨condition', body', silent⟩
  · rw [Stmt.ids]
    exact numbered

theorem if_isRead {lo mid hi : NodeId} {condition : Expr} {thenBranch : Stmt}
    (test : IsRead lo mid condition) (first : BranchIsRead mid hi thenBranch) :
    BranchIsRead lo hi (.ifElse condition thenBranch none) := by
  refine ⟨⟨?_, ?_⟩, rfl⟩
  · rw [Stmt.WellFormed]
    exact ⟨test.wellFormed, first.read.wellFormed, first.silent⟩
  · rw [Stmt.ids]
    exact test.numbered.append first.read.numbered

theorem ifElse_isRead {lo a b hi : NodeId} {condition : Expr} {thenBranch elseBranch : Stmt}
    (test : IsRead lo a condition) (first : BranchIsRead a b thenBranch)
    (other : BranchIsRead b hi elseBranch) :
    BranchIsRead lo hi (.ifElse condition thenBranch (some elseBranch)) := by
  refine ⟨⟨?_, ?_⟩, rfl⟩
  · rw [Stmt.WellFormed]
    exact ⟨test.wellFormed, ⟨first.read.wellFormed, first.silent⟩, other.read.wellFormed,
      other.silent⟩
  · rw [Stmt.ids]
    exact (test.numbered.append first.read.numbered).append other.read.numbered

/-- The increment of a `for` loop is numbered before the body, which it follows in the loop. -/
theorem forLoop_isRead {lo a b c hi : NodeId} {initializer : Option Stmt}
    {condition increment : Option Expr} {body : Stmt}
    (first : ∀ s ∈ initializer, StmtIsRead lo a s) (range : lo ≤ a)
    (test : OptionIsRead a b condition) (step : OptionIsRead b c increment)
    (body' : BranchIsRead c hi body) :
    BranchIsRead lo hi (.forLoop initializer condition increment body) := by
  -- the body with the increment after it
  have turn : ∃ turn : Stmt, BranchIsRead b hi turn ∧
      Stmt.forLoop initializer condition increment body =
        Stmt.forLoop initializer condition none turn := by
    cases increment with
    | none => exact ⟨body, body'.skip step.numbered.range, rfl⟩
    | some e =>
      have last : IsRead b c e := ⟨step.wellFormed e rfl, step.numbered⟩
      have both : StatementsAreRead b hi [body, .expression e] :=
        Collected.cons (.cons (.nil b) last.expression.read.wellFormed
          last.expression.read.numbered) body'.read.wellFormed body'.read.numbered
      exact ⟨_, block_isRead both, rfl⟩
  obtain ⟨turn, body', same⟩ := turn
  rw [same]
  -- the loop proper, whose condition holds if it has been left out
  have loop : BranchIsRead a hi (.while (condition.getD (.literal (.bool true))) turn) := by
    cases condition with
    | none =>
      refine while_isRead ?_ body'.read.wellFormed body'.silent ?_
      · rw [Option.getD_none, Expr.WellFormed]
        trivial
      · rw [Option.getD_none, Expr.ids]
        exact body'.read.numbered.skip test.numbered.range
    | some e =>
      exact while_isRead (test.wellFormed e rfl) body'.read.wellFormed body'.silent
        (test.numbered.append body'.read.numbered)
  cases initializer with
  | none => exact loop.skip range
  | some s =>
    have start := first s rfl
    let loopStmt : Stmt := .while (condition.getD (.literal (.bool true))) turn
    have both : StatementsAreRead lo hi [s, loopStmt] := by
      refine ⟨fun s' member => ?_, ?_⟩
      · rcases List.mem_cons.mp member with rfl | member
        · exact start.wellFormed
        · rw [List.mem_singleton.mp member]
          exact loop.read.wellFormed
      · rw [List.flatMap_cons, List.flatMap_singleton]
        exact start.numbered.append loop.read.numbered
    exact block_isRead both

section Parts

variable {n : Nat}

theorem optionalValue_yields (stop : Token.Kind) (s : State) :
    Yields s (optionalValue n stop) (OptionIsRead s.nextId) := by
  unfold optionalValue
  apply (yields_sees _).bind
  intro empty s₁ free₁ _
  refine .ite (fun _ => ?_) fun _ => ?_
  · exact yields_pure (.none free₁)
  · exact ((expressions_yield n).expression s₁).bind fun e s₂ _ read =>
      yields_pure (read.skip free₁).some

theorem variableDeclaration_yields (s : State) :
    Yields s (variableDeclaration n) (StmtIsRead s.nextId) := by
  -- what follows the initializer, in both branches of the rule
  have close {declared : Name} {initializer : Option Expr} (plain : IsPlain declared.text)
      (s₁ : State) (read : OptionIsRead s.nextId s₁.nextId initializer) :
      Yields s₁ (do let _ ← expect (.symbol .semicolon) .openVariableDeclaration
                    return .var declared initializer) (StmtIsRead s.nextId) := by
    apply (yields_expect _ _).bind
    intro _ s₂ free₂ _
    exact yields_pure ((read.widen free₂).var plain)
  unfold variableDeclaration
  apply (yields_name _).bind
  intro declared s₁ free₁ plain
  apply (yields_accept _).bind
  intro given s₂ free₂ _
  have free := Nat.le_trans free₁ free₂
  refine .ite (fun _ => ?_) fun _ => ?_
  · refine Yields.bind (P := OptionIsRead s₂.nextId) ?_ fun initializer s₃ _ read =>
      close plain s₃ (read.skip free)
    exact ((expressions_yield n).expression s₂).bind fun e s₃ _ read => yields_pure read.some
  · exact Yields.bind (yields_pure (P := OptionIsRead s.nextId) (.none free))
      fun initializer s₃ _ read => close plain s₃ read

theorem expressionStatement_yields (s : State) :
    Yields s (expressionStatement n) (BranchIsRead s.nextId) := by
  apply ((expressions_yield n).expression s).bind
  intro value s₁ _ read
  apply (yields_expect _ _).bind
  intro _ s₂ free₂ _
  exact yields_pure (read.widen free₂).expression

theorem printStatement_yields (s : State) :
    Yields s (printStatement n) (BranchIsRead s.nextId) := by
  apply ((expressions_yield n).expression s).bind
  intro value s₁ _ read
  apply (yields_expect _ _).bind
  intro _ s₂ free₂ _
  exact yields_pure (read.widen free₂).print

theorem returnStatement_yields (line : Nat) (s : State) :
    Yields s (returnStatement n line) (BranchIsRead s.nextId) := by
  apply (optionalValue_yields _ s).bind
  intro value s₁ _ read
  apply (yields_expect _ _).bind
  intro _ s₂ free₂ _
  exact yields_pure (OptionIsRead.return (read.widen free₂) line)

theorem parameters_yields (done : List Name) (s : State) (before : ∀ p ∈ done, IsPlain p.text) :
    Yields s (parameters n done) fun _ names => ∀ p ∈ names, IsPlain p.text := by
  induction n generalizing done s with
  | zero => exact yields_fail _
  | succ n ih =>
    have rest (s : State) : Yields s
        (do let parameter ← name .noParameterName
            if ← accept (.symbol .comma) then parameters n (parameter :: done)
            else return (parameter :: done).reverse)
        (fun _ names => ∀ p ∈ names, IsPlain p.text) := by
      apply (yields_name _).bind
      intro parameter s₁ _ plain
      apply (yields_accept _).bind
      intro comma s₂ _ _
      have all : ∀ p ∈ parameter :: done, IsPlain p.text := List.forall_mem_cons.mpr ⟨plain, before⟩
      exact .ite (fun _ => ih _ s₂ all)
        fun _ => yields_pure fun p member => all p (List.mem_reverse.mp member)
    unfold parameters
    refine .ite (fun _ => ?_) fun _ => rest s
    -- one parameter too many is reported and read all the same
    exact yields_peek.bind fun t s₁ _ _ => (yields_note _).bind fun _ s₂ _ _ => rest s₂

theorem forInitializer_yields (s : State) :
    Yields s (forInitializer n) fun hi initializer =>
      s.nextId ≤ hi ∧ ∀ first ∈ initializer, StmtIsRead s.nextId hi first := by
  have given {s₁ : State} {hi : NodeId} {first : Stmt} (free : s.nextId ≤ s₁.nextId)
      (read : StmtIsRead s₁.nextId hi first) :
      s.nextId ≤ hi ∧ ∀ s' ∈ some first, StmtIsRead s.nextId hi s' := by
    refine ⟨Nat.le_trans free read.numbered.range, fun s' same => ?_⟩
    cases same
    exact read.skip free
  unfold forInitializer
  apply (yields_accept _).bind
  intro absent s₁ free₁ _
  refine .ite (fun _ => ?_) fun _ => ?_
  · exact yields_pure ⟨free₁, nofun⟩
  · apply (yields_accept _).bind
    intro var s₂ free₂ _
    have free := Nat.le_trans free₁ free₂
    refine .ite (fun _ => ?_) fun _ => ?_
    · exact (variableDeclaration_yields s₂).bind fun first s₃ _ read => yields_pure (given free read)
    · exact (expressionStatement_yields s₂).bind fun first s₃ _ read =>
        yields_pure (given free read.read)

theorem superclass_yields (s : State) :
    Yields s superclass fun hi parent =>
      (∀ e ∈ parent, e.IsPlainName) ∧ Numbered s.nextId hi (optionalIds parent) := by
  unfold superclass
  apply (yields_accept _).bind
  intro derived s₁ free₁ _
  refine .ite (fun _ => ?_) fun _ => ?_
  · apply (yields_name _).bind
    intro parent s₂ free₂ plain
    apply yields_freshId.bind
    intro fresh s₃ _ new
    refine yields_pure ⟨?_, ?_⟩
    · intro e same
      cases same
      exact plain
    · rw [optionalIds, Expr.ids]
      exact (new.skip free₂).skip free₁
  · exact yields_pure ⟨by rintro _ ⟨⟩, .nil free₁⟩

end Parts

/-- Within the bound `n`, the rules for programs produce well-formed and numbered trees. -/
structure ProgramsYield (n : Nat) : Prop where
  declaration : ∀ s, Yields s (declaration n) fun hi read => ∀ d ∈ read, StmtIsRead s.nextId hi d
  classDeclaration : ∀ s, Yields s (classDeclaration n) (StmtIsRead s.nextId)
  methods : ∀ {lo done} s, MethodsAreRead lo s.nextId done →
    Yields s (methods n done) (MethodsAreRead lo)
  function : ∀ kind s, Yields s (function n kind) fun hi d =>
    FunctionIsRead s.nextId hi d ∧ IsPlain d.name.text
  statement : ∀ s, Yields s (statement n) (BranchIsRead s.nextId)
  forStatement : ∀ s, Yields s (forStatement n) (BranchIsRead s.nextId)
  ifStatement : ∀ s, Yields s (ifStatement n) (BranchIsRead s.nextId)
  whileStatement : ∀ s, Yields s (whileStatement n) (BranchIsRead s.nextId)
  block : ∀ s, Yields s (block n) (StatementsAreRead s.nextId)
  declarations : ∀ {lo done} stop s, StatementsAreRead lo s.nextId done →
    Yields s (declarations n stop done) (StatementsAreRead lo)

section Steps

variable {n : Nat} (ih : ProgramsYield n)

include ih

private theorem declaration_yields (s : State) :
    Yields s (declaration (n + 1)) fun hi read => ∀ d ∈ read, StmtIsRead s.nextId hi d := by
  unfold declaration
  apply Yields.recover
  apply (yields_accept _).bind
  intro cls s₁ free₁ _
  refine .ite (fun _ => ?_) fun _ => ?_
  · exact (ih.classDeclaration s₁).imp fun _ _ _ read => read.skip free₁
  apply (yields_accept _).bind
  intro function s₂ free₂ _
  have free := Nat.le_trans free₁ free₂
  refine .ite (fun _ => ?_) fun _ => ?_
  · apply (ih.function .function s₂).bind
    intro d s₃ _ both
    refine yields_pure ⟨?_, ?_⟩
    · rw [Stmt.WellFormed]
      exact ⟨both.2, both.1.wellFormed⟩
    · rw [Stmt.ids]
      exact both.1.numbered.skip free
  apply (yields_accept _).bind
  intro var s₃ free₃ _
  have free := Nat.le_trans free free₃
  refine .ite (fun _ => ?_) fun _ => ?_
  · exact (variableDeclaration_yields s₃).imp fun _ _ _ read => read.skip free
  · exact (ih.statement s₃).imp fun _ _ _ read => (read.skip free).read

private theorem classDeclaration_yields (s : State) :
    Yields s (classDeclaration (n + 1)) (StmtIsRead s.nextId) := by
  unfold classDeclaration
  apply (yields_name _).bind
  intro className s₁ free₁ plain
  apply (superclass_yields s₁).bind
  intro parent s₂ _ named
  obtain ⟨named, first⟩ := named
  apply (yields_expect _ _).bind
  intro _ s₃ free₃ _
  apply (ih.methods s₃ (.nil _)).bind
  intro methods s₄ _ read
  apply (yields_expect _ _).bind
  intro _ s₅ free₅ _
  refine yields_pure ⟨?_, ?_⟩
  · rw [Stmt.WellFormed]
    exact ⟨plain, named, (methodsWellFormed_iff methods).mpr read.wellFormed⟩
  · rw [Stmt.ids, methodIds_eq_flatMap]
    exact (((first.skip free₁).widen free₃).append read.numbered).widen free₅

private theorem methods_yields {lo : NodeId} {done : List FunctionDecl} (s : State)
    (before : MethodsAreRead lo s.nextId done) :
    Yields s (methods (n + 1) done) (MethodsAreRead lo) := by
  unfold methods
  apply (yields_sees _).bind
  intro closed s₁ free₁ _
  apply yields_atEnd.bind
  intro ended s₂ free₂ _
  have before := (before.widen free₁).widen free₂
  refine .ite (fun _ => yields_pure before.reverse) fun _ => ?_
  apply (ih.function .method s₂).bind
  intro method s₃ _ both
  exact ih.methods s₃ (before.cons both.1.wellFormed both.1.numbered)

private theorem function_yields (kind : FunctionKind) (s : State) :
    Yields s (function (n + 1) kind) fun hi d =>
      FunctionIsRead s.nextId hi d ∧ IsPlain d.name.text := by
  -- what follows the parameters, in both branches of the rule
  have close {functionName : Name} {parameters : List Name} (plain : IsPlain functionName.text)
      (all : ∀ p ∈ parameters, IsPlain p.text) (s₁ : State) (free₁ : s.nextId ≤ s₁.nextId) :
      Yields s₁ (do let _ ← expect (.symbol .rightParen) .openParameterList
                    let _ ← expect (.symbol .leftBrace) (.noFunctionBody kind)
                    let body ← Grammar.block n
                    return ⟨functionName, parameters, body⟩) fun hi d =>
        FunctionIsRead s.nextId hi d ∧ IsPlain d.name.text := by
    apply (yields_expect _ _).bind
    intro paren s₂ free₂ _
    apply (yields_expect _ _).bind
    intro brace s₃ free₃ _
    apply (ih.block s₃).bind
    intro body s₄ _ read
    refine yields_pure ⟨⟨?_, ?_⟩, plain⟩
    · rw [FunctionDecl.WellFormed]
      exact ⟨all, (statementsWellFormed_iff body).mpr read.wellFormed⟩
    · rw [FunctionDecl.ids, statementIds_eq_flatMap]
      exact ((read.numbered.skip free₃).skip free₂).skip free₁
  unfold Grammar.function
  apply (yields_name _).bind
  intro functionName s₁ free₁ plain
  apply (yields_expect _ _).bind
  intro paren s₂ free₂ _
  apply (yields_sees _).bind
  intro empty s₃ free₃ _
  have free := Nat.le_trans (Nat.le_trans free₁ free₂) free₃
  refine .ite (fun _ => ?_) fun _ => ?_
  · exact Yields.bind (yields_pure (P := fun _ names => ∀ p ∈ names, IsPlain p.text) (by rintro _ ⟨⟩))
      fun parameters s₄ free₄ all => close plain all s₄ (Nat.le_trans free free₄)
  · exact (parameters_yields [] s₃ (by rintro _ ⟨⟩)).bind fun parameters s₄ free₄ all =>
      close plain all s₄ (Nat.le_trans free free₄)

private theorem statement_yields (s : State) :
    Yields s (statement (n + 1)) (BranchIsRead s.nextId) := by
  -- what follows the token that tells the statement
  have taken {rule : Rule Stmt} {s₁ : State} (free₁ : s.nextId ≤ s₁.nextId)
      (read : ∀ s, Yields s rule (BranchIsRead s.nextId)) :
      Yields s₁ (do take; rule) (BranchIsRead s.nextId) := by
    apply yields_take.bind
    intro _ s₂ free₂ _
    exact (read s₂).imp fun _ _ _ read => read.skip (Nat.le_trans free₁ free₂)
  unfold statement
  apply yields_peek.bind
  intro t s₁ free₁ _
  split
  · exact taken free₁ ih.forStatement
  · exact taken free₁ ih.ifStatement
  · exact taken free₁ ih.whileStatement
  · exact taken free₁ (returnStatement_yields t.line)
  · exact taken free₁ fun s => (ih.block s).bind fun _ _ _ read => yields_pure (block_isRead read)
  · exact taken free₁ printStatement_yields
  · exact (expressionStatement_yields s₁).imp fun _ _ _ read => read.skip free₁

private theorem forStatement_yields (s : State) :
    Yields s (forStatement (n + 1)) (BranchIsRead s.nextId) := by
  unfold forStatement
  apply (yields_expect _ _).bind
  intro _ s₁ free₁ _
  apply (forInitializer_yields s₁).bind
  intro initializer s₂ _ first
  obtain ⟨range, first⟩ := first
  apply (optionalValue_yields _ s₂).bind
  intro condition s₃ _ test
  apply (yields_expect _ _).bind
  intro _ s₄ free₄ _
  apply (optionalValue_yields _ s₄).bind
  intro increment s₅ _ step
  apply (yields_expect _ _).bind
  intro _ s₆ free₆ _
  apply (ih.statement s₆).bind
  intro body s₇ _ read
  apply yields_pure
  exact (forLoop_isRead first range (test.widen free₄) (step.widen free₆) read).skip free₁

private theorem ifStatement_yields (s : State) :
    Yields s (ifStatement (n + 1)) (BranchIsRead s.nextId) := by
  unfold ifStatement
  apply (yields_expect _ _).bind
  intro _ s₁ free₁ _
  apply ((expressions_yield n).expression s₁).bind
  intro condition s₂ _ test
  apply (yields_expect _ _).bind
  intro _ s₃ free₃ _
  apply (ih.statement s₃).bind
  intro thenBranch s₄ _ first
  apply (yields_accept _).bind
  intro other s₅ free₅ _
  have test := (test.skip free₁).widen free₃
  have first := first.widen free₅
  refine .ite (fun _ => ?_) fun _ => yields_pure (if_isRead test first)
  exact (ih.statement s₅).bind fun elseBranch s₆ _ next =>
    yields_pure (ifElse_isRead test first next)

private theorem whileStatement_yields (s : State) :
    Yields s (whileStatement (n + 1)) (BranchIsRead s.nextId) := by
  unfold whileStatement
  apply (yields_expect _ _).bind
  intro _ s₁ free₁ _
  apply ((expressions_yield n).expression s₁).bind
  intro condition s₂ _ test
  apply (yields_expect _ _).bind
  intro _ s₃ free₃ _
  apply (ih.statement s₃).bind
  intro body s₄ _ read
  apply yields_pure
  have test := (test.skip free₁).widen free₃
  exact while_isRead test.wellFormed read.read.wellFormed read.silent
    (test.numbered.append read.read.numbered)

private theorem block_yields (s : State) :
    Yields s (block (n + 1)) (StatementsAreRead s.nextId) := by
  unfold block
  apply (ih.declarations _ s (.nil _)).bind
  intro body s₁ _ read
  apply (yields_expect _ _).bind
  intro _ s₂ free₂ _
  exact yields_pure (read.widen free₂)

private theorem declarations_yields {lo : NodeId} {done : List Stmt} (stop : Token.Kind)
    (s : State) (before : StatementsAreRead lo s.nextId done) :
    Yields s (declarations (n + 1) stop done) (StatementsAreRead lo) := by
  unfold declarations
  apply (yields_sees _).bind
  intro closed s₁ free₁ _
  apply yields_atEnd.bind
  intro ended s₂ free₂ _
  have before := (before.widen free₁).widen free₂
  refine .ite (fun _ => yields_pure before.reverse) fun _ => ?_
  apply (ih.declaration s₂).bind
  intro read s₃ free₃ found
  cases read with
  -- a declaration that was given up has taken identities, but leaves no statement
  | none => exact ih.declarations stop s₃ (before.widen free₃)
  | some d =>
    have found := found d rfl
    exact ih.declarations stop s₃ (before.cons found.wellFormed found.numbered)

end Steps

/-- The rules for programs produce well-formed and numbered trees, by induction on the bound. -/
theorem programs_yield (n : Nat) : ProgramsYield n := by
  induction n with
  | zero =>
    have recovered (s : State) : Yields s (recover (fail .noExpression))
        fun hi read => ∀ d ∈ read, StmtIsRead s.nextId hi d :=
      (yields_fail (P := StmtIsRead s.nextId) _).recover
    constructor <;> intros <;> first | exact recovered _ | exact yields_fail _
  | succ n ih =>
    exact {
      declaration := declaration_yields ih
      classDeclaration := classDeclaration_yields ih
      methods := methods_yields ih
      function := function_yields ih
      statement := statement_yields ih
      forStatement := forStatement_yields ih
      ifStatement := ifStatement_yields ih
      whileStatement := whileStatement_yields ih
      block := block_yields ih
      declarations := declarations_yields ih }

end Grammar

/-! ### Sources -/

/-- The statements of a source are well-formed, and their nodes are numbered with identities that were
free and are taken now. -/
theorem Source.program_isRead (source : String) (firstId : NodeId) :
    statementsWellFormed (Source.program source firstId).result ∧
      Numbered firstId (Source.program source firstId).nextId
        (statementIds (Source.program source firstId).result) := by
  have read := (Grammar.programs_yield (Grammar.depthFor (tokens source))).declarations .eof
    (Grammar.State.start (tokens source) firstId) (.nil firstId) (tokens_spelt source)
  unfold Source.program Grammar.program
  cases declared : Grammar.declarations (Grammar.depthFor (tokens source)) .eof []
    (Grammar.State.start (tokens source) firstId) with
  | ok statements s =>
    rw [declared] at read
    refine ⟨(statementsWellFormed_iff statements).mpr read.2.wellFormed, ?_⟩
    rw [statementIds_eq_flatMap]
    exact read.2.numbered
  | error d s =>
    rw [declared] at read
    exact ⟨trivial, .nil read.free⟩

/-- A source that is read as one expression takes identities that were free, and the nodes of the
expression are numbered with them. -/
theorem Source.soleExpression_isRead (source : String) (firstId : NodeId) :
    firstId ≤ (Source.soleExpression source firstId).nextId ∧
      ∀ e, (Source.soleExpression source firstId).result = some e →
        Grammar.IsRead firstId (Source.soleExpression source firstId).nextId e := by
  have single : Grammar.Yields (Grammar.State.start (tokens source) firstId)
      (Grammar.singleExpression (tokens source)) (Grammar.IsRead firstId) := by
    unfold Grammar.singleExpression
    apply ((Grammar.expressions_yield (Grammar.depthFor (tokens source))).expression _).bind
    intro e s₁ _ read
    apply Grammar.yields_atEnd.bind
    intro ended s₂ free _
    exact .ite (fun _ => Grammar.yields_pure (read.widen free)) fun _ => Grammar.yields_fail _
  have read := single (tokens_spelt source)
  unfold Source.soleExpression Grammar.soleExpression
  cases parsed : Grammar.singleExpression (tokens source)
    (Grammar.State.start (tokens source) firstId) with
  | ok e s =>
    rw [parsed] at read
    refine ⟨read.1.free, fun e' same => ?_⟩
    cases same
    exact read.2
  | error d s =>
    rw [parsed] at read
    exact ⟨read.free, nofun⟩

end Lox
