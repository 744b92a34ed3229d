import Lox.Proofs.Grammar.Onward
import Lox.Proofs.Syntax.Regular

/-!
# What is read is regular

Whatever the tokens are, the rules for programs return regular trees: declarations are read only where there
is a list of statements, and a superclass is read as a name.
-/

namespace Lox

namespace Grammar

open Rule

/-- What the rule returns when it succeeds is in `Q`. -/
def Rule.Returns {α : Type} (x : Rule α) (Q : α → Prop) : Prop :=
  ∀ s a s', x s = .ok a s' → Q a

namespace Rule.Returns

variable {α β : Type} {P : α → Prop} {Q : β → Prop}

theorem pure {b : β} (result : Q b) : Returns (pure b) Q := by
  intro s a s' ran
  cases ran
  exact result

theorem fail (cause : SyntaxError) : Returns (fail cause) Q := by
  intro s a s' ran
  cases ran

theorem bind {x : Rule α} {f : α → Rule β} (first : Returns x P) (next : ∀ a, P a → Returns (f a) Q) :
    Returns (x >>= f) Q := by
  intro s b s' ran
  obtain ⟨a, s₁, ran₁, ran₂⟩ := bind_eq_ok ran
  exact next a (first s a s₁ ran₁) s₁ b s' ran₂

/-- What the first of two rules returns may be of no account. -/
theorem after {x : Rule α} {f : α → Rule β} (next : ∀ a, Returns (f a) Q) : Returns (x >>= f) Q :=
  bind (P := fun _ => True) (fun _ _ _ _ => trivial) fun a _ => next a

theorem ite {x y : Rule β} {c : Prop} [Decidable c] (yes : Returns x Q) (no : Returns y Q) :
    Returns (if c then x else y) Q := by
  split
  · exact yes
  · exact no

/-- A failure gives nothing. -/
theorem recover {x : Rule α} (read : Returns x P) : Returns (recover x) fun result => ∀ a ∈ result, P a := by
  intro s result s' ran a member
  unfold Rule.recover at ran
  cases left : x s with
  | ok b s₁ =>
    rw [left] at ran
    cases ran
    cases member
    exact read s a s' left
  | error d s₁ =>
    rw [left] at ran
    cases ran
    cases member

end Rule.Returns

/-- A statement that can be a branch or the body of a loop. -/
def IsBranch (s : Stmt) : Prop := s.Regular ∧ s.declared? = none

theorem isBranch_block {body : List Stmt} (regular : ∀ s ∈ body, s.Regular) : IsBranch (.block body) := by
  refine ⟨?_, rfl⟩
  rw [Stmt.Regular]
  exact (statementsRegular_iff body).mpr regular

theorem isBranch_while (condition : Expr) {body : Stmt} (branch : IsBranch body) :
    IsBranch (.while condition body) := by
  refine ⟨?_, rfl⟩
  rw [Stmt.Regular]
  exact branch

theorem isBranch_expression (value : Expr) : IsBranch (.expression value) := by
  refine ⟨?_, rfl⟩
  rw [Stmt.Regular]
  trivial

/-- The blocks that a `for` loop is read as are regular. -/
theorem isBranch_forLoop {initializer : Option Stmt} (condition increment : Option Expr) {body : Stmt}
    (first : ∀ s ∈ initializer, s.Regular) (branch : IsBranch body) :
    IsBranch (.forLoop initializer condition increment body) := by
  have both {s s' : Stmt} (one : s.Regular) (other : s'.Regular) : IsBranch (.block [s, s']) :=
    isBranch_block (List.forall_mem_cons.mpr ⟨one, List.forall_mem_singleton.mpr other⟩)
  have loop {step : Stmt} (branch : IsBranch step) :
      IsBranch (.while (condition.getD (.literal (.bool true))) step) := isBranch_while _ branch
  have step (e : Expr) : IsBranch (.block [body, .expression e]) :=
    both branch.1 (isBranch_expression e).1
  cases initializer with
  | none =>
    cases increment with
    | none => exact loop branch
    | some e => exact loop (step e)
  | some s =>
    cases increment with
    | none => exact both (first s rfl) (loop branch).1
    | some e => exact both (first s rfl) (loop (step e)).1

/-! ### The rules -/

theorem variableDeclaration_regular (n : Nat) : Returns (variableDeclaration n) Stmt.Regular := by
  unfold variableDeclaration
  refine .after fun declared => .after fun initialized => ?_
  have rest (initializer : Option Expr) : Returns (do
      let _ ← expect (.symbol .semicolon) .openVariableDeclaration
      return .var declared initializer) Stmt.Regular := by
    refine .after fun _ => .pure ?_
    rw [Stmt.Regular]
    trivial
  exact .ite (.after rest) (.after rest)

theorem expressionStatement_isBranch (n : Nat) : Returns (expressionStatement n) IsBranch :=
  .after fun value => .after fun _ => .pure (isBranch_expression value)

theorem printStatement_isBranch (n : Nat) : Returns (printStatement n) IsBranch := by
  refine .after fun value => .after fun _ => .pure ⟨?_, rfl⟩
  rw [Stmt.Regular]
  trivial

theorem returnStatement_isBranch (n line : Nat) : Returns (returnStatement n line) IsBranch := by
  refine .after fun value => .after fun _ => .pure ⟨?_, rfl⟩
  rw [Stmt.Regular]
  trivial

theorem forInitializer_regular (n : Nat) :
    Returns (forInitializer n) fun initializer => ∀ s ∈ initializer, s.Regular := by
  have given {x : Rule Stmt} (read : Returns x Stmt.Regular) :
      Returns (do return some (← x)) fun initializer => ∀ s ∈ initializer, s.Regular :=
    read.bind fun s regular => .pure fun _ same => Option.some.inj same ▸ regular
  unfold forInitializer
  refine .after fun empty => .ite (.pure nofun) (.after fun declares => .ite ?_ ?_)
  · exact given (variableDeclaration_regular n)
  · exact given fun s a s' ran => (expressionStatement_isBranch n s a s' ran).1

theorem superclass_isName :
    Returns superclass fun parent => ∀ e ∈ parent, ∃ name id, e = .variable name id :=
  .after fun _ => .ite
    (.after fun name => .after fun id => .pure fun _ same => ⟨name, id, (Option.some.inj same).symm⟩)
    (.pure nofun)

/-- Within the bound `n`, the rules for programs return regular trees. -/
structure ProgramsRegular (n : Nat) : Prop where
  declaration : Returns (declaration n) fun result => ∀ s ∈ result, s.Regular
  classDeclaration : Returns (classDeclaration n) Stmt.Regular
  methods : ∀ done, (∀ d ∈ done, d.Regular) → Returns (methods n done) fun all => ∀ d ∈ all, d.Regular
  function : ∀ kind, Returns (function n kind) FunctionDecl.Regular
  statement : Returns (statement n) IsBranch
  forStatement : Returns (forStatement n) IsBranch
  ifStatement : Returns (ifStatement n) IsBranch
  whileStatement : Returns (whileStatement n) IsBranch
  block : Returns (block n) fun body => ∀ s ∈ body, s.Regular
  declarations : ∀ stop done, (∀ s ∈ done, s.Regular) →
    Returns (declarations n stop done) fun all => ∀ s ∈ all, s.Regular

section Steps

variable {n : Nat} (ih : ProgramsRegular n)

include ih

private theorem declaration_regular :
    Returns (declaration (n + 1)) fun result => ∀ s ∈ result, s.Regular := by
  unfold declaration
  refine .recover (.after fun isClass => .ite ih.classDeclaration (.after fun isFunction => .ite ?_
    (.after fun isVariable => .ite (variableDeclaration_regular n) ?_)))
  · refine (ih.function .function).bind fun d regular => .pure ?_
    rw [Stmt.Regular]
    exact regular
  · exact fun s a s' ran => (ih.statement s a s' ran).1

private theorem classDeclaration_regular : Returns (classDeclaration (n + 1)) Stmt.Regular := by
  unfold classDeclaration
  refine .after fun className => superclass_isName.bind fun parent named => .after fun _ =>
    (ih.methods [] nofun).bind fun methods regular => .after fun _ => .pure ?_
  rw [Stmt.Regular]
  exact ⟨named, (methodsRegular_iff methods).mpr regular⟩

private theorem methods_regular (done : List FunctionDecl) (before : ∀ d ∈ done, d.Regular) :
    Returns (methods (n + 1) done) fun all => ∀ d ∈ all, d.Regular := by
  unfold methods
  refine .after fun closed => .after fun ended => .ite (.pure ?_) ?_
  · exact fun d member => before d (List.mem_reverse.mp member)
  · exact (ih.function .method).bind fun method regular =>
      ih.methods _ (List.forall_mem_cons.mpr ⟨regular, before⟩)

private theorem function_regular (kind : FunctionKind) :
    Returns (function (n + 1) kind) FunctionDecl.Regular := by
  unfold function
  refine .after fun functionName => .after fun _ => .after fun empty => ?_
  have rest (parameters : List Name) : Returns (do
      let _ ← expect (.symbol .rightParen) .openParameterList
      let _ ← expect (.symbol .leftBrace) (.noFunctionBody kind)
      let body ← Grammar.block n
      return (⟨functionName, parameters, body⟩ : FunctionDecl)) FunctionDecl.Regular := by
    refine .after fun _ => .after fun _ => ih.block.bind fun body regular => .pure ?_
    rw [FunctionDecl.Regular]
    exact (statementsRegular_iff body).mpr regular
  exact .ite (.after rest) (.after rest)

private theorem statement_isBranch : Returns (statement (n + 1)) IsBranch := by
  unfold statement
  refine .after fun t => ?_
  split
  · exact .after fun _ => ih.forStatement
  · exact .after fun _ => ih.ifStatement
  · exact .after fun _ => ih.whileStatement
  · exact .after fun _ => returnStatement_isBranch n t.line
  · exact .after fun _ => ih.block.bind fun body regular => .pure (isBranch_block regular)
  · exact .after fun _ => printStatement_isBranch n
  · exact expressionStatement_isBranch n

private theorem forStatement_isBranch : Returns (forStatement (n + 1)) IsBranch := by
  unfold forStatement
  refine .after fun _ => (forInitializer_regular n).bind fun initializer first => ?_
  refine .after fun condition => .after fun _ => .after fun increment => .after fun _ => ?_
  exact ih.statement.bind fun body branch => .pure (isBranch_forLoop condition increment first branch)

private theorem ifStatement_isBranch : Returns (ifStatement (n + 1)) IsBranch := by
  unfold ifStatement
  refine .after fun _ => .after fun condition => .after fun _ => ih.statement.bind fun thenBranch first =>
    .after fun other => .ite (ih.statement.bind fun elseBranch second => .pure ⟨?_, rfl⟩) (.pure ⟨?_, rfl⟩)
  · rw [Stmt.Regular]
    exact ⟨first, second⟩
  · rw [Stmt.Regular]
    exact first

private theorem whileStatement_isBranch : Returns (whileStatement (n + 1)) IsBranch := by
  unfold whileStatement
  exact .after fun _ => .after fun condition => .after fun _ =>
    ih.statement.bind fun body branch => .pure (isBranch_while condition branch)

private theorem declarations_regular (stop : Token.Kind) (done : List Stmt)
    (before : ∀ s ∈ done, s.Regular) :
    Returns (declarations (n + 1) stop done) fun all => ∀ s ∈ all, s.Regular := by
  unfold declarations
  refine .after fun stopped => .after fun ended => .ite (.pure ?_) ?_
  · exact fun s member => before s (List.mem_reverse.mp member)
  · refine ih.declaration.bind fun result regular => ?_
    cases result with
    | none => exact ih.declarations stop done before
    | some s => exact ih.declarations stop _ (List.forall_mem_cons.mpr ⟨regular s rfl, before⟩)

end Steps

/-- By induction on the bound. -/
theorem programs_regular (n : Nat) : ProgramsRegular n := by
  induction n with
  | zero =>
    constructor
    case declaration => exact .recover (.fail .noExpression)
    all_goals intros; exact .fail _
  | succ n ih =>
    exact {
      declaration := declaration_regular ih
      classDeclaration := classDeclaration_regular ih
      methods := methods_regular ih
      function := function_regular ih
      statement := statement_isBranch ih
      forStatement := forStatement_isBranch ih
      ifStatement := ifStatement_isBranch ih
      whileStatement := whileStatement_isBranch ih
      block := (ih.declarations (.symbol .rightBrace) [] nofun).bind fun body regular =>
        .after fun _ => .pure regular
      declarations := declarations_regular ih }

/-- The statements that are read from tokens are regular, also when something is wrong with them. -/
theorem program_regular (tokens : List Token) (firstId : NodeId) :
    statementsRegular (program tokens firstId).result := by
  have read := (programs_regular (depthFor tokens)).declarations .eof [] nofun (State.start tokens firstId)
  rw [statementsRegular_iff, program]
  cases ran : declarations (depthFor tokens) .eof [] (State.start tokens firstId) with
  | ok statements s => exact read statements s ran
  | error d s => exact nofun

end Grammar

end Lox
