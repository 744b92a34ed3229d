import Lox.Proofs.Grammar.PredictExpressions

/-!
# Predicting programs

The rules for statements and declarations read the words of their categories. An `else` goes with the nearest
`if`; a statement may be followed by one only where a longer statement could have been read instead.
-/

namespace Lox

namespace Grammar

open Rule

/-! ### Rules without statements in them -/

section

variable {n b : Nat}

/-- A symbol that ends an expression comes next. -/
theorem heads_closing {L K : Language Token.Kind} {y : Symbol}
    (closing : y ∈ [Symbol.semicolon, .rightParen, .comma]) :
    Heads (single (.symbol y) * L * K) EndsExpression :=
  (starts_with (endsExpression_of_symbol closing)).mul.heads_mul

theorem heads_semicolon {K : Language Token.Kind} :
    Heads (single (.symbol .semicolon) * K) EndsExpression :=
  (starts_with (endsExpression_of_symbol (by decide))).heads_mul

/-- No expression starts with a kind that ends one. -/
theorem heads_expression {K : Language Token.Kind} {y : Symbol}
    (closing : y ∈ [Symbol.semicolon, .rightParen, .comma]) :
    Heads (Category.expression.words * K) (· ≠ .symbol y) :=
  (Category.starts_expression.ne (startsExpression_eq_false closing)).heads_mul

theorem expression_predicts (deep : 32 * b + 15 ≤ n) :
    Predicts b (expression n) Category.expression.words (Heads · EndsExpression) :=
  (expressions_predict n).expression b deep

theorem optionalValue_predicts {y : Symbol} (closing : y ∈ [Symbol.semicolon, .rightParen, .comma])
    (deep : 32 * b + 15 ≤ n) :
    Predicts b (optionalValue n (.symbol y)) (1 + Category.expression.words) (Heads · (· = .symbol y)) := by
  unfold optionalValue
  refine .sees (fun _ => heads_one_mul) (fun _ _ => heads_expression closing) (.pure _)
    (.bind_last (.imp (expression_predicts deep) fun K heads => heads.imp ?_) fun _ => .pure _)
  rintro _ rfl
  exact endsExpression_of_symbol closing

theorem variableDeclaration_predicts (deep : 32 * b + 15 ≤ n) :
    Predicts b (variableDeclaration n) Category.variableDeclaration.rest fun _ => True := by
  unfold variableDeclaration
  rw [Category.rest_variableDeclaration]
  refine .name rfl fun declared => .accept (fun _ _ => (starts_with (by decide)).heads_mul) ?_
    (.expect_last rfl fun _ => .pure _)
  exact .bind (.map _ (expression_predicts (by omega))) (fun _ _ => heads_semicolon) fun _ =>
    .expect_last rfl fun _ => .pure _

theorem expressionStatement_predicts (deep : 32 * b + 15 ≤ n) :
    Predicts b (expressionStatement n) Category.expressionStatement.words fun _ => True := by
  unfold expressionStatement
  rw [Category.words_expressionStatement]
  exact (expression_predicts deep).bind (fun _ _ => heads_semicolon) fun _ =>
    .expect_last rfl fun _ => .pure _

theorem printStatement_predicts (deep : 32 * b + 15 ≤ n) :
    Predicts b (printStatement n) Category.printStatement.rest fun _ => True := by
  unfold printStatement
  rw [Category.rest_printStatement]
  exact (expression_predicts deep).bind (fun _ _ => heads_semicolon) fun _ =>
    .expect_last rfl fun _ => .pure _

theorem returnStatement_predicts (line : Nat) (deep : 32 * b + 15 ≤ n) :
    Predicts b (returnStatement n line) Category.returnStatement.rest fun _ => True := by
  unfold returnStatement
  rw [Category.rest_returnStatement]
  exact (optionalValue_predicts (by decide) deep).bind (fun _ _ => (starts_single _).heads_mul) fun _ =>
    .expect_last rfl fun _ => .pure _

theorem parameters_predict (done : List Name) (deep : b ≤ n) :
    Predicts b (parameters n done) (Phrase.list Phrase.name).words (Heads · (· = .symbol .rightParen)) := by
  induction n generalizing b done with
  | zero =>
    obtain rfl : b = 0 := by omega
    exact .zero _
  | succ n ih =>
    have single : Predicts b (name .noParameterName) Phrase.name.words fun _ => True := by
      rw [Phrase.words_name, ← bind_pure (name _)]
      exact .name_last rfl fun _ => .pure _
    unfold parameters
    refine .ite (.peek fun t => .note rfl fun _ => ?_) ?_
    all_goals exact list_predicts single (fun _ _ => trivial) fun parameter => ih _ (by omega)

theorem forInitializer_predicts (deep : 32 * b + 15 ≤ n) :
    Predicts b (forInitializer n) (single (.symbol .semicolon) +
      (single (.keyword .var) * Category.variableDeclaration.rest + Category.expressionStatement.words))
      fun _ => True := by
  have starts := Category.starts_expressionStatement
  unfold forInitializer
  rw [← mul_one (single (.symbol .semicolon))]
  refine .accept (fun K _ => ?_) (.pure _) (.accept (fun K _ => (starts.ne rfl).heads_mul) ?_ ?_)
  · exact (Starts.add (.mul (starts_with (by decide))) (starts.ne rfl)).heads_mul
  · exact (variableDeclaration_predicts (by omega)).bind_last fun _ => .pure _
  · exact (expressionStatement_predicts deep).bind_last fun _ => .pure _

theorem superclass_predicts :
    Predicts b superclass (single (.symbol .less) * single .identifier + 1)
      (Heads · (· ≠ .symbol .less)) := by
  unfold superclass
  exact .accept (fun _ => heads_one_mul) (.name_last rfl fun _ => .freshId fun _ => .pure _) (.pure _)

end

/-! ### Rules with statements in them -/

/-- Where an `else` may follow a statement, what comes with it can be read as following the `else`. -/
def LeavesElse (K : Language Token.Kind) : Prop :=
  ∀ z, .keyword .else :: z ∈ K → z ∈ Category.statement.words * K

/-- So it is between the branches of an `if`. -/
theorem LeavesElse.inner {K : Language Token.Kind} (leaves : LeavesElse K) :
    LeavesElse ((single (.keyword .else) * Category.statement.words + 1) * K) := by
  intro z member
  rw [add_mul, one_mul, mul_assoc] at member ⊢
  have inside : z ∈ Category.statement.words * K :=
    member.elim (fun taken => (cons_mem_single_mul.mp taken).2) (leaves z)
  rw [mul_add]
  exact .inr inside

/-- The rules at the depth `n`, each on as many tokens as it is deep enough for. -/
structure ProgramsPredict (n : Nat) : Prop where
  declaration (b : Nat) (deep : 32 * b + 18 ≤ n) :
    Predicts b (declaration n) Category.declaration.words (Heads · (· ≠ .keyword .else))
  classDeclaration (b : Nat) (deep : 32 * b + 20 ≤ n) :
    Predicts b (classDeclaration n) Category.classDeclaration.rest fun _ => True
  methods (done : List FunctionDecl) (b : Nat) (deep : 32 * b + 19 ≤ n) :
    Predicts b (methods n done) (Phrase.many (.the .function)).words (Heads · (· = .symbol .rightBrace))
  function (kind : FunctionKind) (b : Nat) (deep : 32 * b + 1 ≤ n) :
    Predicts b (function n kind) Category.function.words fun _ => True
  statement (b : Nat) (deep : 32 * b + 17 ≤ n) :
    Predicts b (statement n) Category.statement.words LeavesElse
  forStatement (b : Nat) (deep : 32 * b + 18 ≤ n) :
    Predicts b (forStatement n) Category.forStatement.rest LeavesElse
  ifStatement (b : Nat) (deep : 32 * b + 18 ≤ n) :
    Predicts b (ifStatement n) Category.ifStatement.rest LeavesElse
  whileStatement (b : Nat) (deep : 32 * b + 18 ≤ n) :
    Predicts b (whileStatement n) Category.whileStatement.rest LeavesElse
  block (b : Nat) (deep : 32 * b + 20 ≤ n) :
    Predicts b (block n) Category.block.rest fun _ => True
  declarations (stop : Token.Kind) (done : List Stmt) (outside : startsDeclaration stop = false)
    (notElse : stop ≠ .keyword .else) (b : Nat) (deep : 32 * b + 19 ≤ n) :
    Predicts b (declarations n stop done) (Phrase.many (.the .declaration)).words (Heads · (· = stop))

namespace ProgramsPredict

variable {n b : Nat} (below : ProgramsPredict n)

include below

theorem declaration_next (deep : 32 * b + 18 ≤ n + 1) :
    Predicts b (Grammar.declaration (n + 1)) Category.declaration.words (Heads · (· ≠ .keyword .else)) := by
  obtain rfl | some := b.eq_zero_or_pos
  · exact .zero _
  unfold Grammar.declaration
  rw [Category.words_declaration]
  have starts := Category.starts_statement
  refine .recover (.accept (fun _ _ => Starts.heads_mul ?_) (below.classDeclaration _ (by omega)).any
    (.accept (fun _ _ => Starts.heads_mul ?_) ?_ (.accept (fun _ _ => (starts.ne rfl).heads_mul)
      (variableDeclaration_predicts (by omega)).any ?_)))
  · exact .add (.mul (starts_with (by decide))) (.add (.mul (starts_with (by decide))) (starts.ne rfl))
  · exact .add (.mul (starts_with (by decide))) (starts.ne rfl)
  · exact (below.function .function _ (by omega)).any.bind_last fun _ => .pure _
  · exact (below.statement b (by omega)).imp fun K heads z member => absurd rfl (heads _ z member)

theorem classDeclaration_next (deep : 32 * b + 20 ≤ n + 1) :
    Predicts b (Grammar.classDeclaration (n + 1)) Category.classDeclaration.rest fun _ => True := by
  unfold Grammar.classDeclaration
  rw [Category.rest_classDeclaration]
  refine .name rfl fun className => .bind superclass_predicts
    (fun _ _ => (starts_with (by decide)).mul.heads_mul) fun parent => .expect rfl fun _ => ?_
  exact (below.methods [] _ (by omega)).bind (fun _ _ => (starts_single _).heads_mul) fun methods =>
    .expect_last rfl fun _ => .pure _

theorem methods_next (done : List FunctionDecl) (deep : 32 * b + 19 ≤ n + 1) :
    Predicts b (Grammar.methods (n + 1) done) (Phrase.many (.the .function)).words
      (Heads · (· = .symbol .rightBrace)) := by
  obtain rfl | some := b.eq_zero_or_pos
  · exact .zero _
  have starts := Category.starts_function
  unfold Grammar.methods
  rw [Phrase.words_many, Phrase.words_the]
  refine .until_kind (fun _ heads => heads) (fun K _ => starts.mul.heads_mul.imp ?_) (.pure _) ?_
  · rintro _ rfl
    exact ⟨by decide, by decide⟩
  · exact (below.function .method b (by omega)).bind_past starts.filled (fun _ _ => trivial) fun method =>
      below.methods _ _ (by omega)

theorem function_next (kind : FunctionKind) (deep : 32 * b + 1 ≤ n + 1) :
    Predicts b (Grammar.function (n + 1) kind) Category.function.words fun _ => True := by
  obtain rfl | some := b.eq_zero_or_pos
  · exact .zero _
  have parameters : Starts (Phrase.list Phrase.name).words (· ≠ .symbol .rightParen) :=
    Category.starts_list (Phrase.words_name ▸ starts_with (by decide))
  have body (c : Nat) (fewer : c < b) (g : List Stmt → FunctionDecl) : Predicts c (do
      let _ ← expect (.symbol .rightParen) .openParameterList
      let _ ← expect (.symbol .leftBrace) (.noFunctionBody kind)
      let body ← Grammar.block n
      return g body) (single (.symbol .rightParen) * (single (.symbol .leftBrace) * Category.block.rest))
      fun _ => True :=
    .expect rfl fun _ => .expect rfl fun _ => (below.block _ (by omega)).bind_last fun _ => .pure _
  unfold Grammar.function
  rw [Category.words_function]
  refine .name rfl fun functionName => .expect rfl fun _ => .sees (fun _ _ => (starts_single _).mul.heads_mul)
    (fun _ _ => parameters.mul.heads_mul) ?_ ?_
  · exact body _ (by omega) _
  · exact (parameters_predict [] (by omega)).bind (fun _ _ => (starts_single _).mul.heads_mul) fun _ =>
      body _ (by omega) _

theorem statement_next (deep : 32 * b + 17 ≤ n + 1) :
    Predicts b (Grammar.statement (n + 1)) Category.statement.words LeavesElse := by
  obtain rfl | some := b.eq_zero_or_pos
  · exact .zero _
  unfold Grammar.statement
  refine .peeked fun t => ?_
  have take {f : Unit → Rule Stmt} (inner : t.kind ≠ .eof) (other : startsExpression t.kind = false)
      (next : Predicts (b - 1) (f ()) (Category.afterOther t.kind) LeavesElse) :
      PredictsAt t b (Rule.take >>= f) Category.statement.words LeavesElse :=
    .take next inner Category.starts_statement.filled fun w => Category.cons_mem_statement other
  split <;> rename_i seen
  case h_7 =>
    -- no other statement starts with this token
    let firsts : List Token.Kind := [.keyword .for, .keyword .if, .keyword .print, .keyword .return,
      .keyword .while, .symbol .leftBrace]
    have among {k : Token.Kind} (member : k ∈ firsts) (L : Language Token.Kind) :
        Starts (single k * L) (· ∈ firsts) := (starts_with member).mul
    rw [Category.words_statement]
    refine .left ((expressionStatement_predicts (by omega)).any.at_head t) (fun K _ => Starts.heads_mul
      (.add (among ?_ _) <| .add (among ?_ _) <| .add (among ?_ _) <| .add (among ?_ _) <|
        .add (among ?_ _) (among ?_ _))) ?_
    all_goals simp_all [firsts]
  all_goals
    refine take (by simp [seen]) (by rw [seen]; rfl) ?_
    rw [seen]
  case h_1 => exact below.forStatement _ (by omega)
  case h_2 => exact below.ifStatement _ (by omega)
  case h_3 => exact below.whileStatement _ (by omega)
  case h_4 => exact (returnStatement_predicts t.line (by omega)).any
  case h_5 => exact (below.block _ (by omega)).any.bind_last fun _ => .pure _
  case h_6 => exact (printStatement_predicts (by omega)).any

theorem forStatement_next (deep : 32 * b + 18 ≤ n + 1) :
    Predicts b (Grammar.forStatement (n + 1)) Category.forStatement.rest LeavesElse := by
  unfold Grammar.forStatement
  rw [Category.rest_forStatement]
  refine .expect rfl fun _ => ?_
  refine (forInitializer_predicts (by omega)).bind (fun _ _ => trivial) fun initializer => ?_
  refine .bind (optionalValue_predicts (by decide) (by omega)) (fun _ _ => (starts_single _).mul.heads_mul)
    fun condition => .expect rfl fun _ => ?_
  refine .bind (optionalValue_predicts (by decide) (by omega)) (fun _ _ => (starts_single _).mul.heads_mul)
    fun increment => .expect rfl fun _ => ?_
  exact (below.statement _ (by omega)).bind_last fun body => .pure _

theorem ifStatement_next (deep : 32 * b + 18 ≤ n + 1) :
    Predicts b (Grammar.ifStatement (n + 1)) Category.ifStatement.rest LeavesElse := by
  unfold Grammar.ifStatement
  rw [Category.rest_ifStatement]
  refine .expect rfl fun _ => (expression_predicts (by omega)).bind (fun _ _ => heads_closing (by decide))
    fun condition => .expect rfl fun _ => ?_
  refine (below.statement _ (by omega)).bind (fun _ leaves => leaves.inner) fun thenBranch => ?_
  -- an `else` could belong further out as well, but what may follow it is the same there
  refine .accept_first (fun K leaves z member => leaves z (one_mul K ▸ member)) ?_ (.pure _)
  exact (below.statement _ (by omega)).bind_last fun _ => .pure _

theorem whileStatement_next (deep : 32 * b + 18 ≤ n + 1) :
    Predicts b (Grammar.whileStatement (n + 1)) Category.whileStatement.rest LeavesElse := by
  unfold Grammar.whileStatement
  rw [Category.rest_whileStatement]
  refine .expect rfl fun _ => (expression_predicts (by omega)).bind (fun _ _ => heads_closing (by decide))
    fun condition => .expect rfl fun _ => ?_
  exact (below.statement _ (by omega)).bind_last fun body => .pure _

theorem block_next (deep : 32 * b + 20 ≤ n + 1) :
    Predicts b (Grammar.block (n + 1)) Category.block.rest fun _ => True := by
  unfold Grammar.block
  rw [Category.rest_block]
  exact (below.declarations (.symbol .rightBrace) [] rfl (by decide) b (by omega)).bind
    (fun _ _ => (starts_single _).heads_mul) fun body => .expect_last rfl fun _ => .pure _

theorem declarations_next (stop : Token.Kind) (done : List Stmt) (outside : startsDeclaration stop = false)
    (notElse : stop ≠ .keyword .else) (deep : 32 * b + 19 ≤ n + 1) :
    Predicts b (Grammar.declarations (n + 1) stop done) (Phrase.many (.the .declaration)).words
      (Heads · (· = stop)) := by
  obtain rfl | some := b.eq_zero_or_pos
  · exact .zero _
  have starts := Category.starts_declaration
  have later (done : List Stmt) := below.declarations stop done outside notElse (b - 1) (by omega)
  unfold Grammar.declarations
  rw [Phrase.words_many, Phrase.words_the]
  refine .until_kind (fun _ heads => heads)
    (fun _ _ => starts.mul.heads_mul.imp fun k good => ⟨?_, ?_⟩) (.pure _) (.bind_past
      (h := fun a => by cases a <;> infer_instance) (below.declaration b (by omega)) starts.filled
      (fun K heads => ?_) fun declared => ?_)
  · rintro rfl
    rw [outside] at good
    cases good
  · rintro rfl
    cases good
  · -- what follows a declaration is another one or `stop`, neither of which is an `else`
    rw [Phrase.words_many, Phrase.words_the, add_mul]
    refine .add (heads_one_mul (heads.imp ?_)) (starts.ne rfl).mul.heads_mul
    rintro _ rfl
    exact notElse
  · cases declared with
    | none => exact later _
    | some _ => exact later _

end ProgramsPredict

theorem programs_predict (n : Nat) : ProgramsPredict n := by
  induction n with
  | zero =>
    constructor
    all_goals
      intros
      omega
  | succ n below => exact {
      declaration := fun b => below.declaration_next
      classDeclaration := fun b => below.classDeclaration_next
      methods := fun done b => below.methods_next done
      function := fun kind b => below.function_next kind
      statement := fun b => below.statement_next
      forStatement := fun b => below.forStatement_next
      ifStatement := fun b => below.ifStatement_next
      whileStatement := fun b => below.whileStatement_next
      block := fun b => below.block_next
      declarations := fun stop done outside notElse b => below.declarations_next stop done outside notElse }

end Grammar

end Lox
