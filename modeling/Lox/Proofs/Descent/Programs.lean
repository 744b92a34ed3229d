import Lox.Proofs.Descent.Expressions
import Lox.Proofs.Grammar.MirrorPrograms

/-!
# Programs come to an end

With enough depth for the tokens left, the rules for programs and the walks of the same names agree. A loop over
declarations comes to an end because each declaration takes a token, also one that fails.
-/

namespace Lox

namespace Descent

open Grammar (State Rule Inner)

section

variable {n : Nat} {c : Cursor} {s : State} (at_ : Represents c s)

include at_

theorem optionalValue_follows (stop : Token.Kind) [Inner stop] (enough : Enough s 15 n) :
    Follows (optionalValue n stop) (Grammar.optionalValue n stop) c s := by
  refine .check at_ fun c₁ at₁ => ?_
  split
  · exact .pure at₁ none
  · exact ((expressions_follow n).expression at₁ enough).bind fun e _ _ _ at₂ => .pure at₂ (some e)

theorem variableDeclaration_follows (enough : Enough s 15 n) :
    Follows (variableDeclaration n) (Grammar.variableDeclaration n) c s := by
  have rest (declared : Name) (initializer : Option Expr) {s₁ : State} {c₁ : Cursor}
      (at₁ : Represents c₁ s₁) : Follows (do
        let _ ← consume (.symbol .semicolon) .openVariableDeclaration
        return Stmt.var declared initializer) (do
        let _ ← Rule.expect (.symbol .semicolon) .openVariableDeclaration
        return Stmt.var declared initializer) c₁ s₁ :=
    (Follows.consume at₁ _ _).bind fun _ _ _ _ at₂ => .pure at₂ _
  refine (Follows.name at_ _).bind fun declared s₁ c₁ ran at₁ => ?_
  refine .accepts at₁ (fun _ c₂ at₂ _ => ?_) fun _ c₂ at₂ => rest declared none at₂
  have fewer := Nat.lt_trans at₁.taken_lt (Rule.Takes.fewer s declared s₁ ran)
  have value := (expressions_follow n).expression at₂ (by omega)
  exact (value.map some).bind fun initializer _ _ _ at₃ => rest declared initializer at₃

theorem expressionStatement_follows (enough : Enough s 15 n) :
    Follows (expressionStatement n) (Grammar.expressionStatement n) c s :=
  ((expressions_follow n).expression at_ enough).bind fun _ _ _ _ at₁ =>
    (Follows.consume at₁ _ _).bind fun _ _ _ _ at₂ => .pure at₂ _

theorem printStatement_follows (enough : Enough s 15 n) :
    Follows (printStatement n) (Grammar.printStatement n) c s :=
  ((expressions_follow n).expression at_ enough).bind fun _ _ _ _ at₁ =>
    (Follows.consume at₁ _ _).bind fun _ _ _ _ at₂ => .pure at₂ _

/-- The keyword is the token before. -/
theorem returnStatement_follows {keyword : Token} (prior : Prior c keyword) (enough : Enough s 15 n) :
    Follows (returnStatement n) (Grammar.returnStatement n keyword.line) c s :=
  .previous at_ prior fun _ at₁ _ => (optionalValue_follows at₁ _ enough).bind fun _ _ _ _ at₂ =>
    (Follows.consume at₂ _ _).bind fun _ _ _ _ at₃ => .pure at₃ _

theorem parameters_follows (done : List Name) (enough : Enough s 1 n) :
    Follows (parameters n done) (Grammar.parameters n done) c s := by
  induction n generalizing c s done with
  | zero => omega
  | succ n ih =>
    have rest {s₁ : State} {c₁ : Cursor} (at₁ : Represents c₁ s₁) (same : s₁.rest = s.rest) :
        Follows (do
          let parameter ← name .noParameterName
          if ← accepts (.symbol .comma) then parameters n (parameter :: done)
          else return (parameter :: done).reverse) (do
          let parameter ← Rule.name .noParameterName
          if ← Rule.accept (.symbol .comma) then Grammar.parameters n (parameter :: done)
          else return (parameter :: done).reverse) c₁ s₁ := by
      refine (Follows.name at₁ _).bind fun parameter s₂ c₂ ran at₂ => ?_
      refine .accepts at₂ (fun _ c₃ at₃ _ => ?_) fun _ c₃ at₃ => .pure at₃ _
      have fewer := Nat.lt_trans at₂.taken_lt (Rule.Takes.fewer s₁ _ s₂ ran)
      rw [same] at fewer
      exact ih at₃ _ (enough.later fewer (by decide))
    rw [parameters, Grammar.parameters]
    split
    · refine .rests at_ at_.peek fun c₁ _ at₁ => .peek ?_
      exact (Follows.report at₁ _).bind fun _ _ c₂ ran at₂ => by
        cases ran
        exact rest at₂ rfl
    · exact rest at_ rfl

theorem forInitializer_follows (enough : Enough s 15 n) :
    Follows (forInitializer n) (Grammar.forInitializer n) c s := by
  refine .accepts at_ (fun _ c₁ at₁ _ => .pure at₁ none) fun _ c₁ at₁ => ?_
  refine .accepts at₁ (fun _ c₂ at₂ _ => ?_) fun _ c₂ at₂ => ?_
  · have fewer := at₁.taken_lt
    exact (variableDeclaration_follows at₂ (by omega)).bind fun _ _ _ _ at₃ => .pure at₃ _
  · exact (expressionStatement_follows at₂ enough).bind fun _ _ _ _ at₃ => .pure at₃ _

omit at_ in
theorem superclass_follows (at_ : Represents c s) : Follows superclass Grammar.superclass c s :=
  .accepts at_
    (fun _ _ at₁ _ => (Follows.name at₁ _).bind fun _ _ _ _ at₂ =>
      (Follows.freshId at₂).bind fun _ _ _ _ at₃ => .pure at₃ _)
    fun _ _ at₁ => .pure at₁ none

/-- A loop is over at a token of the closing kind and at the end. -/
theorem Represents.isOver (closing : Option Token.Kind) (inner : .eof ∉ closing) :
    Rests (isOver closing) c (s.head.kind = closing.getD .eof || s.atEnd) := by
  cases closing with
  | none =>
    have same : (decide (s.head.kind = .eof) || s.atEnd) = s.atEnd := Bool.or_self _
    rw [Option.getD_none, same]
    exact at_.isAtEnd
  | some kind =>
    have : Inner kind := ⟨fun eof => inner (congrArg some eof)⟩
    obtain ⟨c₁, goes, stays⟩ := at_.check kind
    rw [Option.getD_some]
    by_cases closes : s.head.kind = kind
    · rw [decide_eq_true closes] at goes ⊢
      exact ⟨c₁, goes.bind (.pure true c₁), stays⟩
    · rw [decide_eq_false closes] at goes ⊢
      obtain ⟨c₂, goes', stays'⟩ := (at_.stays stays).isAtEnd
      exact ⟨c₂, goes.bind goes', stays.trans stays'⟩

end

/-- Within the bound `n`, what the rules for programs do from places that leave enough of it. -/
structure ProgramsFollow (n : Nat) : Prop where
  declaration {c s} : Represents c s → s.head.kind ≠ .eof → Enough s 17 n →
    Keeps (declaration n) (Grammar.declaration n) c s
  classDeclaration {c s} : Represents c s → Enough s 1 n →
    Follows (classDeclaration n) (Grammar.classDeclaration n) c s
  methods (done) {c s} : Represents c s → Enough s 2 n →
    Follows (methods n done) (Grammar.methods n done) c s
  function (kind) {c s} : Represents c s → Enough s 1 n →
    Follows (function n kind) (Grammar.function n kind) c s
  statement {c s} : Represents c s → Enough s 16 n → Follows (statement n) (Grammar.statement n) c s
  forStatement {c s} : Represents c s → Enough s 1 n →
    Follows (forStatement n) (Grammar.forStatement n) c s
  ifStatement {c s} : Represents c s → Enough s 1 n →
    Follows (ifStatement n) (Grammar.ifStatement n) c s
  whileStatement {c s} : Represents c s → Enough s 1 n →
    Follows (whileStatement n) (Grammar.whileStatement n) c s
  block {c s} : Represents c s → Enough s 19 n → Follows (block n) (Grammar.block n) c s
  declarations (closing done) {c s} : .eof ∉ closing → Represents c s → Enough s 18 n →
    Keeps (declarations n closing done) (Grammar.declarations n (closing.getD .eof) done) c s

section Steps

variable {n : Nat} (ih : ProgramsFollow n) {c : Cursor} {s : State} (at_ : Represents c s)

include ih at_

private theorem declaration_follows (started : s.head.kind ≠ .eof) (enough : Enough s 17 (n + 1)) :
    Keeps (declaration (n + 1)) (Grammar.declaration (n + 1)) c s := by
  rw [declaration, Grammar.declaration]
  refine Follows.recovering ?_ at_ started (by omega)
  have later : Enough (taken s) 15 n := enough.later at_.taken_lt (by decide)
  refine .accepts at_ (fun _ c₁ at₁ _ => ih.classDeclaration at₁ (by omega)) fun _ c₁ at₁ => ?_
  refine .accepts at₁ (fun _ c₂ at₂ _ => ?_) fun _ c₂ at₂ => ?_
  · exact (ih.function .function at₂ (by omega)).bind fun _ _ _ _ at₃ => .pure at₃ _
  · refine .accepts at₂ (fun _ c₃ at₃ _ => variableDeclaration_follows at₃ later) fun _ c₃ at₃ => ?_
    exact ih.statement at₃ (enough.below (by decide))

private theorem classDeclaration_follows (enough : Enough s 1 (n + 1)) :
    Follows (classDeclaration (n + 1)) (Grammar.classDeclaration (n + 1)) c s := by
  rw [classDeclaration, Grammar.classDeclaration]
  refine (Follows.name at_ _).bind fun className s₁ c₁ ran at₁ => ?_
  refine (superclass_follows at₁).bind fun parent s₂ c₂ ran' at₂ => ?_
  refine (Follows.consume at₂ _ _).bind fun _ s₃ c₃ ran'' at₃ => ?_
  have fewer := Rule.Takes.fewer s _ s₁ ran
  have fewer' := (Rule.Advances.ok ran').rest.length_le
  have fewer'' := Rule.Takes.fewer s₂ _ s₃ ran''
  refine (ih.methods [] at₃ (by omega)).bind fun methods s₄ c₄ _ at₄ => ?_
  exact (Follows.consume at₄ _ _).bind fun _ _ _ _ at₅ => .pure at₅ _

private theorem methods_follows (done : List FunctionDecl) (enough : Enough s 2 (n + 1)) :
    Follows (methods (n + 1) done) (Grammar.methods (n + 1) done) c s := by
  rw [methods, Grammar.methods]
  refine .rests at_ (at_.isOver (some (.symbol .rightBrace)) (by simp)) fun c₁ _ at₁ => ?_
  rw [Option.getD_some]
  refine .sees (.ended ?_)
  split
  · exact .pure at₁ _
  · refine (ih.function .method at₁ (enough.below (by decide))).bind fun method s₁ c₂ ran at₂ => ?_
    exact ih.methods _ at₂ (enough.later (Rule.Takes.fewer s method s₁ ran) (by decide))

private theorem function_follows (kind : FunctionKind) (enough : Enough s 1 (n + 1)) :
    Follows (function (n + 1) kind) (Grammar.function (n + 1) kind) c s := by
  rw [function, Grammar.function]
  refine (Follows.name at_ _).bind fun functionName s₁ c₁ ran at₁ => ?_
  refine (Follows.consume at₁ _ _).bind fun _ s₂ c₂ ran' at₂ => ?_
  have fewer := Rule.Takes.fewer s _ s₁ ran
  have fewer' := Rule.Takes.fewer s₁ _ s₂ ran'
  have rest (parameters : List Name) {s₃ : State} {c₃ : Cursor} (at₃ : Represents c₃ s₃)
      (fewer : s₃.rest.length < s.rest.length) : Follows (do
        let _ ← consume (.symbol .rightParen) .openParameterList
        let _ ← consume (.symbol .leftBrace) (.noFunctionBody kind)
        let body ← block n
        return (⟨functionName, parameters, body⟩ : FunctionDecl)) (do
        let _ ← Rule.expect (.symbol .rightParen) .openParameterList
        let _ ← Rule.expect (.symbol .leftBrace) (.noFunctionBody kind)
        let body ← Grammar.block n
        return ⟨functionName, parameters, body⟩) c₃ s₃ := by
    refine (Follows.consume at₃ _ _).bind fun _ s₄ c₄ ran at₄ => ?_
    refine (Follows.consume at₄ _ _).bind fun _ s₅ c₅ ran' at₅ => ?_
    have fewer' := Rule.Takes.fewer s₃ _ s₄ ran
    have fewer'' := Rule.Takes.fewer s₄ _ s₅ ran'
    exact (ih.block at₅ (by omega)).bind fun _ _ _ _ at₆ => .pure at₆ _
  refine .check at₂ fun c₃ at₃ => ?_
  split
  · exact rest [] at₃ (by omega)
  · refine (parameters_follows at₃ [] (by omega)).bind fun parameters s₄ c₄ ran at₄ => ?_
    have fewer'' := (Rule.Advances.ok ran).rest.length_le
    exact rest parameters at₄ (by omega)

private theorem statement_follows (enough : Enough s 16 (n + 1)) :
    Follows (statement (n + 1)) (Grammar.statement (n + 1)) c s := by
  rw [statement, Grammar.statement]
  have fewer := at_.taken_lt
  refine .peek ?_
  split
  -- each kind is compared with those before it in vain
  case h_1 kind => exact .accepts_take at_ kind fun _ at₁ _ => ih.forStatement at₁ (by omega)
  case h_2 kind =>
    refine .refuses at_ (by simp [kind]) fun _ at_ => ?_
    exact .accepts_take at_ kind fun _ at₁ _ => ih.ifStatement at₁ (by omega)
  case h_3 kind =>
    iterate 2 refine .refuses at_ (by simp [kind]) fun _ at_ => ?_
    exact .accepts_take at_ kind fun _ at₁ _ => ih.whileStatement at₁ (by omega)
  case h_4 kind =>
    iterate 3 refine .refuses at_ (by simp [kind]) fun _ at_ => ?_
    exact .accepts_take at_ kind fun _ at₁ prior => returnStatement_follows at₁ prior (by omega)
  case h_5 kind =>
    iterate 4 refine .refuses at_ (by simp [kind]) fun _ at_ => ?_
    refine .accepts_take at_ kind fun _ at₁ _ => ?_
    exact (ih.block at₁ (by omega)).bind fun _ _ _ _ at₂ => .pure at₂ _
  case h_6 kind =>
    iterate 5 refine .refuses at_ (by simp [kind]) fun _ at_ => ?_
    exact .accepts_take at_ kind fun _ at₁ _ => printStatement_follows at₁ (by omega)
  case h_7 =>
    iterate 6 refine .refuses at_ ‹_› fun _ at_ => ?_
    exact expressionStatement_follows at_ (by omega)

private theorem forStatement_follows (enough : Enough s 1 (n + 1)) :
    Follows (forStatement (n + 1)) (Grammar.forStatement (n + 1)) c s := by
  rw [forStatement, Grammar.forStatement]
  refine (Follows.consume at_ _ _).bind fun _ s₁ c₁ ran₁ at₁ => ?_
  have fewer₁ := Rule.Takes.fewer s _ s₁ ran₁
  refine (forInitializer_follows at₁ (by omega)).bind fun initializer s₂ c₂ ran₂ at₂ => ?_
  have fewer₂ := (Rule.Advances.ok ran₂).rest.length_le
  refine (optionalValue_follows at₂ _ (by omega)).bind fun condition s₃ c₃ ran₃ at₃ => ?_
  have fewer₃ := (Rule.Advances.ok ran₃).rest.length_le
  refine (Follows.consume at₃ _ _).bind fun _ s₄ c₄ ran₄ at₄ => ?_
  have fewer₄ := (Rule.Advances.ok ran₄).rest.length_le
  refine (optionalValue_follows at₄ _ (by omega)).bind fun increment s₅ c₅ ran₅ at₅ => ?_
  have fewer₅ := (Rule.Advances.ok ran₅).rest.length_le
  refine (Follows.consume at₅ _ _).bind fun _ s₆ c₆ ran₆ at₆ => ?_
  have fewer₆ := (Rule.Advances.ok ran₆).rest.length_le
  exact (ih.statement at₆ (by omega)).bind fun _ _ _ _ at₇ => .pure at₇ _

private theorem ifStatement_follows (enough : Enough s 1 (n + 1)) :
    Follows (ifStatement (n + 1)) (Grammar.ifStatement (n + 1)) c s := by
  rw [ifStatement, Grammar.ifStatement]
  refine (Follows.consume at_ _ _).bind fun _ s₁ c₁ ran₁ at₁ => ?_
  have fewer₁ := Rule.Takes.fewer s _ s₁ ran₁
  refine ((expressions_follow n).expression at₁ (by omega)).bind fun condition s₂ c₂ ran₂ at₂ => ?_
  have fewer₂ := (Rule.Advances.ok ran₂).rest.length_le
  refine (Follows.consume at₂ _ _).bind fun _ s₃ c₃ ran₃ at₃ => ?_
  have fewer₃ := (Rule.Advances.ok ran₃).rest.length_le
  refine (ih.statement at₃ (by omega)).bind fun thenBranch s₄ c₄ ran₄ at₄ => ?_
  have fewer₄ := (Rule.Advances.ok ran₄).rest.length_le
  refine .accepts at₄ (fun _ c₅ at₅ _ => ?_) fun _ c₅ at₅ => .pure at₅ _
  have fewer₅ := at₄.taken_lt
  exact (ih.statement at₅ (by omega)).bind fun _ _ _ _ at₆ => .pure at₆ _

private theorem whileStatement_follows (enough : Enough s 1 (n + 1)) :
    Follows (whileStatement (n + 1)) (Grammar.whileStatement (n + 1)) c s := by
  rw [whileStatement, Grammar.whileStatement]
  refine (Follows.consume at_ _ _).bind fun _ s₁ c₁ ran₁ at₁ => ?_
  have fewer₁ := Rule.Takes.fewer s _ s₁ ran₁
  refine ((expressions_follow n).expression at₁ (by omega)).bind fun condition s₂ c₂ ran₂ at₂ => ?_
  have fewer₂ := (Rule.Advances.ok ran₂).rest.length_le
  refine (Follows.consume at₂ _ _).bind fun _ s₃ c₃ ran₃ at₃ => ?_
  have fewer₃ := (Rule.Advances.ok ran₃).rest.length_le
  exact (ih.statement at₃ (by omega)).bind fun _ _ _ _ at₄ => .pure at₄ _

private theorem block_follows (enough : Enough s 19 (n + 1)) :
    Follows (block (n + 1)) (Grammar.block (n + 1)) c s := by
  obtain ⟨body, s₁, c₁, ran, goes, at₁⟩ :=
    ih.declarations (some (.symbol .rightBrace)) [] (by simp) at_ (enough.below (by decide))
  rw [Option.getD_some] at ran
  rw [block, Grammar.block]
  refine Follows.keeps ⟨body, s₁, c₁, ran, goes, at₁⟩ fun a s₂ c₂ _ at₂ => ?_
  exact (Follows.consume at₂ _ _).bind fun _ _ _ _ at₃ => .pure at₃ _

private theorem declarations_follows (closing : Option Token.Kind) (inner : .eof ∉ closing)
    (done : List Stmt) (enough : Enough s 18 (n + 1)) :
    Keeps (declarations (n + 1) closing done) (Grammar.declarations (n + 1) (closing.getD .eof) done)
      c s := by
  rw [declarations, Keeps, Grammar.declarations_succ]
  obtain ⟨c₁, looks, stays⟩ := at_.isOver closing inner
  have at₁ := at_.stays stays
  by_cases finished : s.head.kind = closing.getD .eof ∨ s.head.kind = .eof
  · have stop : (decide (s.head.kind = closing.getD .eof) || s.atEnd) = true := by
      simpa [State.atEnd] using finished
    rw [stop] at looks
    exact ⟨done.reverse, s, c₁, if_pos finished, looks.bind (.pure _ c₁), at₁⟩
  · have go : (decide (s.head.kind = closing.getD .eof) || s.atEnd) = false := by
      simpa [State.atEnd] using finished
    rw [go] at looks
    have started : s.head.kind ≠ .eof := fun ended => finished (.inr ended)
    obtain ⟨result, s₂, c₂, ran, goes, at₂⟩ := ih.declaration at₁ started (enough.below (by decide))
    have fewer : s₂.rest.length < s.rest.length := Grammar.declaration_takes started ran
    have forward : c₁.current < c₂.current := by
      have := at₁.length_rest
      have := at₂.length_rest
      rw [goes.moves.tokens] at this
      omega
    obtain ⟨c₃, passes, stays'⟩ := rests_pass forward
    have at₃ := at₂.stays stays'
    obtain ⟨body, s₄, c₄, ran', goes', at₄⟩ :=
      ih.declarations closing (result.toList ++ done) inner at₃ (enough.later fewer (by decide))
    refine ⟨body, s₄, c₄, ?_, ?_, at₄⟩
    · rw [if_neg finished, Rule.bind_of_ok ran]
      exact ran'
    · exact looks.bind (Goes.bind (goes_position c₁) (goes.bind (passes.bind goes')))

end Steps

/-- By induction on the bound. -/
theorem programs_follow (n : Nat) : ProgramsFollow n := by
  induction n with
  | zero =>
    constructor
    all_goals intros; omega
  | succ n ih =>
    exact {
      declaration := declaration_follows ih
      classDeclaration := classDeclaration_follows ih
      methods := fun done _ _ at_ => methods_follows ih at_ done
      function := fun kind _ _ at_ => function_follows ih at_ kind
      statement := statement_follows ih
      forStatement := forStatement_follows ih
      ifStatement := ifStatement_follows ih
      whileStatement := whileStatement_follows ih
      block := block_follows ih
      declarations := fun closing done _ _ inner at_ => declarations_follows ih at_ closing inner done }

end Descent

end Lox
