import Lox.Proofs.Grammar.Mirrors

/-!
# Reading the same programs before another end

Statements end with a token of their own, so they are read the same before any tail that does not start
with `else`. A program is read in front of another one as it is read alone.
-/

namespace Lox

namespace Grammar

open Rule

/-! ### Statements take tokens -/

section

variable (n : Nat)

instance : Takes (variableDeclaration n) := by
  unfold variableDeclaration
  infer_instance

instance : Takes (expressionStatement n) := by
  unfold expressionStatement
  infer_instance

instance : Takes (printStatement n) := by
  unfold printStatement
  infer_instance

instance (line : Nat) : Takes (returnStatement n line) := by
  unfold returnStatement
  infer_instance

instance : Takes (classDeclaration n) := by
  cases n with
  | zero => exact inferInstanceAs (Takes (fail _))
  | succ n =>
    unfold classDeclaration
    infer_instance

instance (kind : FunctionKind) : Takes (function n kind) := by
  cases n with
  | zero => exact inferInstanceAs (Takes (fail _))
  | succ n =>
    unfold function
    infer_instance

instance : Takes (block n) := by
  cases n with
  | zero => exact inferInstanceAs (Takes (fail _))
  | succ n =>
    unfold block
    infer_instance

instance : Takes (forStatement n) := by
  cases n with
  | zero => exact inferInstanceAs (Takes (fail _))
  | succ n =>
    unfold forStatement
    infer_instance

instance : Takes (ifStatement n) := by
  cases n with
  | zero => exact inferInstanceAs (Takes (fail _))
  | succ n =>
    unfold ifStatement
    infer_instance

instance : Takes (whileStatement n) := by
  cases n with
  | zero => exact inferInstanceAs (Takes (fail _))
  | succ n =>
    unfold whileStatement
    infer_instance

/-- What follows the first look at a statement. -/
theorem takes_statement_after (t : Token) :
    Takes (match t.kind with
      | .keyword .for => do take; forStatement n
      | .keyword .if => do take; ifStatement n
      | .keyword .while => do take; whileStatement n
      | .keyword .return => do take; returnStatement n t.line
      | .symbol .leftBrace => do take; return .block (← block n)
      | .keyword .print => do take; printStatement n
      | _ => expressionStatement n) := by
  split <;> infer_instance

instance : Takes (statement n) := by
  cases n with
  | zero => exact inferInstanceAs (Takes (fail _))
  | succ n =>
    unfold statement
    have := takes_statement_after n
    infer_instance

end

/-! ### Statements and declarations -/

theorem forLoop_reline (f : Nat → Nat) (initializer : Option Stmt) (condition increment : Option Expr)
    (body : Stmt) :
    Stmt.forLoop (initializer.map (Stmt.reline f)) (condition.map (Expr.reline f))
        (increment.map (Expr.reline f)) (body.reline f) =
      (Stmt.forLoop initializer condition increment body).reline f := by
  cases initializer <;> cases condition <;> cases increment <;>
    simp [Stmt.forLoop, Stmt.reline, Expr.reline, relineStatements_eq_map]

section Parts

variable {f : Nat → Nat} {tail : List Token} {k n : Nat}

theorem optionalValue_mirrors (stop : Token.Kind) :
    Mirrors f tail 1 (Option.map (Expr.reline f)) (optionalValue n stop)
      (optionalValue (k + n) stop) :=
  (mirrors_sees _).bind fun _ => .ite (mirrors_pure rfl)
    ((expressions_mirror f tail k n).expression.bind fun _ => mirrors_pure rfl)

theorem variableDeclaration_mirrors :
    Mirrors f tail 0 (Stmt.reline f) (variableDeclaration n) (variableDeclaration (k + n)) := by
  have close (declared : Name) (initializer : Option Expr) :
      Mirrors f tail 0 (Stmt.reline f)
        (do let _ ← expect (.symbol .semicolon) .openVariableDeclaration
            return .var declared initializer)
        (do let _ ← expect (.symbol .semicolon) .openVariableDeclaration
            return .var (declared.reline f) (initializer.map (Expr.reline f))) :=
    (mirrors_expect _ _).bind fun _ => mirrors_pure (by simp only [Stmt.reline])
  unfold variableDeclaration
  apply (mirrors_name _).bind
  intro declared
  apply (mirrors_accept _).bindTaking fun _ => inferInstance
  intro given
  refine .ite ?_ ?_
  · have value := (expressions_mirror f tail k n).expression.map (h := Option.map (Expr.reline f))
      (p := some) fun _ => rfl
    exact value.bindTaking (fun _ => inferInstance) fun initializer => close declared initializer
  · exact Mirrors.bind (g := Option.map (Expr.reline f)) (mirrors_pure rfl)
      fun initializer => close declared initializer

theorem expressionStatement_mirrors :
    Mirrors f tail 0 (Stmt.reline f) (expressionStatement n) (expressionStatement (k + n)) := by
  apply (expressions_mirror f tail k n).expression.bindTaking fun _ => inferInstance
  intro value
  apply (mirrors_expect _ _).bind
  intro _
  exact mirrors_pure (by simp only [Stmt.reline])

theorem printStatement_mirrors :
    Mirrors f tail 0 (Stmt.reline f) (printStatement n) (printStatement (k + n)) := by
  apply (expressions_mirror f tail k n).expression.bindTaking fun _ => inferInstance
  intro value
  apply (mirrors_expect _ _).bind
  intro _
  exact mirrors_pure (by simp only [Stmt.reline])

theorem returnStatement_mirrors (line : Nat) :
    Mirrors f tail 0 (Stmt.reline f) (returnStatement n line) (returnStatement (k + n) (f line)) := by
  apply (optionalValue_mirrors _).bindTaking fun _ => inferInstance
  intro value
  apply (mirrors_expect _ _).bind
  intro _
  exact mirrors_pure (by simp only [Stmt.reline])

theorem parameters_mirrors (done : List Name) :
    Mirrors f tail 1 (List.map (Name.reline f)) (parameters n done)
      (parameters (k + n) (done.map (Name.reline f))) := by
  induction n generalizing done with
  | zero => exact mirrors_fail _ _ _
  | succ n ih =>
    have rest : Mirrors f tail 1 (List.map (Name.reline f))
        (do let parameter ← name .noParameterName
            if ← accept (.symbol .comma) then parameters n (parameter :: done)
            else return (parameter :: done).reverse)
        (do let parameter ← name .noParameterName
            if ← accept (.symbol .comma) then
              parameters (k + n) (parameter :: done.map (Name.reline f))
            else return (parameter :: done.map (Name.reline f)).reverse) :=
      (mirrors_name _).bind fun parameter => (mirrors_accept _).bind fun _ =>
        .ite (ih (parameter :: done)) (mirrors_pure (by simp))
    change Mirrors f tail 1 _ (parameters (n + 1) done) (parameters (k + n + 1) _)
    unfold parameters
    rw [List.length_map]
    exact .ite (mirrors_peek.bind fun _ => mirrors_note fun _ => rest.advances) rest

theorem forInitializer_mirrors :
    Mirrors f tail 1 (Option.map (Stmt.reline f)) (forInitializer n) (forInitializer (k + n)) := by
  apply (mirrors_accept _).bind
  intro absent
  refine .ite (mirrors_pure rfl) ?_
  apply (mirrors_accept _).bind
  intro var
  refine .ite ?_ ?_
  · exact variableDeclaration_mirrors.before.bind fun _ => mirrors_pure rfl
  · exact expressionStatement_mirrors.before.bind fun _ => mirrors_pure rfl

theorem superclass_mirrors :
    Mirrors f tail 1 (Option.map (Expr.reline f)) superclass superclass := by
  apply (mirrors_accept _).bind
  intro derived
  refine .ite ?_ (mirrors_pure rfl)
  apply (mirrors_name _).bind
  intro name
  apply mirrors_freshId.bind
  intro fresh
  exact mirrors_pure (by simp only [Option.map_some, Expr.reline, id_eq])

end Parts

/-- Within the bounds `n` and `k + n`, the rules for programs read the same before the end and before the
tail. -/
structure ProgramsMirror (f : Nat → Nat) (tail : List Token) (k n : Nat) : Prop where
  declaration : Mirrors f tail 0 (Option.map (Stmt.reline f)) (declaration n) (declaration (k + n))
  classDeclaration : Mirrors f tail 0 (Stmt.reline f) (classDeclaration n) (classDeclaration (k + n))
  methods (done : List FunctionDecl) :
    Mirrors f tail 1 (List.map (FunctionDecl.reline f)) (methods n done)
      (methods (k + n) (done.map (FunctionDecl.reline f)))
  function (kind : FunctionKind) :
    Mirrors f tail 0 (FunctionDecl.reline f) (function n kind) (function (k + n) kind)
  statement : Mirrors f tail 0 (Stmt.reline f) (statement n) (statement (k + n))
  forStatement : Mirrors f tail 0 (Stmt.reline f) (forStatement n) (forStatement (k + n))
  ifStatement : Mirrors f tail 0 (Stmt.reline f) (ifStatement n) (ifStatement (k + n))
  whileStatement : Mirrors f tail 0 (Stmt.reline f) (whileStatement n) (whileStatement (k + n))
  block : Mirrors f tail 0 (List.map (Stmt.reline f)) (block n) (block (k + n))
  /-- Declarations in a block. Those at the end of a source are another matter. -/
  declarations (stop : Token.Kind) (done : List Stmt) :
    Mirrors f tail 1 (List.map (Stmt.reline f)) (declarations n stop done)
      (declarations (k + n) stop (done.map (Stmt.reline f)))

section Steps

variable {f : Nat → Nat} {tail : List Token} {k n : Nat} (ih : ProgramsMirror f tail k n)

include ih

private theorem declaration_mirrors :
    Mirrors f tail 0 (Option.map (Stmt.reline f)) (declaration (n + 1)) (declaration (k + n + 1)) := by
  unfold declaration
  apply Mirrors.recover
  apply (mirrors_accept _).bindTaking fun _ => inferInstance
  intro cls
  refine .ite ih.classDeclaration ?_
  apply (mirrors_accept _).bindTaking fun _ => inferInstance
  intro function
  refine .ite ?_ ?_
  · apply (ih.function .function).bind
    intro d
    exact mirrors_pure (by simp only [Stmt.reline])
  · apply (mirrors_accept _).bindTaking fun _ => inferInstance
    intro var
    exact .ite variableDeclaration_mirrors ih.statement

private theorem classDeclaration_mirrors :
    Mirrors f tail 0 (Stmt.reline f) (classDeclaration (n + 1)) (classDeclaration (k + n + 1)) := by
  unfold classDeclaration
  apply (mirrors_name _).bind
  intro className
  apply superclass_mirrors.bindTaking fun _ => inferInstance
  intro parent
  apply (mirrors_expect _ _).bind
  intro _
  apply (ih.methods []).bindTaking fun _ => inferInstance
  intro methods
  apply (mirrors_expect _ _).bind
  intro _
  exact mirrors_pure (by simp only [Stmt.reline, relineMethods_eq_map])

private theorem methods_mirrors (done : List FunctionDecl) :
    Mirrors f tail 1 (List.map (FunctionDecl.reline f)) (methods (n + 1) done)
      (methods (k + n + 1) (done.map (FunctionDecl.reline f))) := by
  unfold methods
  apply (mirrors_sees _).bind
  intro closed
  apply mirrors_atEnd.bind
  intro ended
  refine .ite ?_ ?_
  · exact mirrors_pure (by simp)
  · exact (ih.function .method).before.bind fun method => ih.methods (method :: done)

private theorem function_mirrors (kind : FunctionKind) :
    Mirrors f tail 0 (FunctionDecl.reline f) (function (n + 1) kind) (function (k + n + 1) kind) := by
  -- what follows the parameters, in both branches of the rule
  have close (functionName : Name) (parameters : List Name) :
      Mirrors f tail 0 (FunctionDecl.reline f)
        (do let _ ← expect (.symbol .rightParen) .openParameterList
            let _ ← expect (.symbol .leftBrace) (.noFunctionBody kind)
            let body ← Grammar.block n
            return ⟨functionName, parameters, body⟩)
        (do let _ ← expect (.symbol .rightParen) .openParameterList
            let _ ← expect (.symbol .leftBrace) (.noFunctionBody kind)
            let body ← Grammar.block (k + n)
            return ⟨functionName.reline f, parameters.map (Name.reline f), body⟩) := by
    apply (mirrors_expect _ _).bind
    intro paren
    apply (mirrors_expect _ _).bind
    intro brace
    apply ih.block.bind
    intro body
    exact mirrors_pure (by simp only [FunctionDecl.reline, relineStatements_eq_map])
  unfold Grammar.function
  apply (mirrors_name _).bind
  intro functionName
  apply (mirrors_expect _ _).bind
  intro paren
  apply (mirrors_sees _).bindTaking fun _ => inferInstance
  intro empty
  refine .ite ?_ ?_
  · exact Mirrors.bind (mirrors_pure rfl) fun parameters => close _ parameters
  · exact (parameters_mirrors []).bindTaking (fun _ => inferInstance) fun parameters =>
      close _ parameters

private theorem statement_mirrors :
    Mirrors f tail 0 (Stmt.reline f) (statement (n + 1)) (statement (k + n + 1)) := by
  unfold statement
  refine mirrors_peek.bindTaking (takes_statement_after n) fun t => ?_
  dsimp only [Token.reline]
  split
  · exact mirrors_take.bind fun _ => ih.forStatement
  · exact mirrors_take.bind fun _ => ih.ifStatement
  · exact mirrors_take.bind fun _ => ih.whileStatement
  · exact mirrors_take.bind fun _ => returnStatement_mirrors _
  · apply mirrors_take.bind
    intro _
    apply ih.block.bind
    intro body
    exact mirrors_pure (by simp only [Stmt.reline, relineStatements_eq_map])
  · exact mirrors_take.bind fun _ => printStatement_mirrors
  · exact expressionStatement_mirrors

private theorem forStatement_mirrors :
    Mirrors f tail 0 (Stmt.reline f) (forStatement (n + 1)) (forStatement (k + n + 1)) := by
  unfold forStatement
  apply (mirrors_expect _ _).bind
  intro _
  apply forInitializer_mirrors.bindTaking fun _ => inferInstance
  intro initializer
  apply (optionalValue_mirrors _).bindTaking fun _ => inferInstance
  intro condition
  apply (mirrors_expect _ _).bind
  intro _
  apply (optionalValue_mirrors _).bindTaking fun _ => inferInstance
  intro increment
  apply (mirrors_expect _ _).bind
  intro _
  apply ih.statement.bind
  intro body
  exact mirrors_pure (forLoop_reline f initializer condition increment body)

private theorem ifStatement_mirrors (noElse : (tail.headD default).kind ≠ .keyword .else) :
    Mirrors f tail 0 (Stmt.reline f) (ifStatement (n + 1)) (ifStatement (k + n + 1)) := by
  unfold ifStatement
  apply (mirrors_expect _ _).bind
  intro _
  apply (expressions_mirror f tail k n).expression.bindTaking fun _ => inferInstance
  intro condition
  apply (mirrors_expect _ _).bind
  intro _
  apply ih.statement.bind
  intro thenBranch
  -- the one place where a statement looks at what follows it
  apply (mirrors_accept_at_end _ noElse).bind
  intro other
  refine .ite ?_ ?_
  · exact ih.statement.bind fun _ => mirrors_pure (by simp only [Stmt.reline])
  · exact mirrors_pure (by simp only [Stmt.reline])

private theorem whileStatement_mirrors :
    Mirrors f tail 0 (Stmt.reline f) (whileStatement (n + 1)) (whileStatement (k + n + 1)) := by
  unfold whileStatement
  apply (mirrors_expect _ _).bind
  intro _
  apply (expressions_mirror f tail k n).expression.bindTaking fun _ => inferInstance
  intro condition
  apply (mirrors_expect _ _).bind
  intro _
  apply ih.statement.bind
  intro body
  exact mirrors_pure (by simp only [Stmt.reline])

private theorem block_mirrors :
    Mirrors f tail 0 (List.map (Stmt.reline f)) (block (n + 1)) (block (k + n + 1)) := by
  unfold block
  exact (ih.declarations _ []).bindTaking (fun _ => inferInstance) fun _ =>
    (mirrors_expect _ _).bind fun _ => mirrors_pure rfl

private theorem declarations_mirrors (stop : Token.Kind) (done : List Stmt) :
    Mirrors f tail 1 (List.map (Stmt.reline f)) (declarations (n + 1) stop done)
      (declarations (k + n + 1) stop (done.map (Stmt.reline f))) := by
  unfold declarations
  apply (mirrors_sees _).bind
  intro closed
  apply mirrors_atEnd.bind
  intro ended
  refine .ite ?_ ?_
  · exact mirrors_pure (by simp)
  · apply ih.declaration.before.bind
    intro read
    cases read with
    | some s => exact ih.declarations stop (s :: done)
    -- a declaration that was given up leaves no statement
    | none => exact ih.declarations stop done

end Steps

/-- The rules for programs read the same before any tail without `else`, by induction on the bound. -/
theorem programs_mirror (f : Nat → Nat) {tail : List Token}
    (noElse : (tail.headD default).kind ≠ .keyword .else) (k n : Nat) :
    ProgramsMirror f tail k n := by
  induction n with
  | zero =>
    constructor
    case declaration => exact mirrors_recover_fail _ _ _
    all_goals intros; exact mirrors_fail _ _ _
  | succ n ih =>
    exact {
      declaration := declaration_mirrors ih
      classDeclaration := classDeclaration_mirrors ih
      methods := methods_mirrors ih
      function := function_mirrors ih
      statement := statement_mirrors ih
      forStatement := forStatement_mirrors ih
      ifStatement := ifStatement_mirrors ih noElse
      whileStatement := whileStatement_mirrors ih
      block := block_mirrors ih
      declarations := declarations_mirrors ih }

/-! ### Programs -/

/-- A declaration that notes no problem has taken a token and given a statement. -/
theorem declaration_clean {n : Nat} {s s₁ : State} {a : Option Stmt}
    (ran : declaration n s = .ok a s₁) (clean : s₁.problems = s.problems) :
    (∃ b, a = some b) ∧ s₁.rest.length < s.rest.length := by
  cases n with
  | zero =>
    change recover (fail .noExpression) s = _ at ran
    obtain ⟨_, _, failed⟩ := recover_clean ran clean
    cases failed
  | succ n =>
    unfold declaration at ran
    obtain ⟨b, rfl, succeeded⟩ := recover_clean ran clean
    exact ⟨⟨b, rfl⟩, Takes.fewer _ _ _ succeeded⟩

/-- One round of reading declarations up to the end. -/
theorem declarations_end_succ (n : Nat) (done : List Stmt) (s : State) :
    declarations (n + 1) .eof done s =
      if s.head.kind = .eof then .ok done.reverse s
      else (declaration n >>= fun read => match read with
        | some b => declarations n .eof (b :: done)
        | none => declarations n .eof done) s := by
  conv => lhs; unfold declarations
  change (if (decide (s.head.kind = .eof) || s.atEnd) = true then pure done.reverse else _ :
    Rule (List Stmt)) s = _
  by_cases ended : s.head.kind = .eof
  · rw [if_pos ended, if_pos (by simp [ended])]
    rfl
  · rw [if_neg ended]
    exact congrFun (if_neg (by simp [State.atEnd, ended])) s

/-- Declarations that are read up to the end are read before another tail as well. Reading goes on there
with the bound that is left. -/
theorem declarations_beside {f : Nat → Nat} {tail : List Token}
    (noElse : (tail.headD default).kind ≠ .keyword .else) {k n : Nat} {done result : List Stmt}
    {s s' s₁ : State} (beside : Beside f tail s s') (ran : declarations n .eof done s = .ok result s₁)
    (clean : s₁.problems = s.problems) (left : 0 < s₁.rest.length) :
    ∃ read rest s₁', result = done.reverse ++ read ∧ n = rest + 1 + read.length ∧
      read.length + s₁.rest.length ≤ s.rest.length ∧ s₁.rest.length = 1 ∧ Beside f tail s₁ s₁' ∧
      ∀ done', declarations (k + n) .eof done' s' =
        declarations (k + (rest + 1)) .eof ((read.map (Stmt.reline f)).reverse ++ done') s₁' := by
  induction n generalizing done s s' with
  | zero => cases ran
  | succ n ih =>
    rw [declarations_end_succ] at ran
    split at ran
    · rename_i ended
      cases ran
      have single : s₁.rest.length = 1 := by
        have last : ¬ 1 < s₁.rest.length := fun before => beside.inner before ended
        omega
      exact ⟨[], n, s', by simp, rfl, by simp, single, beside, fun _ => rfl⟩
    · rename_i inner
      obtain ⟨a, s₂, first, next⟩ := bind_eq_ok ran
      have onward : Onward s₂ s₁ := by
        cases a <;> exact Advances.ok next
      have cleans := (Advances.ok first).clean onward clean
      obtain ⟨⟨b, rfl⟩, fewer⟩ := declaration_clean first cleans.1
      have some := Nat.lt_of_lt_of_le left onward.rest.length_le
      obtain ⟨s₂', first', beside₂⟩ :=
        (programs_mirror f noElse k n).declaration.mirror beside first cleans.1 some
      obtain ⟨read, rest, s₁', rfl, rfl, taken, single, beside₁, further⟩ :=
        ih beside₂ next cleans.2
      refine ⟨b :: read, rest, s₁', by simp, rfl, ?_, single, beside₁, fun done' => ?_⟩
      · rw [List.length_cons]
        omega
      · have inner' : s'.head.kind ≠ .eof := by
          rw [beside.head (beside.before_end inner)]
          exact inner
        change declarations (k + (rest + 1 + read.length) + 1) .eof done' s' = _
        rw [declarations_end_succ, if_neg inner']
        change EStateM.bind _ _ s' = _
        unfold EStateM.bind
        rw [first']
        change declarations (k + (rest + 1 + read.length)) .eof (b.reline f :: done') s₂' = _
        rw [further]
        simp

end Grammar

end Lox
