import Lox.Proofs.Grammar.Stops
import Lox.Proofs.Grammar.Taking

/-!
# Broken statements

A rule for expressions stops before the semicolon of a statement, and a rule for statements just past it or, if
it fails, before it. After a failure recovery goes on just past the semicolon too.
-/

namespace Lox

namespace Grammar

open Rule

/-! ### Expressions -/

section

variable {semi : Token}

/-- Within the bound `n`, the rules for expressions stop before the semicolon. -/
structure ExpressionsStop (semi : Token) (n : Nat) : Prop where
  expression {v id ps} : AllPlain v → Stops semi .before (expression n) v id ps
  joined (level) {v id ps} : AllPlain v → Stops semi .before (joined n level) v id ps
  operand (level) {v id ps} : AllPlain v → Stops semi .before (operand n level) v id ps
  joinedFrom (level left) {v id ps} : AllPlain v → Stops semi .before (joinedFrom n level left) v id ps
  prefixed {v id ps} : AllPlain v → Stops semi .before (prefixed n) v id ps
  suffixes (object) {v id ps} : AllPlain v → Stops semi .before (suffixes n object) v id ps
  arguments (done) {v id ps} : AllPlain v → Stops semi .before (arguments n done) v id ps
  primary {v id ps} : AllPlain v → Stops semi .before (primary n) v id ps

theorem AllPlain.tail {t : Token} {v : List Token} (plain : AllPlain (t :: v)) : AllPlain v :=
  fun u member => plain u (List.mem_cons_of_mem t member)

section Steps

variable {n : Nat} (ih : ExpressionsStop semi n) (semicolon : semi.kind = .symbol .semicolon)
  {v : List Token} {id : NodeId} {ps : Array Diagnostic} (plain : AllPlain v)

include ih semicolon plain

private theorem expression_stops : Stops semi .before (expression (n + 1)) v id ps := by
  unfold expression
  refine (ih.joined .or plain).bind fun target _ _ _ plain => .peek ?_
  refine (Stops.accept plain (by simp [semicolon])).bind fun taken _ _ _ plain => ?_
  refine .ite ((ih.expression plain).bind fun value _ _ _ plain => ?_) (.pure plain target)
  -- what stands before the equals sign decides what the assignment becomes
  cases target
  case «variable» => exact (Stops.freshId plain).bind fun _ _ _ _ plain => .pure plain _
  case get => exact .pure plain _
  all_goals exact (Stops.note plain _ rfl).bind fun _ _ _ _ plain => .pure plain _

omit semicolon in
private theorem operand_stops (level : Level) : Stops semi .before (operand (n + 1) level) v id ps := by
  unfold operand
  split
  · exact ih.joined _ plain
  · exact ih.prefixed plain

private theorem joinedFrom_stops (level : Level) (left : Expr) :
    Stops semi .before (joinedFrom (n + 1) level left) v id ps := by
  have other : level.joins (.symbol .semicolon) = false := by cases level <;> rfl
  unfold joinedFrom
  refine .peek ?_
  cases v with
  | nil =>
    rw [if_neg (by simp [semicolon, other])]
    exact .pure plain left
  | cons t w =>
    refine .ite (.take ?_) (.pure plain left)
    exact (ih.operand level plain.tail).bind fun right _ _ _ plain => ih.joinedFrom level _ plain

private theorem prefixed_stops : Stops semi .before (prefixed (n + 1)) v id ps := by
  have operand {w : List Token} {id : NodeId} {ps : Array Diagnostic} (plain : AllPlain w) :
      Stops semi .before (do let callee ← Grammar.primary n; Grammar.suffixes n callee) w id ps :=
    (ih.primary plain).bind fun callee _ _ _ plain => ih.suffixes callee plain
  unfold prefixed
  refine .peek ?_
  cases v with
  | nil =>
    rw [if_neg (by simp [semicolon, isPrefixOperator])]
    exact operand plain
  | cons t w =>
    refine .ite (.take ?_) (operand plain)
    exact (ih.prefixed plain.tail).bind fun _ _ _ _ plain => .pure plain _

private theorem suffixes_stops (object : Expr) :
    Stops semi .before (suffixes (n + 1) object) v id ps := by
  have close (arguments : List Expr) {w : List Token} {id : NodeId} {ps : Array Diagnostic}
      (plain : AllPlain w) : Stops semi .before (do
        let paren ← expect (.symbol .rightParen) .openArgumentList
        Grammar.suffixes n (.call object paren.line arguments)) w id ps :=
    (Stops.expect plain (by simp [semicolon]) rfl).bind fun _ _ _ _ plain => ih.suffixes _ plain
  unfold suffixes
  refine (Stops.accept plain (by simp [semicolon])).bind fun called _ _ _ plain => .ite ?_ ?_
  · refine (Stops.sees plain _).bind fun empty _ _ _ plain => .ite ?_ ?_
    · exact (Stops.pure plain []).bind fun _ _ _ _ plain => close _ plain
    · exact (ih.arguments [] plain).bind fun _ _ _ _ plain => close _ plain
  · refine (Stops.accept plain (by simp [semicolon])).bind fun dotted _ _ _ plain => ?_
    refine .ite ?_ (.pure plain object)
    exact (Stops.name plain semicolon rfl).bind fun _ _ _ _ plain => ih.suffixes _ plain

private theorem arguments_stops (done : List Expr) :
    Stops semi .before (arguments (n + 1) done) v id ps := by
  have rest {w : List Token} {id : NodeId} {ps : Array Diagnostic} (plain : AllPlain w) :
      Stops semi .before (do
        let argument ← Grammar.expression n
        if ← accept (.symbol .comma) then Grammar.arguments n (argument :: done)
        else return (argument :: done).reverse) w id ps := by
    refine (ih.expression plain).bind fun argument _ _ _ plain => ?_
    refine (Stops.accept plain (by simp [semicolon])).bind fun comma _ _ _ plain => ?_
    exact .ite (ih.arguments _ plain) (.pure plain _)
  unfold arguments
  refine .ite (.peek ?_) (rest plain)
  exact (Stops.note plain _ rfl).bind fun _ _ _ _ plain => rest plain

private theorem primary_stops : Stops semi .before (primary (n + 1)) v id ps := by
  unfold primary
  refine .peek ?_
  cases v with
  | nil =>
    rw [List.headD_nil, semicolon]
    exact .fail plain rfl
  | cons t w =>
    have rest := plain.tail
    rw [List.headD_cons]
    split
    -- `super`, `this`, a name and an expression in parentheses
    case h_6 =>
      refine .take ((Stops.expect rest (by simp [semicolon]) rfl).bind fun _ _ _ _ plain => ?_)
      refine (Stops.name plain semicolon rfl).bind fun _ _ _ _ plain => ?_
      exact (Stops.freshId plain).bind fun _ _ _ _ plain => .pure plain _
    case h_7 => exact .take ((Stops.freshId rest).bind fun _ _ _ _ plain => .pure plain _)
    case h_8 => exact .take ((Stops.freshId rest).bind fun _ _ _ _ plain => .pure plain _)
    case h_9 =>
      refine .take ((ih.expression rest).bind fun inner _ _ _ plain => ?_)
      exact (Stops.expect plain (by simp [semicolon]) rfl).bind fun _ _ _ _ plain => .pure plain _
    case h_10 => exact .fail plain rfl
    all_goals exact .take (.pure rest _)

end Steps

/-- By induction on the bound. -/
theorem expressions_stop (semicolon : semi.kind = .symbol .semicolon) (n : Nat) :
    ExpressionsStop semi n := by
  induction n with
  | zero => constructor <;> intros <;> exact .fail ‹_› rfl
  | succ n ih =>
    exact {
      expression := expression_stops ih semicolon
      joined := fun level _ _ _ plain => (ih.operand level plain).bind fun left _ _ _ plain =>
        ih.joinedFrom level left plain
      operand := fun level _ _ _ plain => operand_stops ih plain level
      joinedFrom := fun level left _ _ _ plain => joinedFrom_stops ih semicolon plain level left
      prefixed := prefixed_stops ih semicolon
      suffixes := fun object _ _ _ plain => suffixes_stops ih semicolon plain object
      arguments := fun done _ _ _ plain => arguments_stops ih semicolon plain done
      primary := primary_stops ih semicolon }

/-! ### Statements -/

section Statements

variable (semicolon : semi.kind = .symbol .semicolon) {n : Nat} {v : List Token} {id : NodeId}
  {ps : Array Diagnostic} (plain : AllPlain v)

include semicolon plain

theorem optionalValue_stops (stop : Token.Kind) :
    Stops semi .before (optionalValue n stop) v id ps := by
  refine (Stops.sees plain _).bind fun empty _ _ _ plain => .ite (.pure plain none) ?_
  exact ((expressions_stop semicolon n).expression plain).bind fun _ _ _ _ plain => .pure plain _

theorem variableDeclaration_stops : Stops semi .past (variableDeclaration n) v id ps := by
  unfold variableDeclaration
  refine (Stops.name plain semicolon rfl).bind fun declared _ _ _ plain => ?_
  have rest (initializer : Option Expr) {w : List Token} {id : NodeId} {ps : Array Diagnostic}
      (plain : AllPlain w) : Stops semi .past (do
        let _ ← expect (.symbol .semicolon) .openVariableDeclaration
        return Stmt.var declared initializer) w id ps :=
    (Stops.expect_semicolon plain semicolon rfl).bind_pure _
  refine (Stops.accept plain (by simp [semicolon])).bind fun initialized _ _ _ plain => .ite ?_ ?_
  · exact Stops.bind (((expressions_stop semicolon n).expression plain).bind
      fun e _ _ _ plain => .pure plain (some e)) fun _ _ _ _ plain => rest _ plain
  · exact (Stops.pure plain none).bind fun _ _ _ _ plain => rest _ plain

theorem expressionStatement_stops : Stops semi .past (expressionStatement n) v id ps :=
  ((expressions_stop semicolon n).expression plain).bind fun _ _ _ _ plain =>
    (Stops.expect_semicolon plain semicolon rfl).bind_pure _

theorem printStatement_stops : Stops semi .past (printStatement n) v id ps :=
  ((expressions_stop semicolon n).expression plain).bind fun _ _ _ _ plain =>
    (Stops.expect_semicolon plain semicolon rfl).bind_pure _

theorem returnStatement_stops (line : Nat) : Stops semi .past (returnStatement n line) v id ps :=
  (optionalValue_stops semicolon plain _).bind fun _ _ _ _ plain =>
    (Stops.expect_semicolon plain semicolon rfl).bind_pure _

theorem parameters_stops (done : List Name) : Stops semi .before (parameters n done) v id ps := by
  induction n generalizing v id ps done with
  | zero => exact .fail plain rfl
  | succ n ih =>
    have rest {w : List Token} {id : NodeId} {ps : Array Diagnostic} (plain : AllPlain w) :
        Stops semi .before (do
          let parameter ← name .noParameterName
          if ← accept (.symbol .comma) then parameters n (parameter :: done)
          else return (parameter :: done).reverse) w id ps := by
      refine (Stops.name plain semicolon rfl).bind fun parameter _ _ _ plain => ?_
      refine (Stops.accept plain (by simp [semicolon])).bind fun comma _ _ _ plain => ?_
      exact .ite (ih plain _) (.pure plain _)
    unfold parameters
    refine .ite (.peek ?_) (rest plain)
    exact (Stops.note plain _ rfl).bind fun _ _ _ _ plain => rest plain

theorem superclass_stops : Stops semi .before superclass v id ps := by
  refine (Stops.accept plain (by simp [semicolon])).bind fun named _ _ _ plain => ?_
  refine .ite ?_ (.pure plain none)
  refine (Stops.name plain semicolon rfl).bind fun _ _ _ _ plain => ?_
  exact (Stops.freshId plain).bind fun _ _ _ _ plain => .pure plain _

/-- A class has a body, so it breaks off. -/
theorem classDeclaration_stops : Stops semi .past (classDeclaration n) v id ps := by
  cases n with
  | zero => exact .fail plain rfl
  | succ n =>
    unfold classDeclaration
    refine (Stops.name plain semicolon rfl).bind fun _ _ _ _ plain => ?_
    refine (superclass_stops semicolon plain).bind fun _ _ _ _ plain => ?_
    exact .expect_leftBrace plain semicolon rfl _

/-- A function has a body, so it breaks off. -/
theorem function_stops (kind : FunctionKind) : Stops semi .past (function n kind) v id ps := by
  cases n with
  | zero => exact .fail plain rfl
  | succ n =>
    unfold function
    refine (Stops.name plain semicolon rfl).bind fun functionName _ _ _ plain => ?_
    refine (Stops.expect plain (by simp [semicolon]) rfl).bind fun _ _ _ _ plain => ?_
    have rest (parameters : List Name) {w : List Token} {id : NodeId} {ps : Array Diagnostic}
        (plain : AllPlain w) : Stops semi .past (do
          let _ ← expect (.symbol .rightParen) .openParameterList
          let _ ← expect (.symbol .leftBrace) (.noFunctionBody kind)
          let body ← block n
          return (⟨functionName, parameters, body⟩ : FunctionDecl)) w id ps :=
      (Stops.expect plain (by simp [semicolon]) rfl).bind fun _ _ _ _ plain =>
        .expect_leftBrace plain semicolon rfl _
    refine (Stops.sees plain _).bind fun empty _ _ _ plain => .ite ?_ ?_
    · exact (Stops.pure plain []).bind fun _ _ _ _ plain => rest _ plain
    · exact (parameters_stops semicolon plain []).bind fun _ _ _ _ plain => rest _ plain

end Statements

/-- Within the bound `n`, the rules for statements stop past the semicolon. -/
structure StatementsStop (semi : Token) (n : Nat) : Prop where
  statement {v id ps} : AllPlain v → Stops semi .past (statement n) v id ps
  ifStatement {v id ps} : AllPlain v → Stops semi .past (ifStatement n) v id ps
  whileStatement {v id ps} : AllPlain v → Stops semi .past (whileStatement n) v id ps

section Steps

variable {n : Nat} (ih : StatementsStop semi n) (semicolon : semi.kind = .symbol .semicolon)
  {v : List Token} {id : NodeId} {ps : Array Diagnostic} (plain : AllPlain v)

include ih semicolon plain

private theorem statement_stops : Stops semi .past (statement (n + 1)) v id ps := by
  unfold statement
  refine .peek ?_
  cases v with
  | nil =>
    rw [List.headD_nil, semicolon]
    exact expressionStatement_stops semicolon plain
  | cons t w =>
    have rest := plain.tail
    rw [List.headD_cons]
    split
    case h_1 kind => exact absurd kind (plain t List.mem_cons_self).notFor
    case h_2 => exact .take (ih.ifStatement rest)
    case h_3 => exact .take (ih.whileStatement rest)
    case h_4 => exact .take (returnStatement_stops semicolon rest t.line)
    case h_5 kind => exact absurd kind (plain t List.mem_cons_self).notLeftBrace
    case h_6 => exact .take (printStatement_stops semicolon rest)
    case h_7 => exact expressionStatement_stops semicolon plain

private theorem ifStatement_stops : Stops semi .past (ifStatement (n + 1)) v id ps := by
  unfold ifStatement
  refine (Stops.expect plain (by simp [semicolon]) rfl).bind fun _ _ _ _ plain => ?_
  refine ((expressions_stop semicolon n).expression plain).bind fun condition _ _ _ plain => ?_
  refine (Stops.expect plain (by simp [semicolon]) rfl).bind fun _ _ _ _ plain => ?_
  exact (ih.statement plain).bind_noElse
    (fun thenBranch => do return Stmt.ifElse condition thenBranch (some (← statement n)))
    (fun thenBranch => Stmt.ifElse condition thenBranch none)

private theorem whileStatement_stops : Stops semi .past (whileStatement (n + 1)) v id ps := by
  unfold whileStatement
  refine (Stops.expect plain (by simp [semicolon]) rfl).bind fun _ _ _ _ plain => ?_
  refine ((expressions_stop semicolon n).expression plain).bind fun condition _ _ _ plain => ?_
  refine (Stops.expect plain (by simp [semicolon]) rfl).bind fun _ _ _ _ plain => ?_
  exact (ih.statement plain).bind_pure _

end Steps

/-- By induction on the bound. -/
theorem statements_stop (semicolon : semi.kind = .symbol .semicolon) (n : Nat) :
    StatementsStop semi n := by
  induction n with
  | zero => constructor <;> intros <;> exact .fail ‹_› rfl
  | succ n ih =>
    exact {
      statement := statement_stops ih semicolon
      ifStatement := ifStatement_stops ih semicolon
      whileStatement := whileStatement_stops ih semicolon }

/-! ### Declarations -/

/-- A declaration or statement that is not recovered from. -/
def bareDeclaration (n : Nat) : Rule Stmt := do
  if ← accept (.keyword .class_) then classDeclaration n
  else if ← accept (.keyword .fun) then return .function (← function n .function)
  else if ← accept (.keyword .var) then variableDeclaration n
  else statement n

theorem declaration_succ (n : Nat) : declaration (n + 1) = recover (bareDeclaration n) := by
  unfold declaration bareDeclaration
  rfl

instance (n : Nat) : Advances (bareDeclaration n) := by
  unfold bareDeclaration
  infer_instance

section Declarations

variable (semicolon : semi.kind = .symbol .semicolon) {n : Nat} {v w : List Token} {id : NodeId}
  {ps : Array Diagnostic}

include semicolon

theorem bareDeclaration_stops (plain : AllPlain v) :
    Stops semi .past (bareDeclaration n) v id ps := by
  unfold bareDeclaration
  refine (Stops.accept plain (by simp [semicolon])).bind fun isClass _ _ _ plain =>
    .ite (classDeclaration_stops semicolon plain) ?_
  refine (Stops.accept plain (by simp [semicolon])).bind fun isFunction _ _ _ plain =>
    .ite ((function_stops semicolon plain .function).bind_pure _) ?_
  refine (Stops.accept plain (by simp [semicolon])).bind fun isVariable _ _ _ plain =>
    .ite (variableDeclaration_stops semicolon plain) ?_
  exact (statements_stop semicolon n).statement plain

/-! ### Recovery -/

/-- Just past a semicolon nothing is skipped. -/
theorem nextStatement_past (r : List Token) : nextStatement semi.kind r = r := by
  cases r with
  | nil => rfl
  | cons t r => exact if_pos (.inr (.inl semicolon))

/-- Where no word starts a statement, everything up to the semicolon is skipped. -/
theorem nextStatement_plain {previous : Token.Kind} (other : previous ≠ .symbol .semicolon)
    (plain : AllPlain w) (noStart : ∀ t ∈ w, startsStatement t.kind = false) (r : List Token) :
    nextStatement previous (w ++ semi :: r) = r := by
  induction w generalizing previous with
  | nil =>
    change nextStatement previous (semi :: r) = r
    rw [nextStatement, if_neg (by simp [semicolon, other, startsStatement]), nextStatement_past semicolon]
  | cons t w ih =>
    have here := plain t List.mem_cons_self
    have starts := noStart t List.mem_cons_self
    rw [List.cons_append, nextStatement, if_neg (by simp [here.notEnd, other, starts])]
    exact ih here.notSemicolon plain.tail fun u member => noStart u (List.mem_cons_of_mem t member)

/-- Recovery goes on just past the semicolon, also if it skips the semicolon in any case. -/
theorem synchronize_past (plain : AllPlain w) (noStart : ∀ t ∈ w.tail, startsStatement t.kind = false)
    (r : List Token) : synchronize (w ++ semi :: r) = r := by
  cases w with
  | nil =>
    change synchronize (semi :: r) = r
    rw [synchronize, if_neg (by simp [semicolon]), nextStatement_past semicolon]
  | cons t w =>
    have here := plain t List.mem_cons_self
    rw [List.cons_append, synchronize, if_neg here.notEnd]
    exact nextStatement_plain semicolon here.notSemicolon plain.tail noStart r

omit semicolon in
/-- What is left of a broken statement is the end of it. -/
theorem suffix_of_error {α : Type} {x : Rule α} [Advances x] {d : Diagnostic} {id' : NodeId}
    {ps' : Array Diagnostic} {r : List Token}
    (ran : x ⟨v ++ semi :: r, id, ps⟩ = .error d ⟨w ++ semi :: r, id', ps'⟩) : w <:+ v := by
  have onward := Advances.onward (x := x) ⟨v ++ semi :: r, id, ps⟩
  rw [ran] at onward
  obtain ⟨u, same⟩ := onward.rest
  exact ⟨u, List.append_cancel_right ((List.append_assoc u w _).trans same)⟩

omit semicolon in
/-- A statement that does not break off gives a declaration. -/
theorem declaration_succeeds (succeeds : Succeeds semi .past (bareDeclaration n) v id ps) :
    ∃ a id' ps', ∀ r, nextKind r ≠ .keyword .else →
      declaration (n + 1) ⟨v ++ semi :: r, id, ps⟩ = .ok (some a) ⟨r, id', ps'⟩ := by
  obtain ⟨a, left, id', ps', rfl, -, ran⟩ := succeeds
  refine ⟨a, id', ps', fun r noElse => ?_⟩
  rw [declaration_succ]
  exact recover_ok (ran r noElse)

/-- A statement that breaks off at one of its tokens gives nothing, and is left out as a whole. -/
theorem declaration_breaks_off (breaks : BreaksOff semi (bareDeclaration n) v id ps)
    (noStart : ∀ t ∈ v.tail, startsStatement t.kind = false) :
    ∃ t ∈ v ++ [semi], ∃ cause id' ps', cause.unwinds ∧ Noted ps ps' ∧
      ∀ r, nextKind r ≠ .keyword .else →
        declaration (n + 1) ⟨v ++ semi :: r, id, ps⟩ =
          .ok none ⟨r, id', ps'.push (.atToken t cause)⟩ := by
  obtain ⟨cause, w, id', ps', unwinds, plain, noted, ran⟩ := breaks
  obtain ⟨u, rfl⟩ : w <:+ v := suffix_of_error (ran [semi] (by simp [nextKind, semicolon]))
  refine ⟨w.headD semi, ?_, cause, id', ps', unwinds, noted, fun r noElse => ?_⟩
  · cases w <;> simp
  · have noStart : ∀ t ∈ w.tail, startsStatement t.kind = false := by
      intro t member
      refine noStart t ?_
      cases u with
      | nil => exact member
      | cons _ u => exact List.mem_append_right u (List.mem_of_mem_tail member)
    rw [declaration_succ, recover_error (ran r noElse), synchronize_past semicolon plain noStart r]
    rfl

end Declarations

end

end Grammar

end Lox
