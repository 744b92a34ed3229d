import Lox.Proofs.Scope.Resuming
import Lox.Proofs.Syntax.Renumbering
import Lox.Reading

/-!
# Reading does not depend on node identities or lines

The rules of the grammar hand node identities out and never look at them, and lines they only copy into trees
and diagnostics. Reading the same tokens on other lines, with the next free identity moved on, gives the same
trees and diagnostics on those lines, with every identity moved on.
-/

namespace Lox

/-- Another place to read at: node identities are moved on by `ids`, and lines are changed by `lines`, which
leaves the line 0 that the missing token behind the last one has. -/
structure Move where
  ids : Nat
  lines : Nat → Nat
  missing : lines 0 = 0

theorem Diagnostic.reline_id (d : Diagnostic) : d.reline id = d := by
  cases d <;> rfl

theorem Diagnostic.reline_atToken (f : Nat → Nat) (t : Token) (cause : SyntaxError) :
    (Diagnostic.atToken t cause).reline f = .atToken (t.reline f) cause := rfl

namespace Grammar

variable {m : Move}

theorem nextStatement_reline (f : Nat → Nat) (previous : Token.Kind) (tokens : List Token) :
    nextStatement previous (tokens.map (Token.reline f)) =
      (nextStatement previous tokens).map (Token.reline f) := by
  induction tokens generalizing previous with
  | nil => rfl
  | cons t rest ih =>
    simp only [List.map_cons, nextStatement, Token.reline_kind, ih]
    split <;> rfl

theorem synchronize_reline (f : Nat → Nat) (tokens : List Token) :
    synchronize (tokens.map (Token.reline f)) = (synchronize tokens).map (Token.reline f) := by
  cases tokens with
  | nil => rfl
  | cons t rest =>
    simp only [List.map_cons, synchronize, Token.reline_kind, nextStatement_reline]
    split <;> rfl

/-- The state at the other place. -/
def State.move (m : Move) (s : State) : State :=
  ⟨s.rest.map (Token.reline m.lines), s.nextId + m.ids, s.problems.map (Diagnostic.reline m.lines)⟩

theorem State.head_move (m : Move) (s : State) : (s.move m).head = s.head.reline m.lines := by
  unfold head move
  cases s.rest with
  -- the token that is missing there has line 0
  | nil => exact congrArg (Token.mk .eof "") m.missing.symm
  | cons t rest => rfl

theorem State.atEnd_move (m : Move) (s : State) : (s.move m).atEnd = s.atEnd := by
  rw [atEnd, head_move, atEnd, Token.reline_kind]

theorem State.note_move (m : Move) (s : State) (d : Diagnostic) :
    (s.move m).note (d.reline m.lines) = (s.note d).move m := by
  simp only [note, move, Array.map_push]

theorem State.tail_move (m : Move) (s : State) :
    ({ s.move m with rest := (s.move m).rest.tail } : State) = State.move m { s with rest := s.rest.tail } := by
  simp only [move, List.map_tail]

namespace Rule

variable {α β : Type}

/-- An outcome at the other place, with `g` applied to what was read. -/
def moved (m : Move) (g : α → α) :
    EStateM.Result Diagnostic State α → EStateM.Result Diagnostic State α
  | .ok a s => .ok (g a) (s.move m)
  | .error d s => .error (d.reline m.lines) (s.move m)

/-- At the other place the rule `x'` reads what `x` reads, with `g` applied to it. -/
def Moves (m : Move) (g : α → α) (x x' : Rule α) : Prop :=
  ∀ s : State, x' (s.move m) = moved m g (x s)

theorem moves_pure {g : α → α} {a b : α} (same : b = g a) : Moves m g (pure a) (pure b) := by
  intro s
  rw [same]
  rfl

theorem Moves.bind {g : α → α} {h : β → β} {x x' : Rule α} {f f' : α → Rule β}
    (first : Moves m g x x') (next : ∀ a, Moves m h (f a) (f' (g a))) :
    Moves m h (x >>= f) (x' >>= f') := by
  intro s
  change EStateM.bind x' f' (s.move m) = moved m h (EStateM.bind x f s)
  unfold EStateM.bind
  rw [first s]
  cases x s with
  | ok a s' => exact next a s'
  | error d s' => rfl

theorem Moves.ite {g : α → α} {x x' y y' : Rule α} {c : Prop} [Decidable c]
    (yes : Moves m g x x') (no : Moves m g y y') :
    Moves m g (if c then x else y) (if c then x' else y') := by
  split
  · exact yes
  · exact no

theorem Moves.map {g : α → α} {h : β → β} {x x' : Rule α} {f : α → β} (read : Moves m g x x')
    (commute : ∀ a, f (g a) = h (f a)) : Moves m h (f <$> x) (f <$> x') :=
  read.bind fun a => moves_pure (commute a)

theorem moves_fail (cause : SyntaxError) (g : α → α) : Moves m g (fail cause) (fail cause) := by
  intro s
  rw [fail, State.head_move, ← Diagnostic.reline_atToken]
  rfl

theorem moves_peek : Moves m (Token.reline m.lines) peek peek := by
  intro s
  rw [peek, State.head_move]
  rfl

theorem moves_atEnd : Moves m id atEnd atEnd := by
  intro s
  rw [atEnd, State.atEnd_move]
  rfl

theorem moves_sees (kind : Token.Kind) : Moves m id (sees kind) (sees kind) := by
  intro s
  rw [sees, State.head_move, Token.reline_kind]
  rfl

theorem moves_accept (kind : Token.Kind) : Moves m id (accept kind) (accept kind) := by
  intro s
  rw [accept, accept, State.head_move, Token.reline_kind, State.tail_move]
  split <;> rfl

theorem moves_expect (kind : Token.Kind) (missing : SyntaxError) :
    Moves m (Token.reline m.lines) (expect kind missing) (expect kind missing) := by
  intro s
  rw [expect, expect, State.head_move, Token.reline_kind, State.tail_move, ← Diagnostic.reline_atToken]
  split <;> rfl

theorem moves_take : Moves m id take take := by
  intro s
  rw [take, State.tail_move]
  rfl

theorem moves_note (d : Diagnostic) : Moves m id (note d) (note (d.reline m.lines)) := by
  intro s
  rw [note, State.note_move]
  rfl

theorem moves_name (missing : SyntaxError) :
    Moves m (Name.reline m.lines) (name missing) (name missing) :=
  (moves_expect _ _).bind fun _ => moves_pure rfl

/-- A fresh identity is handed out moved on. -/
theorem moves_freshId : Moves m (· + m.ids) freshId freshId := by
  intro s
  change EStateM.Result.ok (s.nextId + m.ids) ({ s.move m with nextId := s.nextId + m.ids + 1 } : State) =
    .ok (s.nextId + m.ids) (State.move m { s with nextId := s.nextId + 1 })
  rw [State.move, State.move, Nat.add_right_comm]

theorem Moves.recover {g : α → α} {x x' : Rule α} (read : Moves m g x x') :
    Moves m (Option.map g) (recover x) (recover x') := by
  intro s
  unfold Rule.recover
  dsimp only
  rw [read s]
  cases x s with
  | ok a s' => rfl
  | error d s' =>
    -- the failure is noted on its new line, and the same tokens are skipped
    simp only [moved, State.note_move]
    simp only [State.move, synchronize_reline]
    rfl

end Rule

open Rule

/-! ### Expressions -/

/-- The tree at the other place. -/
def moveExpr (m : Move) (e : Expr) : Expr := (e.renumber (· + m.ids)).reline m.lines

theorem map_moveExpr (m : Move) (expressions : List Expr) :
    expressions.map (moveExpr m) =
      relineExpressions m.lines (renumberExpressions (· + m.ids) expressions) := by
  rw [relineExpressions_eq_map, renumberExpressions_eq_map, List.map_map]
  rfl

theorem moveExpr_join (m : Move) (level : Level) (left right : Expr) (operator : Token) :
    level.join (moveExpr m left) (operator.reline m.lines) (moveExpr m right) =
      moveExpr m (level.join left operator right) := by
  cases level <;> simp only [Level.join, moveExpr, Expr.renumber, Expr.reline]

/-- Within the bound `n`, the rules for expressions do not depend on the place. -/
structure ExpressionsMove (m : Move) (n : Nat) : Prop where
  expression : Moves m (moveExpr m) (expression n) (expression n)
  joined (level : Level) : Moves m (moveExpr m) (joined n level) (joined n level)
  operand (level : Level) : Moves m (moveExpr m) (operand n level) (operand n level)
  joinedFrom (level : Level) (left : Expr) :
    Moves m (moveExpr m) (joinedFrom n level left) (joinedFrom n level (moveExpr m left))
  prefixed : Moves m (moveExpr m) (prefixed n) (prefixed n)
  suffixes (object : Expr) :
    Moves m (moveExpr m) (suffixes n object) (suffixes n (moveExpr m object))
  arguments (done : List Expr) :
    Moves m (List.map (moveExpr m)) (arguments n done) (arguments n (done.map (moveExpr m)))
  primary : Moves m (moveExpr m) (primary n) (primary n)

section Steps

variable {m : Move} {n : Nat} (ih : ExpressionsMove m n)

include ih

private theorem expression_move :
    Moves m (moveExpr m) (expression (n + 1)) (expression (n + 1)) := by
  unfold expression
  apply (ih.joined .or).bind
  intro target
  apply moves_peek.bind
  intro equals
  apply (moves_accept _).bind
  intro taken
  refine .ite ?_ (moves_pure rfl)
  apply ih.expression.bind
  intro value
  -- what stands before the equals sign decides what the assignment becomes
  cases target
  case «variable» name id =>
    apply moves_freshId.bind
    intro fresh
    exact moves_pure (by simp only [moveExpr, Expr.renumber, Expr.reline])
  case get object name => exact moves_pure (by simp only [moveExpr, Expr.renumber, Expr.reline])
  all_goals exact (moves_note _).bind fun _ => moves_pure rfl

private theorem operand_move (level : Level) :
    Moves m (moveExpr m) (operand (n + 1) level) (operand (n + 1) level) := by
  unfold operand
  split
  · exact ih.joined _
  · exact ih.prefixed

private theorem joinedFrom_move (level : Level) (left : Expr) :
    Moves m (moveExpr m) (joinedFrom (n + 1) level left)
      (joinedFrom (n + 1) level (moveExpr m left)) := by
  unfold joinedFrom
  apply moves_peek.bind
  intro operator
  refine .ite ?_ (moves_pure rfl)
  apply moves_take.bind
  intro _
  apply (ih.operand level).bind
  intro right
  -- what stands to the left from now on has been moved as a whole
  rw [moveExpr_join]
  exact ih.joinedFrom level _

private theorem prefixed_move :
    Moves m (moveExpr m) (prefixed (n + 1)) (prefixed (n + 1)) := by
  unfold prefixed
  apply moves_peek.bind
  intro operator
  refine .ite ?_ ?_
  · apply moves_take.bind
    intro _
    apply ih.prefixed.bind
    intro right
    exact moves_pure (by simp only [moveExpr, Expr.renumber, Expr.reline])
  · exact ih.primary.bind fun callee => ih.suffixes callee

private theorem suffixes_move (object : Expr) :
    Moves m (moveExpr m) (suffixes (n + 1) object) (suffixes (n + 1) (moveExpr m object)) := by
  have call (arguments : List Expr) (paren : Token) :
      Expr.call (moveExpr m object) (m.lines paren.line) (arguments.map (moveExpr m)) =
        moveExpr m (.call object paren.line arguments) := by
    rw [map_moveExpr]
    simp only [moveExpr, Expr.renumber, Expr.reline]
  have get (name : Name) :
      Expr.get (moveExpr m object) (name.reline m.lines) = moveExpr m (.get object name) := by
    simp only [moveExpr, Expr.renumber, Expr.reline]
  -- what follows a list of arguments, in both branches of the rule
  have close (arguments : List Expr) :
      Moves m (moveExpr m)
        (do let paren ← expect (.symbol .rightParen) .openArgumentList
            Grammar.suffixes n (.call object paren.line arguments))
        (do let paren ← expect (.symbol .rightParen) .openArgumentList
            Grammar.suffixes n (.call (moveExpr m object) paren.line
              (arguments.map (moveExpr m)))) := by
    apply (moves_expect _ _).bind
    intro paren
    rw [Token.reline_line, call]
    exact ih.suffixes _
  unfold suffixes
  apply (moves_accept _).bind
  intro parens
  refine .ite ?_ ?_
  · apply (moves_sees _).bind
    intro empty
    refine .ite ?_ ?_
    · exact Moves.bind (moves_pure rfl) fun arguments => close arguments
    · exact (ih.arguments []).bind fun arguments => close arguments
  · apply (moves_accept _).bind
    intro dot
    refine .ite ?_ (moves_pure rfl)
    apply (moves_name _).bind
    intro property
    rw [get]
    exact ih.suffixes _

private theorem arguments_move (done : List Expr) :
    Moves m (List.map (moveExpr m)) (arguments (n + 1) done)
      (arguments (n + 1) (done.map (moveExpr m))) := by
  have rest : Moves m (List.map (moveExpr m))
      (do let argument ← Grammar.expression n
          if ← accept (.symbol .comma) then Grammar.arguments n (argument :: done)
          else return (argument :: done).reverse)
      (do let argument ← Grammar.expression n
          if ← accept (.symbol .comma) then
            Grammar.arguments n (argument :: done.map (moveExpr m))
          else return (argument :: done.map (moveExpr m)).reverse) := by
    apply ih.expression.bind
    intro argument
    apply (moves_accept _).bind
    intro comma
    refine .ite ?_ ?_
    · exact ih.arguments (argument :: done)
    · exact moves_pure (by simp)
  unfold arguments
  rw [List.length_map]
  refine .ite ?_ rest
  -- one argument too many is reported and read all the same
  exact moves_peek.bind fun t => (moves_note _).bind fun _ => rest

private theorem primary_move : Moves m (moveExpr m) (primary (n + 1)) (primary (n + 1)) := by
  have literal (c : Literal) : Moves m (moveExpr m) (do take; return .literal c)
      (do take; return .literal c) :=
    moves_take.bind fun _ => moves_pure (by simp only [moveExpr, Expr.renumber, Expr.reline])
  unfold primary
  refine moves_peek.bind fun t => ?_
  rw [Token.reline_kind]
  split
  -- `super`, `this`, a name and an expression in parentheses
  case h_6 =>
    apply moves_take.bind
    intro _
    apply (moves_expect _ _).bind
    intro dot
    apply (moves_name _).bind
    intro method
    apply moves_freshId.bind
    intro fresh
    exact moves_pure (by simp only [moveExpr, Expr.renumber, Expr.reline]; rfl)
  case h_7 =>
    apply moves_take.bind
    intro _
    apply moves_freshId.bind
    intro fresh
    exact moves_pure (by simp only [moveExpr, Expr.renumber, Expr.reline]; rfl)
  case h_8 =>
    apply moves_take.bind
    intro _
    apply moves_freshId.bind
    intro fresh
    exact moves_pure (by simp only [moveExpr, Expr.renumber, Expr.reline]; rfl)
  case h_9 =>
    apply moves_take.bind
    intro _
    apply ih.expression.bind
    intro inner
    apply (moves_expect _ _).bind
    intro paren
    exact moves_pure (by simp only [moveExpr, Expr.renumber, Expr.reline])
  case h_10 => exact moves_fail _ _
  all_goals exact literal _

end Steps

/-- The rules for expressions do not depend on the place, by induction on the bound. -/
theorem expressions_move (m : Move) (n : Nat) : ExpressionsMove m n := by
  induction n with
  | zero =>
    constructor <;> intros <;> exact moves_fail _ _
  | succ n ih =>
    exact {
      expression := expression_move ih
      joined := fun level => (ih.operand level).bind fun left => ih.joinedFrom level left
      operand := operand_move ih
      joinedFrom := joinedFrom_move ih
      prefixed := prefixed_move ih
      suffixes := suffixes_move ih
      arguments := arguments_move ih
      primary := primary_move ih }

/-! ### Statements and declarations -/

/-- The statement at the other place. -/
def moveStmt (m : Move) (s : Stmt) : Stmt := (s.renumber (· + m.ids)).reline m.lines

/-- The function at the other place. -/
def moveDecl (m : Move) (d : FunctionDecl) : FunctionDecl :=
  (d.renumber (· + m.ids)).reline m.lines

theorem map_moveStmt (m : Move) (statements : List Stmt) :
    statements.map (moveStmt m) =
      relineStatements m.lines (renumberStatements (· + m.ids) statements) := by
  rw [relineStatements_eq_map, renumberStatements_eq_map, List.map_map]
  rfl

theorem map_moveDecl (m : Move) (methods : List FunctionDecl) :
    methods.map (moveDecl m) = relineMethods m.lines (renumberMethods (· + m.ids) methods) := by
  rw [relineMethods_eq_map, renumberMethods_eq_map, List.map_map]
  rfl

theorem optional_moveExpr (m : Move) (e : Option Expr) :
    e.map (moveExpr m) = (e.map (Expr.renumber (· + m.ids))).map (Expr.reline m.lines) := by
  cases e <;> rfl

theorem moveStmt_forLoop (m : Move) (initializer : Option Stmt) (condition increment : Option Expr)
    (body : Stmt) :
    Stmt.forLoop (initializer.map (moveStmt m)) (condition.map (moveExpr m))
        (increment.map (moveExpr m)) (moveStmt m body) =
      moveStmt m (.forLoop initializer condition increment body) := by
  cases initializer <;> cases condition <;> cases increment <;>
    simp [Stmt.forLoop, moveStmt, moveExpr, Stmt.renumber, Stmt.reline, Expr.renumber,
      Expr.reline, renumberStatements, relineStatements]

section Parts

variable {m : Move} {n : Nat}

theorem optionalValue_move (stop : Token.Kind) :
    Moves m (Option.map (moveExpr m)) (optionalValue n stop) (optionalValue n stop) :=
  (moves_sees _).bind fun _ => .ite (moves_pure rfl)
    ((expressions_move m n).expression.bind fun _ => moves_pure rfl)

theorem variableDeclaration_move :
    Moves m (moveStmt m) (variableDeclaration n) (variableDeclaration n) := by
  have close (declared : Name) (initializer : Option Expr) :
      Moves m (moveStmt m)
        (do let _ ← expect (.symbol .semicolon) .openVariableDeclaration
            return .var declared initializer)
        (do let _ ← expect (.symbol .semicolon) .openVariableDeclaration
            return .var (declared.reline m.lines) (initializer.map (moveExpr m))) :=
    (moves_expect _ _).bind fun _ => moves_pure (by
      rw [optional_moveExpr]
      simp only [moveStmt, Stmt.renumber, Stmt.reline])
  unfold variableDeclaration
  apply (moves_name _).bind
  intro declared
  apply (moves_accept _).bind
  intro given
  refine .ite ?_ ?_
  · exact Moves.bind (h := moveStmt m)
      ((expressions_move m n).expression.map (h := Option.map (moveExpr m)) fun _ => rfl)
      fun initializer => close declared initializer
  · exact Moves.bind (g := Option.map (moveExpr m)) (moves_pure rfl)
      fun initializer => close declared initializer

theorem expressionStatement_move :
    Moves m (moveStmt m) (expressionStatement n) (expressionStatement n) := by
  apply (expressions_move m n).expression.bind
  intro value
  apply (moves_expect _ _).bind
  intro _
  exact moves_pure (by simp only [moveStmt, moveExpr, Stmt.renumber, Stmt.reline])

theorem printStatement_move :
    Moves m (moveStmt m) (printStatement n) (printStatement n) := by
  apply (expressions_move m n).expression.bind
  intro value
  apply (moves_expect _ _).bind
  intro _
  exact moves_pure (by simp only [moveStmt, moveExpr, Stmt.renumber, Stmt.reline])

theorem returnStatement_move (line : Nat) :
    Moves m (moveStmt m) (returnStatement n line) (returnStatement n (m.lines line)) := by
  apply (optionalValue_move _).bind
  intro value
  apply (moves_expect _ _).bind
  intro _
  exact moves_pure (by
    rw [optional_moveExpr]
    simp only [moveStmt, Stmt.renumber, Stmt.reline])

theorem parameters_move (done : List Name) :
    Moves m (List.map (Name.reline m.lines)) (parameters n done)
      (parameters n (done.map (Name.reline m.lines))) := by
  induction n generalizing done with
  | zero => exact moves_fail _ _
  | succ n ih =>
    have rest : Moves m (List.map (Name.reline m.lines))
        (do let parameter ← name .noParameterName
            if ← accept (.symbol .comma) then parameters n (parameter :: done)
            else return (parameter :: done).reverse)
        (do let parameter ← name .noParameterName
            if ← accept (.symbol .comma) then
              parameters n (parameter :: done.map (Name.reline m.lines))
            else return (parameter :: done.map (Name.reline m.lines)).reverse) :=
      (moves_name _).bind fun parameter => (moves_accept _).bind fun _ =>
        .ite (ih (parameter :: done)) (moves_pure (by simp))
    unfold parameters
    rw [List.length_map]
    exact .ite (moves_peek.bind fun _ => (moves_note _).bind fun _ => rest) rest

theorem forInitializer_move :
    Moves m (Option.map (moveStmt m)) (forInitializer n) (forInitializer n) := by
  apply (moves_accept _).bind
  intro absent
  refine .ite (moves_pure rfl) ?_
  apply (moves_accept _).bind
  intro var
  refine .ite ?_ ?_
  · exact variableDeclaration_move.bind fun _ => moves_pure rfl
  · exact expressionStatement_move.bind fun _ => moves_pure rfl

theorem superclass_move : Moves m (Option.map (moveExpr m)) superclass superclass := by
  apply (moves_accept _).bind
  intro derived
  refine .ite ?_ (moves_pure rfl)
  apply (moves_name _).bind
  intro name
  apply moves_freshId.bind
  intro fresh
  exact moves_pure (by simp only [Option.map_some, moveExpr, Expr.renumber, Expr.reline])

end Parts

/-- Within the bound `n`, the rules for programs do not depend on the place. -/
structure ProgramsMove (m : Move) (n : Nat) : Prop where
  declaration : Moves m (Option.map (moveStmt m)) (declaration n) (declaration n)
  classDeclaration : Moves m (moveStmt m) (classDeclaration n) (classDeclaration n)
  methods (done : List FunctionDecl) :
    Moves m (List.map (moveDecl m)) (methods n done) (methods n (done.map (moveDecl m)))
  function (kind : FunctionKind) : Moves m (moveDecl m) (function n kind) (function n kind)
  statement : Moves m (moveStmt m) (statement n) (statement n)
  forStatement : Moves m (moveStmt m) (forStatement n) (forStatement n)
  ifStatement : Moves m (moveStmt m) (ifStatement n) (ifStatement n)
  whileStatement : Moves m (moveStmt m) (whileStatement n) (whileStatement n)
  block : Moves m (List.map (moveStmt m)) (block n) (block n)
  declarations (stop : Token.Kind) (done : List Stmt) :
    Moves m (List.map (moveStmt m)) (declarations n stop done)
      (declarations n stop (done.map (moveStmt m)))

section Steps

variable {m : Move} {n : Nat} (ih : ProgramsMove m n)

include ih

private theorem declaration_move :
    Moves m (Option.map (moveStmt m)) (declaration (n + 1)) (declaration (n + 1)) := by
  unfold declaration
  apply Moves.recover
  apply (moves_accept _).bind
  intro cls
  refine .ite ih.classDeclaration ?_
  apply (moves_accept _).bind
  intro function
  refine .ite ?_ ?_
  · apply (ih.function .function).bind
    intro d
    exact moves_pure (by simp only [moveStmt, moveDecl, Stmt.renumber, Stmt.reline])
  · apply (moves_accept _).bind
    intro var
    exact .ite variableDeclaration_move ih.statement

private theorem classDeclaration_move :
    Moves m (moveStmt m) (classDeclaration (n + 1)) (classDeclaration (n + 1)) := by
  unfold classDeclaration
  apply (moves_name _).bind
  intro className
  apply superclass_move.bind
  intro parent
  apply (moves_expect _ _).bind
  intro _
  apply (ih.methods []).bind
  intro methods
  apply (moves_expect _ _).bind
  intro _
  exact moves_pure (by
    rw [optional_moveExpr, map_moveDecl]
    simp only [moveStmt, Stmt.renumber, Stmt.reline])

private theorem methods_move (done : List FunctionDecl) :
    Moves m (List.map (moveDecl m)) (methods (n + 1) done)
      (methods (n + 1) (done.map (moveDecl m))) := by
  unfold methods
  apply (moves_sees _).bind
  intro closed
  apply moves_atEnd.bind
  intro ended
  refine .ite ?_ ?_
  · exact moves_pure (by simp)
  · exact (ih.function .method).bind fun method => ih.methods (method :: done)

private theorem function_move (kind : FunctionKind) :
    Moves m (moveDecl m) (function (n + 1) kind) (function (n + 1) kind) := by
  -- what follows the parameters, in both branches of the rule
  have close (functionName : Name) (parameters : List Name) :
      Moves m (moveDecl m)
        (do let _ ← expect (.symbol .rightParen) .openParameterList
            let _ ← expect (.symbol .leftBrace) (.noFunctionBody kind)
            let body ← Grammar.block n
            return ⟨functionName, parameters, body⟩)
        (do let _ ← expect (.symbol .rightParen) .openParameterList
            let _ ← expect (.symbol .leftBrace) (.noFunctionBody kind)
            let body ← Grammar.block n
            return ⟨functionName.reline m.lines, parameters.map (Name.reline m.lines), body⟩) := by
    apply (moves_expect _ _).bind
    intro paren
    apply (moves_expect _ _).bind
    intro brace
    apply ih.block.bind
    intro body
    exact moves_pure (by
      rw [map_moveStmt]
      simp only [moveDecl, FunctionDecl.renumber, FunctionDecl.reline])
  unfold Grammar.function
  apply (moves_name _).bind
  intro functionName
  apply (moves_expect _ _).bind
  intro paren
  apply (moves_sees _).bind
  intro empty
  refine .ite ?_ ?_
  · exact Moves.bind (moves_pure List.map_nil.symm) fun parameters => close _ parameters
  · exact (parameters_move []).bind fun parameters => close _ parameters

private theorem statement_move :
    Moves m (moveStmt m) (statement (n + 1)) (statement (n + 1)) := by
  unfold statement
  refine moves_peek.bind fun t => ?_
  rw [Token.reline_kind]
  split
  · exact moves_take.bind fun _ => ih.forStatement
  · exact moves_take.bind fun _ => ih.ifStatement
  · exact moves_take.bind fun _ => ih.whileStatement
  · exact moves_take.bind fun _ => returnStatement_move _
  · apply moves_take.bind
    intro _
    apply ih.block.bind
    intro body
    exact moves_pure (by
      rw [map_moveStmt]
      simp only [moveStmt, Stmt.renumber, Stmt.reline])
  · exact moves_take.bind fun _ => printStatement_move
  · exact expressionStatement_move

private theorem forStatement_move :
    Moves m (moveStmt m) (forStatement (n + 1)) (forStatement (n + 1)) := by
  unfold forStatement
  apply (moves_expect _ _).bind
  intro _
  apply forInitializer_move.bind
  intro initializer
  apply (optionalValue_move _).bind
  intro condition
  apply (moves_expect _ _).bind
  intro _
  apply (optionalValue_move _).bind
  intro increment
  apply (moves_expect _ _).bind
  intro _
  apply ih.statement.bind
  intro body
  exact moves_pure (moveStmt_forLoop m initializer condition increment body)

private theorem ifStatement_move :
    Moves m (moveStmt m) (ifStatement (n + 1)) (ifStatement (n + 1)) := by
  unfold ifStatement
  apply (moves_expect _ _).bind
  intro _
  apply (expressions_move m n).expression.bind
  intro condition
  apply (moves_expect _ _).bind
  intro _
  apply ih.statement.bind
  intro thenBranch
  apply (moves_accept _).bind
  intro other
  refine .ite ?_ ?_
  · exact ih.statement.bind fun _ => moves_pure (by simp only [moveStmt, moveExpr, Stmt.renumber, Stmt.reline])
  · exact moves_pure (by simp only [moveStmt, moveExpr, Stmt.renumber, Stmt.reline])

private theorem whileStatement_move :
    Moves m (moveStmt m) (whileStatement (n + 1)) (whileStatement (n + 1)) := by
  unfold whileStatement
  apply (moves_expect _ _).bind
  intro _
  apply (expressions_move m n).expression.bind
  intro condition
  apply (moves_expect _ _).bind
  intro _
  apply ih.statement.bind
  intro body
  exact moves_pure (by simp only [moveStmt, moveExpr, Stmt.renumber, Stmt.reline])

private theorem block_move :
    Moves m (List.map (moveStmt m)) (block (n + 1)) (block (n + 1)) := by
  unfold block
  exact (ih.declarations _ []).bind fun _ => (moves_expect _ _).bind fun _ => moves_pure rfl

private theorem declarations_move (stop : Token.Kind) (done : List Stmt) :
    Moves m (List.map (moveStmt m)) (declarations (n + 1) stop done)
      (declarations (n + 1) stop (done.map (moveStmt m))) := by
  unfold declarations
  apply (moves_sees _).bind
  intro closed
  apply moves_atEnd.bind
  intro ended
  refine .ite ?_ ?_
  · exact moves_pure (by simp)
  · apply ih.declaration.bind
    intro read
    cases read with
    | some s => exact ih.declarations stop (s :: done)
    -- a declaration that was given up leaves no statement
    | none => exact ih.declarations stop done

end Steps

/-- The rules for programs do not depend on the place, by induction on the bound. -/
theorem programs_move (m : Move) (n : Nat) : ProgramsMove m n := by
  induction n with
  | zero =>
    have recovered : Moves m (Option.map (moveStmt m)) (recover (fail .noExpression))
        (recover (fail .noExpression)) := (moves_fail _ _).recover
    constructor <;> intros <;> first | exact recovered | exact moves_fail _ _
  | succ n ih =>
    exact {
      declaration := declaration_move ih
      classDeclaration := classDeclaration_move ih
      methods := methods_move ih
      function := function_move ih
      statement := statement_move ih
      forStatement := forStatement_move ih
      ifStatement := ifStatement_move ih
      whileStatement := whileStatement_move ih
      block := block_move ih
      declarations := declarations_move ih }

/-! ### Readings -/

theorem State.start_move (m : Move) (tokens : List Token) (firstId : NodeId) :
    (start tokens firstId).move m = start (tokens.map (Token.reline m.lines)) (firstId + m.ids) := by
  simp only [start, move, Array.map_empty]

theorem depthFor_reline (f : Nat → Nat) (tokens : List Token) :
    depthFor (tokens.map (Token.reline f)) = depthFor tokens := by
  rw [depthFor, depthFor, List.length_map]

/-- A program is the same at the other place, with the same problems. -/
theorem program_move (m : Move) (tokens : List Token) (firstId : NodeId) :
    program (tokens.map (Token.reline m.lines)) (firstId + m.ids) =
      { result := (program tokens firstId).result.map (moveStmt m)
        diagnostics := (program tokens firstId).diagnostics.map (Diagnostic.reline m.lines)
        nextId := (program tokens firstId).nextId + m.ids } := by
  have moves := (programs_move m (depthFor tokens)).declarations .eof [] (.start tokens firstId)
  rw [State.start_move, List.map_nil] at moves
  unfold program
  rw [depthFor_reline, moves]
  cases declarations (depthFor tokens) .eof [] (.start tokens firstId) with
  | ok statements s => simp [moved, State.move]
  | error d s => simp [moved, State.move]

theorem singleExpression_move (m : Move) (tokens : List Token) :
    Moves m (moveExpr m) (singleExpression tokens)
      (singleExpression (tokens.map (Token.reline m.lines))) := by
  unfold singleExpression
  rw [depthFor_reline]
  apply (expressions_move m _).expression.bind
  intro e
  apply moves_atEnd.bind
  intro ended
  exact .ite (moves_pure rfl) (moves_fail _ _)

/-- So is a text that is one expression. -/
theorem soleExpression_move (m : Move) (tokens : List Token) (firstId : NodeId) :
    soleExpression (tokens.map (Token.reline m.lines)) (firstId + m.ids) =
      { result := (soleExpression tokens firstId).result.map (moveExpr m)
        diagnostics := (soleExpression tokens firstId).diagnostics.map (Diagnostic.reline m.lines)
        nextId := (soleExpression tokens firstId).nextId + m.ids } := by
  have moves := singleExpression_move m tokens (.start tokens firstId)
  rw [State.start_move] at moves
  unfold soleExpression
  rw [moves]
  cases singleExpression tokens (.start tokens firstId) with
  | ok e s => simp [moved, State.move]
  | error d s => simp [moved, State.move]

end Grammar

end Lox
