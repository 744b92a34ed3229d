import Lox.Proofs.Grammar.AcceptExpressions

/-!
# Sentences are read: programs

A statement that ends in an `if` without `else` is read up to an `else` that follows it, which is taken
along. The grammar leaves open to which `if` an `else` belongs; `Attached` has it belong to the nearest,
as the rules do, and still covers every statement.
-/

namespace Lox

namespace Grammar

open Rule

/-- The rule reads what follows the first token of the word, whatever comes after the word. -/
def Begun {α : Type} (first : Token.Kind) (rule : Nat → Rule α) (w : List Token.Kind) : Prop :=
  ∃ v, w = first :: v ∧ ∀ n s, 32 * w.length ≤ n + 16 →
    Accepts s (rule n) v (fun _ => True) fun _ => True

/-! ### Statements without statements in them -/

theorem optionalValue_accepted {w : List Token.Kind} (value : w = [] ∨ ExpressionIsRead w)
    {stop : Symbol} (closing : stop ∈ [Symbol.semicolon, .rightParen, .comma]) (n : Nat) (s : State)
    (deep : 32 * w.length + 15 ≤ n) :
    Accepts s (optionalValue n (.symbol stop)) w (· = .symbol stop) fun _ => True := by
  unfold optionalValue
  rcases value with rfl | value
  · exact .sees_yes (fun _ stopped => stopped) (.pure trivial)
  · refine .sees_no (fun k _ => value.starts.ne (startsExpression_eq_false closing) k) ?_
    rw [← List.append_nil w]
    refine .bind (value.read n s deep) ?_ fun _ _ _ => .pure trivial
    rintro _ rfl
    exact endsExpression_of_symbol closing

theorem variableDeclaration_accepted {w : List Token.Kind}
    (initializer : w = [] ∨ ∃ v, w = .symbol .equal :: v ∧ ExpressionIsRead v) :
    Begun (.keyword .var) variableDeclaration
      (.keyword .var :: .identifier :: (w ++ [.symbol .semicolon])) := by
  refine ⟨_, rfl, fun n s deep => ?_⟩
  simp only [List.length_cons, List.length_append, List.length_nil] at deep
  unfold variableDeclaration
  rcases initializer with rfl | ⟨v, rfl, value⟩
  · exact .name fun _ _ => .accept_no (fun _ _ => nofun) (.expect fun _ _ => .pure trivial)
  · refine .name fun _ s₁ => .accept_yes fun s₂ => ?_
    have value := value.read n s₂ (by rw [List.length_cons] at deep; omega)
    have present : Accepts s₂ (some <$> expression n) v EndsExpression fun _ => True := by
      rw [← List.append_nil v]
      exact .bind value (fun _ ends => ends) fun _ _ _ => .pure trivial
    exact .bind present (fun _ _ => endsExpression_of_symbol (by decide)) fun _ _ _ =>
      .expect fun _ _ => .pure trivial

structure ExpressionStatementIsRead (w : List Token.Kind) : Prop where
  starts : StartsWith startsExpression w
  read (n : Nat) (s : State) (deep : 32 * w.length ≤ n + 16) :
    Accepts s (expressionStatement n) w (fun _ => True) fun _ => True

theorem expressionStatement_accepted {w : List Token.Kind} (value : ExpressionIsRead w) :
    ExpressionStatementIsRead (w ++ [.symbol .semicolon]) := by
  refine ⟨value.starts.append _, fun n s deep => ?_⟩
  simp only [List.length_append, List.length_cons, List.length_nil] at deep
  unfold expressionStatement
  exact .bind (value.read n s (by omega)) (fun _ _ => endsExpression_of_symbol (by decide))
    fun _ _ _ => .expect fun _ _ => .pure trivial

theorem printStatement_accepted {w : List Token.Kind} (value : ExpressionIsRead w) :
    Begun (.keyword .print) printStatement (.keyword .print :: (w ++ [.symbol .semicolon])) := by
  refine ⟨_, rfl, fun n s deep => ?_⟩
  simp only [List.length_cons, List.length_append, List.length_nil] at deep
  unfold printStatement
  exact .bind (value.read n s (by omega)) (fun _ _ => endsExpression_of_symbol (by decide))
    fun _ _ _ => .expect fun _ _ => .pure trivial

theorem returnStatement_accepted {w : List Token.Kind} (value : w = [] ∨ ExpressionIsRead w)
    (line : Nat) : Begun (.keyword .return) (fun n => returnStatement n line)
      (.keyword .return :: (w ++ [.symbol .semicolon])) := by
  refine ⟨_, rfl, fun n s deep => ?_⟩
  simp only [List.length_cons, List.length_append, List.length_nil] at deep
  unfold returnStatement
  exact .bind (optionalValue_accepted value (by decide) n s (by omega)) (fun _ _ => rfl)
    fun _ _ _ => .expect fun _ _ => .pure trivial

theorem forInitializer_accepted {w : List Token.Kind}
    (initializer : Begun (.keyword .var) variableDeclaration w ∨ ExpressionStatementIsRead w ∨
      w = [.symbol .semicolon]) (n : Nat) (s : State) (deep : 32 * w.length ≤ n + 16) :
    Accepts s (forInitializer n) w (fun _ => True) fun _ => True := by
  unfold forInitializer
  rcases initializer with ⟨v, rfl, declaration⟩ | statement | rfl
  · refine .accept_no (fun _ _ => nofun) (.accept_yes fun s₁ => ?_)
    rw [← List.append_nil v]
    exact .bind (declaration n s₁ deep) (fun _ _ => trivial) fun _ _ _ => .pure trivial
  · refine .accept_no (fun k _ => statement.starts.ne rfl k)
      (.accept_no (fun k _ => statement.starts.ne rfl k) ?_)
    rw [← List.append_nil w]
    exact .bind (statement.read n s deep) (fun _ _ => trivial) fun _ _ _ => .pure trivial
  · exact .accept_yes fun _ => .pure trivial

/-! ### Statements -/

/-- Whether a statement may start with a token of this kind. -/
def startsUndeclared (kind : Token.Kind) : Bool :=
  startsExpression kind || match kind with
    | .keyword k => k ∈ [.for, .if, .while, .return, .print]
    | .symbol .leftBrace => true
    | _ => false

/-- The rule for statements reads the word; a dangling one ends before any token but `else`. -/
structure StatementIsRead (dangling : Bool) (w : List Token.Kind) : Prop where
  starts : StartsWith startsUndeclared w
  read (n : Nat) (s : State) (deep : 32 * w.length + 17 ≤ n) :
    Accepts s (statement n) w (fun k => dangling → k ≠ .keyword .else) fun _ => True

theorem statement_of_expressionStatement {w : List Token.Kind}
    (read : ExpressionStatementIsRead w) : StatementIsRead false w := by
  refine ⟨read.starts.imp fun k starts => by simp [startsUndeclared, starts], fun n s deep => ?_⟩
  obtain ⟨n, rfl⟩ : ∃ m, n = m + 1 := ⟨n - 1, by omega⟩
  have rest : Accepts s (expressionStatement n) w
      (fun k => false = true → k ≠ .keyword .else) fun _ => True :=
    (read.read n s (by omega)).imp (fun _ _ => trivial) fun _ result => result
  unfold statement
  refine .peek fun t k _ same => ?_
  obtain ⟨j, v, rfl, starts⟩ := read.starts
  have same : t.kind = j := same
  split <;> rename_i seen
  case h_7 => exact rest
  all_goals
    rw [← same, seen] at starts
    cases starts

theorem statement_of_print {w : List Token.Kind}
    (read : Begun (.keyword .print) printStatement w) : StatementIsRead false w := by
  obtain ⟨v, rfl, read⟩ := read
  refine ⟨⟨_, v, rfl, rfl⟩, fun n s deep => ?_⟩
  obtain ⟨n, rfl⟩ : ∃ m, n = m + 1 := ⟨n - 1, by omega⟩
  unfold statement
  refine .peek fun t _ _ same => ?_
  have same : t.kind = .keyword .print := same
  simp only [same]
  exact .taken fun s₁ => (read n s₁ (by omega)).imp (fun _ _ => trivial) fun _ result => result

theorem statement_of_return {w : List Token.Kind}
    (read : ∀ line, Begun (.keyword .return) (fun n => returnStatement n line) w) :
    StatementIsRead false w := by
  obtain ⟨v, rfl, -⟩ := read 0
  refine ⟨⟨_, v, rfl, rfl⟩, fun n s deep => ?_⟩
  obtain ⟨n, rfl⟩ : ∃ m, n = m + 1 := ⟨n - 1, by omega⟩
  unfold statement
  refine .peek fun t _ _ same => ?_
  have same : t.kind = .keyword .return := same
  simp only [same]
  obtain ⟨_, word, read⟩ := read t.line
  cases word
  exact .taken fun s₁ => (read n s₁ (by omega)).imp (fun _ _ => trivial) fun _ result => result

theorem statement_of_block {w : List Token.Kind} (read : Begun (.symbol .leftBrace) block w) :
    StatementIsRead false w := by
  obtain ⟨v, rfl, read⟩ := read
  refine ⟨⟨_, v, rfl, rfl⟩, fun n s deep => ?_⟩
  obtain ⟨n, rfl⟩ : ∃ m, n = m + 1 := ⟨n - 1, by omega⟩
  unfold statement
  refine .peek fun t _ _ same => ?_
  have same : t.kind = .symbol .leftBrace := same
  simp only [same]
  rw [← List.append_nil v]
  exact .taken fun s₁ => .bind (read n s₁ (by omega)) (fun _ _ => trivial) fun _ _ _ =>
    .pure trivial

/-! ### Statements with statements in them -/

/-- Statements in which every `else` belongs to the nearest `if` before it. A dangling one ends in an
`if` without `else`. -/
inductive Attached : Bool → List Token.Kind → Prop
  | simple {w : List Token.Kind} (read : StatementIsRead false w) : Attached false w
  | loop {dangling : Bool} {header w : List Token.Kind}
    (continues : ∀ {v : List Token.Kind} {o : Bool},
      StatementIsRead o v → StatementIsRead o (header ++ v))
    (body : Attached dangling w) : Attached dangling (header ++ w)
  | ifThen {dangling : Bool} {c w : List Token.Kind} (condition : ExpressionIsRead c)
    (thenBranch : Attached dangling w) :
    Attached true (.keyword .if :: .symbol .leftParen :: (c ++ .symbol .rightParen :: w))
  | ifElse {dangling : Bool} {c w v : List Token.Kind} (condition : ExpressionIsRead c)
    (thenBranch : Attached false w) (elseBranch : Attached dangling v) :
    Attached dangling (.keyword .if :: .symbol .leftParen ::
      (c ++ .symbol .rightParen :: (w ++ .keyword .else :: v)))

/-- An `else` after a dangling statement belongs to an `if` within it. -/
theorem Attached.else {o : Bool} {w v : List Token.Kind} (statement : Attached true w)
    (elseBranch : Attached o v) : ∃ o', Attached o' (w ++ .keyword .else :: v) := by
  generalize isOpen : true = b at statement
  induction statement with
  | simple => cases isOpen
  | @loop _ header w continues _ ih =>
    obtain ⟨o', attached⟩ := ih isOpen
    exact ⟨o', List.append_assoc header w _ ▸ attached.loop continues⟩
  | @ifThen inner c w condition thenBranch ih =>
    have whole : .keyword .if :: .symbol .leftParen :: (c ++ .symbol .rightParen :: w) ++
        .keyword .else :: v = .keyword .if :: .symbol .leftParen ::
          (c ++ .symbol .rightParen :: (w ++ .keyword .else :: v)) := by simp
    rw [whole]
    cases inner with
    | false => exact ⟨o, .ifElse condition thenBranch elseBranch⟩
    | true =>
      obtain ⟨o', attached⟩ := ih rfl
      exact ⟨true, .ifThen condition attached⟩
  | @ifElse _ c w u condition thenBranch _ _ ih =>
    obtain ⟨o', attached⟩ := ih isOpen
    have whole : .keyword .if :: .symbol .leftParen ::
          (c ++ .symbol .rightParen :: (w ++ .keyword .else :: u)) ++ .keyword .else :: v =
        .keyword .if :: .symbol .leftParen ::
          (c ++ .symbol .rightParen :: (w ++ .keyword .else :: (u ++ .keyword .else :: v))) := by
      simp
    exact ⟨o', whole ▸ .ifElse condition thenBranch attached⟩

theorem statement_of_while {dangling : Bool} {c w : List Token.Kind} (condition : ExpressionIsRead c)
    (body : StatementIsRead dangling w) : StatementIsRead dangling
      (.keyword .while :: .symbol .leftParen :: (c ++ .symbol .rightParen :: w)) := by
  refine ⟨⟨_, _, rfl, rfl⟩, fun n s deep => ?_⟩
  simp only [List.length_cons, List.length_append] at deep
  obtain ⟨n, rfl⟩ : ∃ m, n = m + 2 := ⟨n - 2, by omega⟩
  unfold statement
  refine .peek fun t _ _ same => ?_
  have same : t.kind = .keyword .while := same
  simp only [same]
  unfold whileStatement
  refine .taken fun _ => .expect fun _ s₁ => ?_
  refine .bind (condition.read n s₁ (by omega)) (fun _ _ => endsExpression_of_symbol (by decide))
    fun _ _ _ => .expect fun _ s₂ => ?_
  rw [← List.append_nil w]
  exact .bind (body.read n s₂ (by omega)) (fun _ next => next) fun _ _ _ => .pure trivial

theorem statement_of_for {dangling : Bool} {u c i w : List Token.Kind}
    (initializer : Begun (.keyword .var) variableDeclaration u ∨ ExpressionStatementIsRead u ∨
      u = [.symbol .semicolon])
    (condition : c = [] ∨ ExpressionIsRead c) (increment : i = [] ∨ ExpressionIsRead i)
    (body : StatementIsRead dangling w) : StatementIsRead dangling
      (.keyword .for :: .symbol .leftParen :: (u ++ (c ++ .symbol .semicolon ::
        (i ++ .symbol .rightParen :: w)))) := by
  refine ⟨⟨_, _, rfl, rfl⟩, fun n s deep => ?_⟩
  simp only [List.length_cons, List.length_append] at deep
  obtain ⟨n, rfl⟩ : ∃ m, n = m + 2 := ⟨n - 2, by omega⟩
  unfold statement
  refine .peek fun t _ _ same => ?_
  have same : t.kind = .keyword .for := same
  simp only [same]
  unfold forStatement
  refine .taken fun _ => .expect fun _ s₁ => ?_
  refine .bind (forInitializer_accepted initializer n s₁ (by omega)) (fun _ _ => trivial)
    fun _ s₂ _ => ?_
  refine .bind (optionalValue_accepted condition (by decide) n s₂ (by omega)) (fun _ _ => rfl)
    fun _ _ _ => .expect fun _ s₃ => ?_
  refine .bind (optionalValue_accepted increment (by decide) n s₃ (by omega)) (fun _ _ => rfl)
    fun _ _ _ => .expect fun _ s₄ => ?_
  rw [← List.append_nil w]
  exact .bind (body.read n s₄ (by omega)) (fun _ next => next) fun _ _ _ => .pure trivial

theorem statement_of_ifThen {dangling : Bool} {c w : List Token.Kind} (condition : ExpressionIsRead c)
    (thenBranch : StatementIsRead dangling w) : StatementIsRead true
      (.keyword .if :: .symbol .leftParen :: (c ++ .symbol .rightParen :: w)) := by
  refine ⟨⟨_, _, rfl, rfl⟩, fun n s deep => ?_⟩
  simp only [List.length_cons, List.length_append] at deep
  obtain ⟨n, rfl⟩ : ∃ m, n = m + 2 := ⟨n - 2, by omega⟩
  unfold statement
  refine .peek fun t _ _ same => ?_
  have same : t.kind = .keyword .if := same
  simp only [same]
  unfold ifStatement
  refine .taken fun _ => .expect fun _ s₁ => ?_
  refine .bind (condition.read n s₁ (by omega)) (fun _ _ => endsExpression_of_symbol (by decide))
    fun _ _ _ => .expect fun _ s₂ => ?_
  rw [← List.append_nil w]
  refine .bind (thenBranch.read n s₂ (by omega)) (fun k next _ => next trivial) fun _ _ _ => ?_
  exact .accept_no (fun k next => next trivial) (.pure trivial)

theorem statement_of_ifElse {dangling : Bool} {c w v : List Token.Kind}
    (condition : ExpressionIsRead c) (thenBranch : StatementIsRead false w)
    (elseBranch : StatementIsRead dangling v) : StatementIsRead dangling
      (.keyword .if :: .symbol .leftParen ::
        (c ++ .symbol .rightParen :: (w ++ .keyword .else :: v))) := by
  refine ⟨⟨_, _, rfl, rfl⟩, fun n s deep => ?_⟩
  simp only [List.length_cons, List.length_append] at deep
  obtain ⟨n, rfl⟩ : ∃ m, n = m + 2 := ⟨n - 2, by omega⟩
  unfold statement
  refine .peek fun t _ _ same => ?_
  have same : t.kind = .keyword .if := same
  simp only [same]
  unfold ifStatement
  refine .taken fun _ => .expect fun _ s₁ => ?_
  refine .bind (condition.read n s₁ (by omega)) (fun _ _ => endsExpression_of_symbol (by decide))
    fun _ _ _ => .expect fun _ s₂ => ?_
  refine .bind (thenBranch.read n s₂ (by omega)) (by rintro _ _ ⟨⟩) fun _ _ _ =>
    .accept_yes fun s₃ => ?_
  rw [← List.append_nil v]
  exact .bind (elseBranch.read n s₃ (by omega)) (fun _ next => next) fun _ _ _ => .pure trivial

theorem Attached.read {dangling : Bool} {w : List Token.Kind} (attached : Attached dangling w) :
    StatementIsRead dangling w := by
  induction attached with
  | simple read => exact read
  | loop continues _ ih => exact continues ih
  | ifThen condition _ ih => exact statement_of_ifThen condition ih
  | ifElse condition _ _ ihThen ihElse => exact statement_of_ifElse condition ihThen ihElse

/-! ### Declarations -/

/-- Whether a declaration may start with a token of this kind. -/
def startsDeclaration (kind : Token.Kind) : Bool :=
  startsUndeclared kind || match kind with
    | .keyword k => k ∈ [.class_, .fun, .var]
    | _ => false

structure DeclarationIsRead (w : List Token.Kind) : Prop where
  starts : StartsWith startsDeclaration w
  read (n : Nat) (s : State) (deep : 32 * w.length + 18 ≤ n) :
    Accepts s (declaration n) w (· ≠ .keyword .else) fun a => a.isSome

theorem declaration_of_statement {dangling : Bool} {w : List Token.Kind}
    (read : StatementIsRead dangling w) : DeclarationIsRead w := by
  refine ⟨read.starts.imp fun k starts => by simp [startsDeclaration, starts], fun n s deep => ?_⟩
  obtain ⟨n, rfl⟩ : ∃ m, n = m + 1 := ⟨n - 1, by omega⟩
  unfold declaration
  refine .recover (.accept_no (fun k _ => read.starts.ne rfl k)
    (.accept_no (fun k _ => read.starts.ne rfl k) (.accept_no (fun k _ => read.starts.ne rfl k) ?_)))
  exact (read.read n s (by omega)).imp (fun _ next _ => next) fun _ result => result

theorem declaration_of_variable {w : List Token.Kind}
    (read : Begun (.keyword .var) variableDeclaration w) : DeclarationIsRead w := by
  obtain ⟨v, rfl, read⟩ := read
  refine ⟨⟨_, v, rfl, rfl⟩, fun n s deep => ?_⟩
  obtain ⟨n, rfl⟩ : ∃ m, n = m + 1 := ⟨n - 1, by omega⟩
  unfold declaration
  refine .recover (.accept_no (by rintro _ _ ⟨⟩) (.accept_no (by rintro _ _ ⟨⟩)
    (.accept_yes fun s₁ => ?_)))
  exact (read n s₁ (by omega)).imp (fun _ _ => trivial) fun _ result => result

theorem declaration_of_class {w : List Token.Kind}
    (read : Begun (.keyword .class_) classDeclaration w) : DeclarationIsRead w := by
  obtain ⟨v, rfl, read⟩ := read
  refine ⟨⟨_, v, rfl, rfl⟩, fun n s deep => ?_⟩
  obtain ⟨n, rfl⟩ : ∃ m, n = m + 1 := ⟨n - 1, by omega⟩
  unfold declaration
  refine .recover (.accept_yes fun s₁ => ?_)
  exact (read n s₁ (by omega)).imp (fun _ _ => trivial) fun _ result => result

structure FunctionIsAccepted (w : List Token.Kind) : Prop where
  starts : StartsWith (fun k => k matches .identifier) w
  read (n : Nat) (kind : FunctionKind) (s : State) (deep : 32 * w.length ≤ n + 16) :
    Accepts s (function n kind) w (fun _ => True) fun _ => True

theorem declaration_of_function {w : List Token.Kind} (read : FunctionIsAccepted w) :
    DeclarationIsRead (.keyword .fun :: w) := by
  refine ⟨⟨_, w, rfl, rfl⟩, fun n s deep => ?_⟩
  rw [List.length_cons] at deep
  obtain ⟨n, rfl⟩ : ∃ m, n = m + 1 := ⟨n - 1, by omega⟩
  unfold declaration
  refine .recover (.accept_no (by rintro _ _ ⟨⟩) (.accept_yes fun s₁ => ?_))
  rw [← List.append_nil w]
  exact .bind (read.read n .function s₁ (by omega)) (fun _ _ => trivial) fun _ _ _ => .pure trivial

theorem declarations_accepted {words : List (List Token.Kind)}
    (each : ∀ w ∈ words, DeclarationIsRead w) (stop : Token.Kind)
    (outside : startsDeclaration stop = false) (notElse : stop ≠ .keyword .else) (n : Nat)
    (done : List Stmt) (s : State) (deep : 32 * words.flatten.length + 19 ≤ n) :
    Accepts s (declarations n stop done) words.flatten (· = stop)
      fun statements => statements.length = done.length + words.length := by
  induction words generalizing n done s with
  | nil =>
    obtain ⟨n, rfl⟩ : ∃ m, n = m + 1 := ⟨n - 1, by omega⟩
    unfold declarations
    refine .sees_yes (fun _ stopped => stopped) (.atEnd fun ended => ?_)
    rw [Bool.true_or, if_pos rfl]
    exact .pure (by simp)
  | cons w words ih =>
    obtain ⟨n, rfl⟩ : ∃ m, n = m + 1 := ⟨n - 1, by omega⟩
    have first := each w List.mem_cons_self
    have later := fun u among => each u (List.mem_cons_of_mem w among)
    rw [List.flatten_cons, List.length_append] at deep
    have starts := first.starts.append words.flatten
    have long : 0 < w.length := by
      obtain ⟨k, v, rfl, -⟩ := first.starts
      exact Nat.succ_pos _
    unfold declarations
    refine .sees_no (fun k _ => starts.ne outside k) (.atEnd_no (fun k _ => starts.ne rfl k) ?_)
    refine .bind (first.read n s (by omega)) ?_ fun declared s₁ present => ?_
    · rintro k rfl
      cases words with
      | nil => exact notElse
      | cons u words =>
        exact ((later u List.mem_cons_self).starts.append words.flatten).ne rfl k
    · obtain ⟨b, rfl⟩ := Option.isSome_iff_exists.mp present
      refine (ih later n (b :: done) s₁ (by omega)).imp (fun _ stopped => stopped) ?_
      intro statements length
      simp only [length, List.length_cons]
      omega

theorem block_accepted {words : List (List Token.Kind)} (each : ∀ w ∈ words, DeclarationIsRead w) :
    Begun (.symbol .leftBrace) block
      (.symbol .leftBrace :: (words.flatten ++ [.symbol .rightBrace])) := by
  refine ⟨_, rfl, fun n s deep => ?_⟩
  simp only [List.length_cons, List.length_append, List.length_nil] at deep
  obtain ⟨n, rfl⟩ : ∃ m, n = m + 1 := ⟨n - 1, by omega⟩
  unfold block
  exact .bind (declarations_accepted each (.symbol .rightBrace) rfl (by rintro ⟨⟩) n [] s (by omega))
    (fun _ _ => rfl) fun _ _ _ => .expect fun _ _ => .pure trivial

theorem parameters_accepted {words : List (List Token.Kind)} (some : words ≠ [])
    (each : ∀ w ∈ words, w = [Token.Kind.identifier]) (n : Nat) (done : List Name) (s : State)
    (few : done.length + words.length ≤ maxArity) (deep : (commaSeparated words).length ≤ n) :
    Accepts s (parameters n done) (commaSeparated words) (· = .symbol .rightParen)
      fun _ => True := by
  induction words generalizing n done s with
  | nil => exact absurd rfl some
  | cons w words ih =>
    cases each w List.mem_cons_self
    by_cases last : words = []
    · subst last
      have alone : commaSeparated [[Token.Kind.identifier]] = [.identifier] := rfl
      rw [alone, List.length_singleton] at deep
      obtain ⟨n, rfl⟩ : ∃ m, n = m + 1 := ⟨n - 1, by omega⟩
      unfold parameters
      rw [if_neg (by rw [List.length_cons] at few; omega), alone]
      refine .name fun _ _ => .accept_no ?_ (.pure trivial)
      rintro k rfl
      exact nofun
    · rw [commaSeparated_cons _ last] at deep ⊢
      simp only [List.length_cons, List.length_append, List.length_nil] at deep few
      obtain ⟨n, rfl⟩ : ∃ m, n = m + 1 := ⟨n - 1, by omega⟩
      unfold parameters
      rw [if_neg (by omega)]
      refine .name fun _ _ => .accept_yes fun s₂ => ?_
      refine ih last (fun u among => each u (List.mem_cons_of_mem _ among)) n _ s₂ ?_ (by omega)
      rw [List.length_cons]
      omega

theorem function_accepted {parameters body : List Token.Kind}
    (names : parameters = [] ∨ ∃ words, words ≠ [] ∧ words.length ≤ maxArity ∧
      parameters = commaSeparated words ∧ ∀ w ∈ words, w = [Token.Kind.identifier])
    (read : Begun (.symbol .leftBrace) block body) :
    FunctionIsAccepted
      (.identifier :: .symbol .leftParen :: (parameters ++ .symbol .rightParen :: body)) := by
  refine ⟨⟨_, _, rfl, rfl⟩, fun n kind s deep => ?_⟩
  obtain ⟨body, rfl, read⟩ := read
  simp only [List.length_cons, List.length_append] at deep read
  obtain ⟨n, rfl⟩ : ∃ m, n = m + 1 := ⟨n - 1, by omega⟩
  unfold function
  refine .name fun _ _ => .expect fun _ s₁ => ?_
  -- what follows the parameters
  have close (names : List Name) (functionName : Name) (s₂ : State) :
      Accepts s₂ (do
        let _ ← expect (.symbol .rightParen) .openParameterList
        let _ ← expect (.symbol .leftBrace) (.noFunctionBody kind)
        let body ← block n
        return (⟨functionName, names, body⟩ : FunctionDecl))
        (.symbol .rightParen :: .symbol .leftBrace :: body) (fun _ => True) fun _ => True := by
    refine .expect fun _ _ => .expect fun _ s₃ => ?_
    rw [← List.append_nil body]
    exact .bind (read n s₃ (by omega)) (fun _ _ => trivial) fun _ _ _ => .pure trivial
  rcases names with rfl | ⟨words, some, few, rfl, each⟩
  · exact .sees_yes (fun _ _ => rfl) (close [] _ s₁)
  · have starts : StartsWith (fun k => k matches .identifier) (commaSeparated words) :=
      startsWith_commaSeparated some fun u among => ⟨_, [], each u among, rfl⟩
    refine .sees_no (fun k _ => (starts.append _).ne rfl k) ?_
    exact .bind (parameters_accepted some each n [] s₁ (by simpa using few) (by omega))
      (fun _ _ => rfl) fun names s₂ _ => close names _ s₂

theorem methods_accepted {words : List (List Token.Kind)} (each : ∀ w ∈ words, FunctionIsAccepted w)
    (n : Nat) (done : List FunctionDecl) (s : State) (deep : 32 * words.flatten.length + 1 ≤ n) :
    Accepts s (methods n done) words.flatten (· = .symbol .rightBrace) fun _ => True := by
  induction words generalizing n done s with
  | nil =>
    obtain ⟨n, rfl⟩ : ∃ m, n = m + 1 := ⟨n - 1, by omega⟩
    unfold methods
    refine .sees_yes (fun _ stopped => stopped) (.atEnd fun ended => ?_)
    rw [Bool.true_or, if_pos rfl]
    exact .pure trivial
  | cons w words ih =>
    obtain ⟨n, rfl⟩ : ∃ m, n = m + 1 := ⟨n - 1, by omega⟩
    have first := each w List.mem_cons_self
    rw [List.flatten_cons, List.length_append] at deep
    have starts := first.starts.append words.flatten
    have long : 0 < w.length := by
      obtain ⟨k, v, rfl, -⟩ := first.starts
      exact Nat.succ_pos _
    unfold methods
    refine .sees_no (fun k _ => starts.ne rfl k) (.atEnd_no (fun k _ => starts.ne rfl k) ?_)
    exact .bind (first.read n .method s (by omega)) (fun _ _ => trivial) fun method s₁ _ =>
      ih (fun u among => each u (List.mem_cons_of_mem w among)) n (method :: done) s₁ (by omega)

theorem class_accepted {parent : List Token.Kind} {words : List (List Token.Kind)}
    (inherits : parent = [] ∨ parent = [.symbol .less, .identifier])
    (each : ∀ w ∈ words, FunctionIsAccepted w) :
    Begun (.keyword .class_) classDeclaration (.keyword .class_ :: .identifier ::
      (parent ++ .symbol .leftBrace :: (words.flatten ++ [.symbol .rightBrace]))) := by
  refine ⟨_, rfl, fun n s deep => ?_⟩
  simp only [List.length_cons, List.length_append, List.length_nil] at deep
  obtain ⟨n, rfl⟩ : ∃ m, n = m + 1 := ⟨n - 1, by omega⟩
  have superclass_accepted (s : State) :
      Accepts s superclass parent (· = .symbol .leftBrace) fun _ => True := by
    unfold superclass
    rcases inherits with rfl | rfl
    · refine .accept_no ?_ (.pure trivial)
      rintro k rfl
      exact nofun
    · exact .accept_yes fun _ => .name fun _ _ => .freshId fun _ _ => .pure trivial
  unfold classDeclaration
  refine .name fun _ s₁ => .bind (superclass_accepted s₁) (fun _ _ => rfl) fun _ _ _ =>
    .expect fun _ s₂ => ?_
  exact .bind (methods_accepted each n [] s₂ (by omega)) (fun _ _ => rfl) fun _ _ _ =>
    .expect fun _ _ => .pure trivial

/-! ### Sentences -/

theorem matches_keyword {C : Category → List Token.Kind → Prop} {k : Keyword}
    {w : List Token.Kind} : (Phrase.keyword k).Matches C w ↔ w = [.keyword k] := by
  simp [Phrase.keyword, Phrase.Matches]

theorem matches_symbol {C : Category → List Token.Kind → Prop} {y : Symbol}
    {w : List Token.Kind} : (Phrase.symbol y).Matches C w ↔ w = [.symbol y] := by
  simp [Phrase.symbol, Phrase.Matches]

theorem matches_name {C : Category → List Token.Kind → Prop} {w : List Token.Kind} :
    Phrase.name.Matches C w ↔ w = [.identifier] := by
  simp [Phrase.name, Phrase.Matches]

/-- What it is for a word to be read as one of a category. Words of statements are taken apart further,
since an `else` that follows them may be taken along. -/
def IsReadAs : Category → List Token.Kind → Prop
  | .program, w => ∃ words : List (List Token.Kind), w = words.flatten ++ [.eof] ∧
    ∀ u ∈ words, DeclarationIsRead u
  | .declaration, w => DeclarationIsRead w
  | .classDeclaration, w => Begun (.keyword .class_) classDeclaration w
  | .functionDeclaration, w => ∃ v, w = .keyword .fun :: v ∧ FunctionIsAccepted v
  | .function, w => FunctionIsAccepted w
  | .variableDeclaration, w => Begun (.keyword .var) variableDeclaration w
  | .expressionStatement, w => ExpressionStatementIsRead w
  | .printStatement, w => Begun (.keyword .print) printStatement w
  | .returnStatement, w => ∀ line, Begun (.keyword .return) (fun n => returnStatement n line) w
  | .block, w => Begun (.symbol .leftBrace) block w
  | .statement, w | .forStatement, w | .ifStatement, w | .whileStatement, w =>
    ∃ dangling, Attached dangling w
  | .expression, w | .assignment, w => ExpressionIsRead w
  | .joined level, w =>
    StartsWith startsExpression w ∧ JoinedIsRead level w fun _ => True
  | .unary, w => StartsWith startsExpression w ∧ PrefixedIsRead w fun _ => True
  | .call, w => ∃ (u : List Token.Kind) (words : List (List Token.Kind)),
    w = u ++ words.flatten ∧ PrimaryIsRead u ∧ ∀ v ∈ words, SuffixIsRead v
  | .primary, w => PrimaryIsRead w

theorem startsExpression_of_operand {k : Token.Kind} (starts : startsOperand k) :
    startsExpression k := by
  rw [startsExpression, starts, Bool.or_true]

theorem operand_isRead {level : Level} {w : List Token.Kind}
    (read : IsReadAs (.operand level) w) :
    StartsWith startsExpression w ∧ OperandIsRead level w fun _ => True := by
  cases level with
  | factor => exact ⟨read.1, operand_of_prefixed read.2⟩
  | _ => exact ⟨read.1, operand_of_joined rfl read.2⟩

/-- What a production derives from words that are read is read. -/
theorem isReadAs_closed (c : Category) (w : List Token.Kind)
    (matched : (production c).Matches IsReadAs w) : IsReadAs c w := by
  cases c with
  | program =>
    obtain ⟨_, _, rfl, ⟨words, rfl, each⟩, k, last, rfl⟩ := matched
    cases List.mem_singleton.mp last
    exact ⟨words, rfl, each⟩
  | declaration =>
    rcases matched with read | ⟨v, rfl, read⟩ | read | ⟨_, attached⟩
    · exact declaration_of_class read
    · exact declaration_of_function read
    · exact declaration_of_variable read
    · exact declaration_of_statement attached.read
  | classDeclaration =>
    simp only [production, Phrase.Matches, matches_keyword, matches_symbol, matches_name] at matched
    obtain ⟨_, _, rfl, rfl, _, _, rfl, rfl, parent, _, rfl, inherits, _, _, rfl, rfl, _, _, rfl,
      ⟨words, rfl, each⟩, rfl⟩ := matched
    refine class_accepted (inherits.imp id ?_) each
    rintro ⟨_, _, rfl, rfl, rfl⟩
    rfl
  | functionDeclaration =>
    simp only [production, Phrase.Matches, matches_keyword] at matched
    obtain ⟨_, v, rfl, rfl, read⟩ := matched
    exact ⟨v, rfl, read⟩
  | function =>
    simp only [production, Phrase.Matches, matches_symbol, matches_name] at matched
    obtain ⟨_, _, rfl, rfl, _, _, rfl, rfl, parameters, _, rfl, names, _, body, rfl, rfl, read⟩ :=
      matched
    exact function_accepted names read
  | variableDeclaration =>
    simp only [production, Phrase.Matches, matches_keyword, matches_symbol, matches_name] at matched
    obtain ⟨_, _, rfl, rfl, _, _, rfl, rfl, _, _, rfl, initializer, rfl⟩ := matched
    refine variableDeclaration_accepted (initializer.imp id ?_)
    rintro ⟨_, v, rfl, rfl, read⟩
    exact ⟨v, rfl, read⟩
  | statement =>
    rcases matched with read | attached | attached | read | read | attached | read
    · exact ⟨false, .simple (statement_of_expressionStatement read)⟩
    · exact attached
    · exact attached
    · exact ⟨false, .simple (statement_of_print read)⟩
    · exact ⟨false, .simple (statement_of_return read)⟩
    · exact attached
    · exact ⟨false, .simple (statement_of_block read)⟩
  | expressionStatement =>
    simp only [production, Phrase.Matches, matches_symbol] at matched
    obtain ⟨_, _, rfl, read, rfl⟩ := matched
    exact expressionStatement_accepted read
  | forStatement =>
    simp only [production, Phrase.Matches, matches_keyword, matches_symbol] at matched
    obtain ⟨_, _, rfl, rfl, _, _, rfl, rfl, u, _, rfl, initializer, c, _, rfl, condition, _, _,
      rfl, rfl, i, _, rfl, increment, _, w, rfl, rfl, dangling, body⟩ := matched
    have continues {v : List Token.Kind} {o : Bool} (read : StatementIsRead o v) :
        StatementIsRead o ((.keyword .for :: .symbol .leftParen ::
          (u ++ (c ++ .symbol .semicolon :: (i ++ [.symbol .rightParen])))) ++ v) := by
      simpa using statement_of_for initializer condition increment read
    exact ⟨dangling, by simpa using body.loop continues⟩
  | ifStatement =>
    simp only [production, Phrase.Matches, matches_keyword, matches_symbol] at matched
    obtain ⟨_, _, rfl, rfl, _, _, rfl, rfl, c, _, rfl, condition, _, _, rfl, rfl, w, _, rfl,
      ⟨dangling, thenBranch⟩, rfl | ⟨_, v, rfl, rfl, o, elseBranch⟩⟩ := matched
    · rw [List.append_nil]
      exact ⟨true, .ifThen condition thenBranch⟩
    · cases dangling with
      | false => exact ⟨o, .ifElse condition thenBranch elseBranch⟩
      | true =>
        obtain ⟨_, attached⟩ := thenBranch.else elseBranch
        exact ⟨true, .ifThen condition attached⟩
  | printStatement =>
    simp only [production, Phrase.Matches, matches_keyword, matches_symbol] at matched
    obtain ⟨_, _, rfl, rfl, _, _, rfl, read, rfl⟩ := matched
    exact printStatement_accepted read
  | returnStatement =>
    simp only [production, Phrase.Matches, matches_keyword, matches_symbol] at matched
    obtain ⟨_, _, rfl, rfl, _, _, rfl, value, rfl⟩ := matched
    exact fun line => returnStatement_accepted value line
  | whileStatement =>
    simp only [production, Phrase.Matches, matches_keyword, matches_symbol] at matched
    obtain ⟨_, _, rfl, rfl, _, _, rfl, rfl, c, _, rfl, condition, _, w, rfl, rfl, dangling, body⟩ :=
      matched
    have continues {v : List Token.Kind} {o : Bool} (read : StatementIsRead o v) :
        StatementIsRead o
          ((.keyword .while :: .symbol .leftParen :: (c ++ [.symbol .rightParen])) ++ v) := by
      simpa using statement_of_while condition read
    exact ⟨dangling, by simpa using body.loop continues⟩
  | block =>
    simp only [production, Phrase.Matches, matches_symbol] at matched
    obtain ⟨_, _, rfl, rfl, _, _, rfl, ⟨words, rfl, each⟩, rfl⟩ := matched
    exact block_accepted each
  | expression => exact matched
  | assignment =>
    simp only [production, Phrase.Matches, matches_symbol, matches_name] at matched
    rcases matched with ⟨_, _, rfl, target, _, _, rfl, rfl, _, v, rfl, rfl, value⟩ | ⟨starts, read⟩
    · rcases target with rfl | ⟨_, _, rfl, ⟨u, words, rfl, first, each⟩, rfl⟩
      · exact expression_of_assignment ⟨_, [], rfl, rfl⟩ target_of_name value
      · have starts := (first.starts.append words.flatten).append [.symbol .dot, .identifier]
        have assignment := expression_of_assignment (starts.imp fun k => startsExpression_of_operand)
          (target_of_property first each) value
        change ExpressionIsRead _
        simpa using assignment
    · exact expression_of_joined starts read
  | joined level =>
    obtain ⟨u, _, rfl, first, words, rfl, each⟩ := matched
    obtain ⟨starts, first⟩ := operand_isRead first
    refine ⟨starts.append _, fun n s deep => ?_⟩
    refine (joined_of_operands first ?_ n s deep).imp (fun _ ends => ends) fun _ _ => trivial
    intro w among
    obtain ⟨_, v, rfl, ⟨k, member, rfl⟩, operand⟩ := each w among
    exact ⟨k, v, rfl, Level.joins_iff.mpr member, (operand_isRead operand).2⟩
  | unary =>
    rcases matched with ⟨_, v, rfl, ⟨k, member, rfl⟩, -, read⟩ | ⟨u, words, rfl, first, each⟩
    · have isOperator : isPrefixOperator k := by
        simp only [List.mem_cons, List.not_mem_nil, or_false] at member
        rcases member with rfl | rfl <;> rfl
      exact ⟨⟨k, v, rfl, by simp [startsExpression, isOperator]⟩,
        prefixed_of_operator isOperator read⟩
    · refine ⟨(first.starts.append _).imp fun k => startsExpression_of_operand, fun n s deep => ?_⟩
      exact (prefixed_of_call first each n s deep).imp (fun _ ends => ends) fun _ _ => trivial
  | call =>
    obtain ⟨u, _, rfl, first, words, rfl, each⟩ := matched
    refine ⟨u, words, rfl, first, fun v among => ?_⟩
    have suffix := each v among
    simp only [Phrase.Matches, matches_symbol, matches_name] at suffix
    rcases suffix with ⟨_, _, rfl, rfl, _, _, rfl, arguments, rfl⟩ | ⟨_, _, rfl, rfl, rfl⟩
    · rcases arguments with rfl | ⟨list, some, few, rfl, each⟩
      · exact .none
      · exact .arguments some few each
    · exact .property
  | primary =>
    simp only [production, Phrase.Matches, matches_keyword, matches_symbol, matches_name] at matched
    rcases matched with ⟨x, rfl⟩ | ⟨text, rfl⟩ | rfl | rfl | rfl | rfl | rfl |
      ⟨_, _, rfl, rfl, w, _, rfl, inner, rfl⟩ | ⟨_, _, rfl, rfl, _, _, rfl, rfl, rfl⟩
    case inr.inr.inr.inr.inr.inr.inr.inl => exact primary_of_grouping inner
    case inr.inr.inr.inr.inr.inr.inr.inr => exact primary_of_super
    all_goals exact primary_of_token rfl (by simp)

/-- Every sentence is read. -/
theorem Derives.isRead {c : Category} {w : List Token.Kind} (sentence : Sentence c w) :
    IsReadAs c w := sentence.matches isReadAs_closed

end Grammar

end Lox
