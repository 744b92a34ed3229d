import Lox.Proofs.Grammar.Accepts
import Lox.Proofs.Grammar.Sentence

/-!
# Sentences are read: expressions

A sentence of a category is read by the rule of that category whenever what follows cannot go on with
it. The bound that a rule takes has to exceed the number of rules it enters before it takes a token.
-/

namespace Lox

namespace Grammar

open Rule

/-! ### How expressions start and what may follow them -/

/-- Whether an operand that has no prefix operator may start with a token of this kind. -/
def startsOperand : Token.Kind → Bool
  | .number _ | .string _ | .identifier | .symbol .leftParen => true
  | .keyword k => k ∈ [.true, .false, .nil, .this, .super]
  | _ => false

/-- Whether an expression may start with a token of this kind. -/
def startsExpression (kind : Token.Kind) : Bool := isPrefixOperator kind || startsOperand kind

/-- The word starts with a kind that qualifies. -/
def StartsWith (qualifies : Token.Kind → Bool) (w : List Token.Kind) : Prop :=
  ∃ k v, w = k :: v ∧ qualifies k

theorem StartsWith.append {qualifies : Token.Kind → Bool} {v : List Token.Kind}
    (starts : StartsWith qualifies v) (w : List Token.Kind) : StartsWith qualifies (v ++ w) := by
  obtain ⟨k, u, rfl, good⟩ := starts
  exact ⟨k, u ++ w, rfl, good⟩

theorem StartsWith.ne {qualifies : Token.Kind → Bool} {w : List Token.Kind} {k : Token.Kind}
    (starts : StartsWith qualifies w) (bad : qualifies k = false) (j : Token.Kind) :
    w.headD j ≠ k := by
  obtain ⟨i, u, rfl, good⟩ := starts
  rintro rfl
  rw [List.headD_cons, good] at bad
  cases bad

theorem StartsWith.imp {qualifies other : Token.Kind → Bool} {w : List Token.Kind}
    (starts : StartsWith qualifies w) (weaker : ∀ k, qualifies k → other k) :
    StartsWith other w := by
  obtain ⟨k, u, rfl, good⟩ := starts
  exact ⟨k, u, rfl, weaker k good⟩

/-- Operators of a higher number bind more tightly. -/
def Level.tightness : Level → Nat
  | .or => 0
  | .and => 1
  | .equality => 2
  | .comparison => 3
  | .term => 4
  | .factor => 5

/-- The kinds that go on neither with a call nor with operators at least so tight. -/
structure Ends (tightness : Nat) (kind : Token.Kind) : Prop where
  call : kind ≠ .symbol .leftParen
  property : kind ≠ .symbol .dot
  operator (level : Level) (tight : tightness ≤ level.tightness) : level.joins kind = false

theorem Ends.tighter {m n : Nat} {kind : Token.Kind} (ends : Ends m kind) (tighter : m ≤ n) :
    Ends n kind :=
  ⟨ends.call, ends.property, fun level tight => ends.operator level (Nat.le_trans tighter tight)⟩

/-- An operator belongs to one level. -/
theorem Level.joins_unique {level other : Level} {kind : Token.Kind} (joins : level.joins kind)
    (also : other.joins kind) : level = other := by
  cases kind with
  | symbol y => cases level <;> cases other <;> cases y <;> simp_all [Level.joins]
  | keyword k => cases level <;> cases other <;> cases k <;> simp_all [Level.joins]
  | _ => cases level <;> cases joins

/-- An operator of a level ends its left operand. -/
theorem ends_of_joins {level : Level} {kind : Token.Kind} (joins : level.joins kind) :
    Ends (level.tightness + 1) kind where
  call := by
    rintro rfl
    cases level <;> cases joins
  property := by
    rintro rfl
    cases level <;> cases joins
  operator other tight := by
    refine Bool.eq_false_iff.mpr fun also => ?_
    cases Level.joins_unique joins also
    omega

/-- The kinds that end any expression. -/
def EndsExpression (kind : Token.Kind) : Prop := Ends 0 kind ∧ kind ≠ .symbol .equal

theorem startsExpression_eq_false {y : Symbol}
    (closing : y ∈ [Symbol.semicolon, .rightParen, .comma]) :
    startsExpression (.symbol y) = false := by
  simp only [List.mem_cons, List.not_mem_nil, or_false] at closing
  rcases closing with rfl | rfl | rfl <;> rfl

theorem endsExpression_of_symbol {y : Symbol}
    (closing : y ∈ [Symbol.semicolon, .rightParen, .comma]) : EndsExpression (.symbol y) := by
  simp only [List.mem_cons, List.not_mem_nil, or_false] at closing
  rcases closing with rfl | rfl | rfl <;>
    exact ⟨⟨nofun, nofun, fun level _ => by cases level <;> rfl⟩, nofun⟩

/-! ### Categories and their rules -/

structure ExpressionIsRead (w : List Token.Kind) : Prop where
  starts : StartsWith startsExpression w
  read (n : Nat) (s : State) (deep : 32 * w.length + 15 ≤ n) :
    Accepts s (expression n) w EndsExpression fun _ => True

def JoinedIsRead (level : Level) (w : List Token.Kind) (Q : Expr → Prop) : Prop :=
  ∀ n s, 32 * w.length + 14 ≤ n + 2 * level.tightness →
    Accepts s (joined n level) w (Ends level.tightness) Q

def OperandIsRead (level : Level) (w : List Token.Kind) (Q : Expr → Prop) : Prop :=
  ∀ n s, 32 * w.length + 13 ≤ n + 2 * level.tightness →
    Accepts s (operand n level) w (Ends (level.tightness + 1)) Q

def PrefixedIsRead (w : List Token.Kind) (Q : Expr → Prop) : Prop :=
  ∀ n s, 32 * w.length + 2 ≤ n → Accepts s (prefixed n) w (Ends 6) Q

/-- Arguments are read to their closing parenthesis. -/
theorem arguments_accepted {words : List (List Token.Kind)} (some : words ≠ [])
    (each : ∀ w ∈ words, ExpressionIsRead w) (n : Nat) (done : List Expr) (s : State)
    (few : done.length + words.length ≤ maxArity)
    (deep : 32 * (commaSeparated words).length + 16 ≤ n) :
    Accepts s (arguments n done) (commaSeparated words) (· = .symbol .rightParen)
      fun _ => True := by
  induction words generalizing n done s with
  | nil => exact absurd rfl some
  | cons w words ih =>
    obtain ⟨n, rfl⟩ : ∃ m, n = m + 1 := ⟨n - 1, by omega⟩
    unfold arguments
    rw [if_neg (by rw [List.length_cons] at few; omega)]
    have first := each w List.mem_cons_self
    by_cases last : words = []
    · subst last
      have alone : commaSeparated [w] = w ++ [] := by simp [commaSeparated]
      rw [alone, List.length_append] at deep
      rw [alone]
      refine .bind (first.read n s (by omega)) ?_ fun argument s₁ _ => .accept_no ?_ (.pure trivial)
      · rintro k rfl
        exact endsExpression_of_symbol (by decide)
      · rintro k rfl
        rintro ⟨⟩
    · rw [commaSeparated_cons w last, List.length_append, List.length_cons] at deep
      rw [commaSeparated_cons w last]
      refine .bind (first.read n s (by omega)) ?_ fun argument s₁ _ => .accept_yes fun s₂ => ?_
      · exact fun _ _ => endsExpression_of_symbol (by decide)
      · refine ih last (fun u among => each u (List.mem_cons_of_mem w among)) n _ s₂ ?_ (by omega)
        simp only [List.length_cons] at few ⊢
        omega

/-- What follows an expression in a call: a property or an argument list. -/
inductive SuffixIsRead : List Token.Kind → Prop
  | property : SuffixIsRead [.symbol .dot, .identifier]
  | none : SuffixIsRead [.symbol .leftParen, .symbol .rightParen]
  | arguments {words : List (List Token.Kind)} (some : words ≠ [])
    (few : words.length ≤ maxArity) (each : ∀ w ∈ words, ExpressionIsRead w) :
    SuffixIsRead (.symbol .leftParen :: (commaSeparated words ++ [.symbol .rightParen]))

/-- Whether the tree may stand to the left of an equals sign. -/
def IsTarget : Expr → Prop
  | .variable _ _ | .get _ _ => True
  | _ => False

/-- A property at the end makes the whole a target. -/
def EndsInProperty (object : Expr) (words : List (List Token.Kind)) (e : Expr) : Prop :=
  match words.getLast? with
  | none => e = object
  | some w => w = [.symbol .dot, .identifier] → IsTarget e

theorem EndsInProperty.cons {object object' e : Expr} {w : List Token.Kind}
    {words : List (List Token.Kind)} (rest : EndsInProperty object' words e)
    (own : w = [.symbol .dot, .identifier] → IsTarget object') :
    EndsInProperty object (w :: words) e := by
  cases words with
  | nil =>
    cases rest
    exact own
  | cons v words =>
    rw [EndsInProperty, List.getLast?_cons_cons]
    exact rest

theorem startsWith_commaSeparated {qualifies : Token.Kind → Bool} {words : List (List Token.Kind)}
    (some : words ≠ []) (each : ∀ w ∈ words, StartsWith qualifies w) :
    StartsWith qualifies (commaSeparated words) := by
  cases words with
  | nil => exact absurd rfl some
  | cons w words =>
    have first := each w List.mem_cons_self
    by_cases last : words = []
    · subst last
      simpa [commaSeparated] using first
    · rw [commaSeparated_cons w last]
      exact first.append _

theorem suffixes_accepted {words : List (List Token.Kind)} (each : ∀ w ∈ words, SuffixIsRead w)
    (n : Nat) (object : Expr) (s : State) (deep : 32 * words.flatten.length + 1 ≤ n) :
    Accepts s (suffixes n object) words.flatten (Ends 6) (EndsInProperty object words) := by
  induction words generalizing n object s with
  | nil =>
    obtain ⟨n, rfl⟩ : ∃ m, n = m + 1 := ⟨n - 1, by omega⟩
    unfold suffixes
    exact .accept_no (fun _ ends => ends.call) (.accept_no (fun _ ends => ends.property) (.pure rfl))
  | cons w words ih =>
    obtain ⟨n, rfl⟩ : ∃ m, n = m + 1 := ⟨n - 1, by omega⟩
    have ih := ih fun u among => each u (List.mem_cons_of_mem w among)
    rw [List.flatten_cons, List.length_append] at deep
    unfold suffixes
    cases each w List.mem_cons_self with
    | property =>
      simp only [List.length_cons, List.length_nil] at deep
      refine .accept_no (by rintro _ _ ⟨⟩) (.accept_yes fun s₁ => .name fun property s₂ => ?_)
      exact (ih n (.get object property) s₂ (by omega)).imp (fun _ ends => ends)
        fun e result => result.cons fun _ => trivial
    | none =>
      simp only [List.length_cons, List.length_nil] at deep
      refine .accept_yes fun s₁ => .sees_yes (fun _ _ => rfl) (.expect fun paren s₂ => ?_)
      exact (ih n (.call object paren.line []) s₂ (by omega)).imp (fun _ ends => ends)
        fun e result => result.cons (by rintro ⟨⟩)
    | @arguments list some few expressions =>
      simp only [List.length_cons, List.length_append, List.length_nil] at deep
      rw [List.flatten_cons, List.cons_append, List.append_assoc]
      have starts := startsWith_commaSeparated some fun u among => (expressions u among).starts
      refine .accept_yes fun s₁ => .sees_no ?_ ?_
      · exact fun k _ => (starts.append _).ne rfl k
      · refine .bind (arguments_accepted some expressions n [] s₁ ?_ (by omega)) (fun _ _ => rfl)
          fun arguments s₂ _ => .expect fun paren s₃ => ?_
        · simpa using few
        · exact (ih n (.call object paren.line arguments) s₃ (by omega)).imp (fun _ ends => ends)
            fun e result => result.cons (by rintro ⟨⟩)

/-- An operand that is no operator's own: a name by itself is a target. -/
structure PrimaryIsRead (w : List Token.Kind) : Prop where
  starts : StartsWith startsOperand w
  read (n : Nat) (s : State) (deep : 32 * w.length + 1 ≤ n) :
    Accepts s (primary n) w (fun _ => True) fun e => w = [.identifier] → IsTarget e

theorem prefixed_of_call {w : List Token.Kind} {words : List (List Token.Kind)}
    (first : PrimaryIsRead w) (each : ∀ u ∈ words, SuffixIsRead u) :
    PrefixedIsRead (w ++ words.flatten) fun e =>
      (words = [] ∧ w = [.identifier] ∨ words.getLast? = some [.symbol .dot, .identifier]) →
        IsTarget e := by
  intro n s deep
  obtain ⟨n, rfl⟩ : ∃ m, n = m + 1 := ⟨n - 1, by omega⟩
  rw [List.length_append] at deep
  have plain {k : Token.Kind} (starts : startsOperand k) : isPrefixOperator k = false := by
    cases k with
    | symbol y => cases y <;> first | rfl | cases starts
    | _ => rfl
  unfold prefixed
  refine .peek fun operator k _ same => ?_
  have notOperator : isPrefixOperator operator.kind = false := by
    obtain ⟨j, v, rfl, starts⟩ := first.starts
    rw [same]
    exact plain starts
  rw [notOperator]
  refine .bind (first.read n s (by omega)) (fun _ _ => trivial) fun callee s₁ operand => ?_
  refine (suffixes_accepted each n callee s₁ (by omega)).imp (fun _ ends => ends) ?_
  rintro e result (⟨rfl, alone⟩ | property)
  · cases result
    exact operand alone
  · rw [EndsInProperty, property] at result
    exact result rfl

theorem joinedFrom_accepted {level : Level} {words : List (List Token.Kind)}
    (each : ∀ w ∈ words, ∃ k v, w = k :: v ∧ level.joins k ∧ OperandIsRead level v fun _ => True)
    (n : Nat) (left : Expr) (s : State)
    (deep : 32 * words.flatten.length + 1 ≤ n) :
    Accepts s (joinedFrom n level left) words.flatten (Ends level.tightness)
      fun e => words = [] → e = left := by
  induction words generalizing n left s with
  | nil =>
    obtain ⟨n, rfl⟩ : ∃ m, n = m + 1 := ⟨n - 1, by omega⟩
    unfold joinedFrom
    refine .peek fun operator k ends same => ?_
    have done : level.joins operator.kind = false := same ▸ ends.operator level (Nat.le_refl _)
    rw [done]
    exact .pure fun _ => rfl
  | cons w words ih =>
    obtain ⟨n, rfl⟩ : ∃ m, n = m + 1 := ⟨n - 1, by omega⟩
    have later := fun u among => each u (List.mem_cons_of_mem w among)
    obtain ⟨k, v, rfl, joins, operand⟩ := each w List.mem_cons_self
    rw [List.flatten_cons, List.length_append, List.length_cons] at deep
    unfold joinedFrom
    refine .peek fun operator j _ same => ?_
    have same : operator.kind = k := same
    rw [same, if_pos joins]
    refine .taken fun s₁ => .bind (operand n s₁ (by omega)) ?_ fun right s₂ _ => ?_
    · intro j ends
      cases words with
      | nil => exact ends.tighter (Nat.le_succ _)
      | cons u words =>
        obtain ⟨i, v, rfl, joins, -⟩ := later u List.mem_cons_self
        exact ends_of_joins joins
    · exact (ih later n _ s₂ (by omega)).imp (fun _ ends => ends) fun _ _ => by rintro ⟨⟩

/-- Operands with operators between them. An operand by itself keeps what is known of it. -/
theorem joined_of_operands {level : Level} {w : List Token.Kind} {words : List (List Token.Kind)}
    {Q : Expr → Prop} (first : OperandIsRead level w Q)
    (each : ∀ u ∈ words, ∃ k v, u = k :: v ∧ level.joins k ∧ OperandIsRead level v fun _ => True) :
    JoinedIsRead level (w ++ words.flatten) fun e => words = [] → Q e := by
  intro n s deep
  have tight : level.tightness ≤ 5 := by cases level <;> decide
  obtain ⟨n, rfl⟩ : ∃ m, n = m + 1 := ⟨n - 1, by omega⟩
  rw [List.length_append] at deep
  unfold joined
  refine .bind (first n s (by omega)) (fun k ends => ?_) fun left s₁ result => ?_
  · cases words with
    | nil => exact ends.tighter (Nat.le_succ _)
    | cons u words =>
      obtain ⟨i, v, rfl, joins, -⟩ := each u List.mem_cons_self
      exact ends_of_joins joins
  · refine (joinedFrom_accepted each n left s₁ (by omega)).imp (fun _ ends => ends) ?_
    rintro e same none
    exact same none ▸ result

theorem operand_of_joined {level tighter : Level} {w : List Token.Kind} {Q : Expr → Prop}
    (next : level.tighter? = some tighter) (read : JoinedIsRead tighter w Q) :
    OperandIsRead level w Q := by
  intro n s deep
  have tightness : tighter.tightness = level.tightness + 1 := by
    cases level <;> cases next <;> rfl
  have tight : tighter.tightness ≤ 5 := by cases tighter <;> decide
  obtain ⟨n, rfl⟩ : ∃ m, n = m + 1 := ⟨n - 1, by omega⟩
  unfold operand
  rw [next, ← tightness]
  exact read n s (by omega)

theorem operand_of_prefixed {w : List Token.Kind} {Q : Expr → Prop} (read : PrefixedIsRead w Q) :
    OperandIsRead .factor w Q := by
  intro n s deep
  simp only [Level.tightness] at deep
  obtain ⟨n, rfl⟩ : ∃ m, n = m + 1 := ⟨n - 1, by omega⟩
  unfold operand
  exact read n s (by omega)

/-- A prefix expression by itself passes through all levels. -/
theorem joined_of_prefixed {w : List Token.Kind} {Q : Expr → Prop} (read : PrefixedIsRead w Q) :
    JoinedIsRead .or w Q := by
  have alone {level : Level} (operand : OperandIsRead level w Q) : JoinedIsRead level w Q := by
    have joined := @joined_of_operands level w [] Q operand nofun
    rw [List.flatten_nil, List.append_nil] at joined
    exact fun n s deep => (joined n s deep).imp (fun _ ends => ends) fun e result => result rfl
  have factor : JoinedIsRead .factor w Q := alone (operand_of_prefixed read)
  have term : JoinedIsRead .term w Q := alone (operand_of_joined rfl factor)
  have comparison : JoinedIsRead .comparison w Q := alone (operand_of_joined rfl term)
  have equality : JoinedIsRead .equality w Q := alone (operand_of_joined rfl comparison)
  have and : JoinedIsRead .and w Q := alone (operand_of_joined rfl equality)
  exact alone (operand_of_joined rfl and)

theorem expression_of_joined {w : List Token.Kind} (starts : StartsWith startsExpression w)
    (read : JoinedIsRead .or w fun _ => True) : ExpressionIsRead w := by
  refine ⟨starts, fun n s deep => ?_⟩
  obtain ⟨n, rfl⟩ : ∃ m, n = m + 1 := ⟨n - 1, by omega⟩
  unfold expression
  rw [← List.append_nil w]
  refine .bind (read n s (by omega)) (fun k ends => ends.1) fun target s₁ _ => ?_
  exact .peek fun _ _ _ _ => .accept_no (fun k ends => ends.2) (.pure trivial)

/-- Prefix operators before an expression that has one or is a call. -/
theorem prefixed_of_operator {operator : Token.Kind} {w : List Token.Kind}
    (isOperator : isPrefixOperator operator) (read : PrefixedIsRead w fun _ => True) :
    PrefixedIsRead (operator :: w) fun _ => True := by
  intro n s deep
  obtain ⟨n, rfl⟩ : ∃ m, n = m + 1 := ⟨n - 1, by omega⟩
  rw [List.length_cons] at deep
  unfold prefixed
  refine .peek fun t _ _ same => ?_
  have same : t.kind = operator := same
  rw [same, if_pos isOperator, ← List.append_nil w]
  exact .taken fun s₁ => .bind (read n s₁ (by omega)) (fun _ ends => ends) fun _ _ _ =>
    .pure trivial

/-! ### Operands -/

/-- Literals, names and `this`. -/
theorem primary_of_token {kind : Token.Kind} (starts : startsOperand kind)
    (single : kind ∉ [.symbol .leftParen, .keyword .super]) : PrimaryIsRead [kind] := by
  refine ⟨⟨_, [], rfl, starts⟩, fun n s deep => ?_⟩
  obtain ⟨n, rfl⟩ : ∃ m, n = m + 1 := ⟨n - 1, by omega⟩
  unfold primary
  refine .peek fun t _ _ same => ?_
  have same : t.kind = kind := same
  cases kind with
  | number | string =>
    simp only [same]
    exact .taken fun _ => .pure (by rintro ⟨⟩)
  | identifier =>
    simp only [same]
    exact .taken fun _ => .freshId fun _ _ => .pure fun _ => trivial
  | keyword k =>
    cases k with
    | false | true | nil =>
      simp only [same]
      exact .taken fun _ => .pure (by rintro ⟨⟩)
    | this =>
      simp only [same]
      exact .taken fun _ => .freshId fun _ _ => .pure (by rintro ⟨⟩)
    | super => exact absurd (by simp) single
    | _ => cases starts
  | symbol y =>
    cases y with
    | leftParen => exact absurd (by simp) single
    | _ => cases starts
  | eof => cases starts

theorem primary_of_super : PrimaryIsRead [.keyword .super, .symbol .dot, .identifier] := by
  refine ⟨⟨_, _, rfl, rfl⟩, fun n s deep => ?_⟩
  obtain ⟨n, rfl⟩ : ∃ m, n = m + 1 := ⟨n - 1, by omega⟩
  unfold primary
  refine .peek fun t _ _ same => ?_
  have same : t.kind = .keyword .super := same
  simp only [same]
  exact .taken fun _ => .expect fun _ _ => .name fun _ _ => .freshId fun _ _ => .pure (by rintro ⟨⟩)

theorem primary_of_grouping {w : List Token.Kind} (inner : ExpressionIsRead w) :
    PrimaryIsRead (.symbol .leftParen :: (w ++ [.symbol .rightParen])) := by
  refine ⟨⟨_, _, rfl, rfl⟩, fun n s deep => ?_⟩
  obtain ⟨n, rfl⟩ : ∃ m, n = m + 1 := ⟨n - 1, by omega⟩
  simp only [List.length_cons, List.length_append, List.length_nil] at deep
  unfold primary
  refine .peek fun t _ _ same => ?_
  have same : t.kind = .symbol .leftParen := same
  simp only [same]
  refine .taken fun s₁ => .bind (inner.read n s₁ (by omega)) ?_ fun e s₂ _ =>
    .expect fun _ _ => .pure (by rintro ⟨⟩)
  exact fun _ _ => endsExpression_of_symbol (by decide)

/-! ### Assignments -/

theorem target_of_name : JoinedIsRead .or [.identifier] IsTarget := by
  have primary : PrimaryIsRead [.identifier] := primary_of_token rfl (by simp)
  have read := joined_of_prefixed (@prefixed_of_call _ [] primary nofun)
  exact fun n s deep => (read n s deep).imp (fun _ ends => ends) fun e result =>
    result (.inl ⟨rfl, rfl⟩)

theorem target_of_property {w : List Token.Kind} {words : List (List Token.Kind)}
    (first : PrimaryIsRead w) (each : ∀ u ∈ words, SuffixIsRead u) :
    JoinedIsRead .or (w ++ words.flatten ++ [.symbol .dot, .identifier]) IsTarget := by
  have each : ∀ u ∈ words ++ [[.symbol .dot, .identifier]], SuffixIsRead u := by
    intro u among
    rcases List.mem_append.mp among with before | last
    · exact each u before
    · cases List.mem_singleton.mp last
      exact .property
  have read := joined_of_prefixed (prefixed_of_call first each)
  rw [List.flatten_append, List.flatten_singleton, ← List.append_assoc] at read
  exact fun n s deep => (read n s deep).imp (fun _ ends => ends) fun e result =>
    result (.inr List.getLast?_concat)

theorem expression_of_assignment {w v : List Token.Kind} (starts : StartsWith startsExpression w)
    (target : JoinedIsRead .or w IsTarget) (value : ExpressionIsRead v) :
    ExpressionIsRead (w ++ .symbol .equal :: v) := by
  refine ⟨starts.append _, fun n s deep => ?_⟩
  obtain ⟨n, rfl⟩ : ∃ m, n = m + 1 := ⟨n - 1, by omega⟩
  rw [List.length_append, List.length_cons] at deep
  have equal : Ends Level.or.tightness (.symbol .equal) :=
    ⟨nofun, nofun, fun level _ => by cases level <;> rfl⟩
  unfold expression
  refine .bind (target n s (by simp only [Level.tightness]; omega)) (fun _ _ => equal)
    fun target s₁ isTarget => .peek fun _ _ _ _ => .accept_yes fun s₂ => ?_
  rw [← List.append_nil v]
  refine .bind (value.read n s₂ (by omega)) (fun _ ends => ends) fun value s₃ _ => ?_
  cases target with
  | «variable» name id => exact .freshId fun _ _ => .pure trivial
  | get object name => exact .pure trivial
  | _ => cases isTarget

end Grammar

end Lox
