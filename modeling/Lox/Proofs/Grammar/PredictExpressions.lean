import Lox.Proofs.Grammar.Predicts

/-!
# Predicting expressions

The rules for expressions read the words of their categories. What may follow is as in the strict grammar: no
token that goes on with the expression.
-/

namespace Lox

namespace Grammar

open Rule

/-! ### One token ahead -/

section

variable {K : Language Token.Kind}

theorem Level.tightness_le (level : Level) : level.tightness ≤ 5 := by cases level <;> decide

/-- The operators of a level end their left operands. -/
theorem heads_tail {level : Level} (heads : Heads K (Ends level.tightness)) :
    Heads (level.tail.words * K) (Ends (level.tightness + 1)) := by
  have ends {k : Token.Kind} (member : k ∈ level.operators) : Ends (level.tightness + 1) k :=
    ends_of_joins (Level.joins_iff.mpr member)
  rw [Category.words_tail, add_mul]
  refine .add ((starts_oneOf _).mul.heads_mul.imp fun k => ends) (heads_one_mul (heads.imp ?_))
  exact fun k ends => ends.tighter (Nat.le_succ _)

end

/-- A list goes on after a comma and ends before a closing parenthesis. -/
theorem list_predicts {α β : Type} {b : Nat} {item : Rule α} {more : α → Rule β} {result : α → β}
    [∀ a, Advances (more a)] {p : Phrase} [Possible p.words] {middle : Language Token.Kind → Prop}
    (first : Predicts b item p.words middle)
    (joint : ∀ K, Heads K (fun k => k = .symbol .comma ∨ k = .symbol .rightParen) → middle K)
    (later : ∀ a, Predicts (b - 1) (more a) (Phrase.list p).words (Heads · (· = .symbol .rightParen))) :
    Predicts b (do let a ← item; if ← accept (.symbol .comma) then more a else return result a)
      (Phrase.list p).words (Heads · (· = .symbol .rightParen)) := by
  rw [Phrase.words_list]
  refine first.bind (fun K heads => joint _ ?_) fun a => .accept ?_ (later a) (.pure _)
  · rw [add_mul]
    exact .add (starts_with (.inl rfl)).mul.heads_mul (heads_one_mul (heads.imp fun _ => .inr))
  · refine fun K heads => heads_one_mul (heads.imp ?_)
    rintro _ rfl
    decide

/-! ### One rule each -/

/-- The rules at the depth `n`, each on as many tokens as it is deep enough for. -/
structure ExpressionsPredict (n : Nat) : Prop where
  expression (b : Nat) (deep : 32 * b + 15 ≤ n) :
    Predicts b (expression n) Category.expression.words (Heads · EndsExpression)
  joined (level : Level) (b : Nat) (deep : 32 * b + 14 ≤ n + 2 * level.tightness) :
    Predicts b (joined n level) (Category.joined level).words (Heads · (Ends level.tightness))
  operand (level : Level) (b : Nat) (deep : 32 * b + 13 ≤ n + 2 * level.tightness) :
    Predicts b (operand n level) (Category.operand level).words (Heads · (Ends (level.tightness + 1)))
  joinedFrom (level : Level) (left : Expr) (b : Nat) (deep : 32 * b + 1 ≤ n) :
    Predicts b (joinedFrom n level left) level.tail.words (Heads · (Ends level.tightness))
  prefixed (b : Nat) (deep : 32 * b + 2 ≤ n) :
    Predicts b (prefixed n) Category.unary.words (Heads · (Ends 6))
  suffixes (object : Expr) (b : Nat) (deep : 32 * b + 1 ≤ n) :
    Predicts b (suffixes n object) callTail.words (Heads · (Ends 6))
  arguments (done : List Expr) (b : Nat) (deep : 32 * b + 16 ≤ n) :
    Predicts b (arguments n done) (Phrase.list (.the .expression)).words
      (Heads · (· = .symbol .rightParen))
  primary (b : Nat) (deep : 32 * b + 1 ≤ n) :
    Predicts b (primary n) Category.primary.words fun _ => True

namespace ExpressionsPredict

variable {n b : Nat} (below : ExpressionsPredict n)

include below

theorem expression_next (deep : 32 * b + 15 ≤ n + 1) :
    Predicts b (Grammar.expression (n + 1)) Category.expression.words (Heads · EndsExpression) := by
  obtain rfl | some := b.eq_zero_or_pos
  · exact .zero _
  have equal : Ends Level.or.tightness (.symbol .equal) :=
    ⟨nofun, nofun, fun level _ => by cases level <;> rfl⟩
  have value := below.expression (b - 1) (by omega)
  unfold Grammar.expression
  rw [Category.words_expression]
  refine .bind (h := fun target => by cases target <;> infer_instance) (below.joined .or b (by omega))
    (fun K heads => ?_) fun target => .peek fun equals => .accept ?_ ?_ (.pure _)
  · rw [add_mul]
    exact .add (starts_with equal).mul.heads_mul (heads_one_mul (heads.imp fun k ends => ends.1))
  · exact fun K heads => heads_one_mul (heads.imp fun k ends => ends.2)
  · cases target with
    | «variable» name id => exact value.bind_last fun _ => .freshId fun _ => .pure _
    | get object name => exact value.bind_last fun _ => .pure _
    | _ => exact value.bind_last fun _ => .note rfl fun _ => .pure _

theorem joined_next (level : Level) (deep : 32 * b + 14 ≤ n + 1 + 2 * level.tightness) :
    Predicts b (Grammar.joined (n + 1) level) (Category.joined level).words
      (Heads · (Ends level.tightness)) := by
  have tight := level.tightness_le
  obtain rfl | some := b.eq_zero_or_pos
  · exact .zero _
  unfold Grammar.joined
  rw [Category.words_joined]
  exact (below.operand level b (by omega)).bind (fun K => heads_tail) fun left =>
    below.joinedFrom level left b (by omega)

theorem operand_next (level : Level) (deep : 32 * b + 13 ≤ n + 1 + 2 * level.tightness) :
    Predicts b (Grammar.operand (n + 1) level) (Category.operand level).words
      (Heads · (Ends (level.tightness + 1))) := by
  unfold Grammar.operand
  cases level with
  | factor => exact below.prefixed b (by simp only [Level.tightness] at deep; omega)
  | _ => exact below.joined _ b (by simp only [Level.tightness] at deep ⊢; omega)

theorem joinedFrom_next (level : Level) (left : Expr) (deep : 32 * b + 1 ≤ n + 1) :
    Predicts b (Grammar.joinedFrom (n + 1) level left) level.tail.words (Heads · (Ends level.tightness)) := by
  obtain rfl | some := b.eq_zero_or_pos
  · exact .zero _
  unfold Grammar.joinedFrom
  rw [Category.words_tail]
  refine .ahead (fun k => Level.joins_iff) (by cases level <;> decide) ?_ (fun operator => ?_)
    fun _ => .pure left
  · refine fun K heads => heads_one_mul (heads.imp fun k ends operator => ?_)
    have none := ends.operator level (Nat.le_refl _)
    rw [Level.joins_iff.mpr operator] at none
    cases none
  · exact (below.operand level (b - 1) (by omega)).bind (fun K => heads_tail) fun right =>
      below.joinedFrom level _ (b - 1) (by omega)

theorem prefixed_next (deep : 32 * b + 2 ≤ n + 1) :
    Predicts b (Grammar.prefixed (n + 1)) Category.unary.words (Heads · (Ends 6)) := by
  obtain rfl | some := b.eq_zero_or_pos
  · exact .zero _
  unfold Grammar.prefixed
  rw [Category.words_unary]
  refine .ahead (fun k => ?_) (by decide) (fun K _ => ?_) (fun operator => ?_) fun _ => ?_
  · cases k with
    | symbol y => cases y <;> simp [isPrefixOperator]
    | _ => simp [isPrefixOperator]
  · refine Category.starts_call.heads_mul.imp fun k operand operator => ?_
    simp only [List.mem_cons, List.not_mem_nil, or_false] at operator
    rcases operator with rfl | rfl <;> cases operand
  · exact (below.prefixed (b - 1) (by omega)).bind_last fun _ => .pure _
  · rw [Category.words_call]
    exact (below.primary b (by omega)).bind (fun _ _ => trivial) fun callee =>
      below.suffixes callee b (by omega)

theorem suffixes_next (object : Expr) (deep : 32 * b + 1 ≤ n + 1) :
    Predicts b (Grammar.suffixes (n + 1) object) callTail.words (Heads · (Ends 6)) := by
  obtain rfl | some := b.eq_zero_or_pos
  · exact .zero _
  have later (object : Expr) : Predicts (b - 1 - 1) (Grammar.suffixes n object) callTail.words
      (Heads · (Ends 6)) := below.suffixes object _ (by omega)
  unfold Grammar.suffixes
  rw [Category.words_callTail]
  refine .accept (fun K heads => ?_) (.sees ?_ ?_ ?_ ?_) (.accept ?_ ?_ (.pure _))
  · rw [add_mul]
    exact .add (starts_with (by decide)).mul.heads_mul (heads_one_mul (heads.imp fun k ends => ends.call))
  · exact fun _ _ => (starts_single _).mul.heads_mul
  · exact fun _ _ => ((Category.starts_list Category.starts_expression).ne rfl).mul.heads_mul
  · exact .expect rfl fun paren => later _
  · exact (below.arguments [] (b - 1) (by omega)).bind (fun _ _ => (starts_single _).mul.heads_mul)
      fun arguments => .expect rfl fun paren => later _
  · exact fun _ heads => heads_one_mul (heads.imp fun k ends => ends.property)
  · exact .name rfl fun property => later _

theorem arguments_next (done : List Expr) (deep : 32 * b + 16 ≤ n + 1) :
    Predicts b (Grammar.arguments (n + 1) done) (Phrase.list (.the .expression)).words
      (Heads · (· = .symbol .rightParen)) := by
  obtain rfl | some := b.eq_zero_or_pos
  · exact .zero _
  unfold Grammar.arguments
  -- an argument past the limit is noted and read as the others are
  refine .ite (.peek fun t => .note rfl fun _ => ?_) ?_
  all_goals
    refine list_predicts (below.expression b (by omega)) (fun K heads => heads.imp ?_) fun argument =>
      below.arguments _ (b - 1) (by omega)
    rintro _ (rfl | rfl) <;> exact endsExpression_of_symbol (by decide)

theorem primary_next (deep : 32 * b + 1 ≤ n + 1) :
    Predicts b (Grammar.primary (n + 1)) Category.primary.words fun _ => True := by
  obtain rfl | some := b.eq_zero_or_pos
  · exact .zero _
  unfold Grammar.primary
  refine .peeked fun t => ?_
  -- every first token leaves its own language
  have take {f : Unit → Rule Expr} (inner : t.kind ≠ .eof)
      (next : Predicts (b - 1) (f ()) (Category.afterFirst t.kind) fun _ => True) :
      PredictsAt t b (Rule.take >>= f) Category.primary.words fun _ => True :=
    .take next inner Category.starts_primary.filled fun w => Category.cons_mem_primary
  split <;> rename_i seen
  case h_10 =>
    refine .fail rfl Category.starts_primary.filled fun w member => ?_
    replace member := Category.cons_mem_primary.mp member
    unfold Category.afterFirst at member
    split at member <;> simp_all
  all_goals
    refine take (by simp [seen]) ?_
    rw [seen]
  case h_6 => exact .expect rfl fun _ => .name_last rfl fun _ => .freshId fun _ => .pure _
  case h_9 =>
    refine (below.expression (b - 1) (by omega)).bind (fun K _ => ?_) fun _ => .expect_last rfl fun _ => .pure _
    exact (starts_with (endsExpression_of_symbol (by decide))).heads_mul
  case h_7 | h_8 => exact .freshId fun _ => .pure _
  all_goals exact .pure _

end ExpressionsPredict

theorem expressions_predict (n : Nat) : ExpressionsPredict n := by
  induction n with
  | zero =>
    have shallow (level : Level) := level.tightness_le
    constructor
    case joined | operand => exact fun level b deep => absurd (shallow level) (by omega)
    all_goals
      intros
      omega
  | succ n below => exact {
      expression := fun b => below.expression_next
      joined := fun level b => below.joined_next level
      operand := fun level b => below.operand_next level
      joinedFrom := fun level left b => below.joinedFrom_next level left
      prefixed := fun b => below.prefixed_next
      suffixes := fun object b => below.suffixes_next object
      arguments := fun done b => below.arguments_next done
      primary := fun b => below.primary_next }

end Grammar

end Lox
