import Lox.Proofs.Grammar.AcceptExpressions
import Lox.Proofs.Syntax.Renumbering
import Mathlib.Data.List.Forall2

/-!
# Normal trees

A tree of an expression holds no parentheses but those of groupings and calls, so it can be written down
only if each operand binds as tightly as its place demands. Such a tree is normal, and its frontier is
what it keeps of its tokens, in the order they stand in a source. Neither depends on node identities.
-/

namespace Lox

open Grammar

/-! ### The tokens of a tree -/

/-- What a tree keeps of a token: at least its kind. -/
structure Trace where
  kind : Token.Kind
  lexeme : Option String
  line : Option Nat

namespace Trace

/-- A token of which only the kind is kept. -/
def bare (kind : Token.Kind) : Trace := ⟨kind, none, none⟩

/-- A token of which the kind and the line are kept. -/
def placed (kind : Token.Kind) (line : Nat) : Trace := ⟨kind, none, some line⟩

/-- A token that is kept whole. -/
def whole (t : Token) : Trace := ⟨t.kind, some t.lexeme, some t.line⟩

/-- A token that is kept as a name. -/
def word (kind : Token.Kind) (name : Name) : Trace := ⟨kind, some name.text, some name.line⟩

/-- The token has the kind, and what else is kept of it. -/
def Agrees (trace : Trace) (t : Token) : Prop :=
  t.kind = trace.kind ∧ (∀ lexeme ∈ trace.lexeme, t.lexeme = lexeme) ∧
    ∀ line ∈ trace.line, t.line = line

/-- A token with what is kept of it. -/
def token (trace : Trace) : Token :=
  ⟨trace.kind, trace.lexeme.getD "", trace.line.getD 0⟩

theorem agrees_token (trace : Trace) : trace.Agrees trace.token := by
  refine ⟨rfl, ?_, ?_⟩
  · intro lexeme kept
    rw [token, Option.mem_def.mp kept, Option.getD_some]
  · intro line kept
    rw [token, Option.mem_def.mp kept, Option.getD_some]

@[simp] theorem agrees_bare_iff {kind : Token.Kind} {t : Token} :
    (bare kind).Agrees t ↔ t.kind = kind := by
  simp [Agrees, bare]

@[simp] theorem agrees_placed_iff {kind : Token.Kind} {line : Nat} {t : Token} :
    (placed kind line).Agrees t ↔ t.kind = kind ∧ t.line = line := by
  simp [Agrees, placed]

@[simp] theorem agrees_whole_iff {t t' : Token} : (whole t').Agrees t ↔ t = t' := by
  cases t
  cases t'
  simp [Agrees, whole]

@[simp] theorem agrees_word_iff {kind : Token.Kind} {name : Name} {t : Token} :
    (word kind name).Agrees t ↔ t.kind = kind ∧ name = ⟨t.lexeme, t.line⟩ := by
  cases name
  simp [Agrees, word, eq_comm]

end Trace

/-- The tokens are those that the traces are of. -/
abbrev Traced (traces : List Trace) (tokens : List Token) : Prop :=
  List.Forall₂ Trace.Agrees traces tokens

theorem traced_cons_iff {trace : Trace} {traces : List Trace} {tokens : List Token} :
    Traced (trace :: traces) tokens ↔ ∃ t v, tokens = t :: v ∧ trace.Agrees t ∧ Traced traces v := by
  constructor
  · intro agree
    cases agree with
    | @cons _ t _ v first next => exact ⟨t, v, rfl, first, next⟩
  · rintro ⟨t, v, rfl, first, next⟩
    exact .cons first next

theorem traced_append_iff {front back : List Trace} {tokens : List Token} :
    Traced (front ++ back) tokens ↔
      ∃ u v, tokens = u ++ v ∧ Traced front u ∧ Traced back v := by
  constructor
  · intro agree
    refine ⟨tokens.take front.length, tokens.drop front.length,
      (List.take_append_drop _ _).symm, ?_, ?_⟩
    · simpa using List.forall₂_take front.length agree
    · simpa using List.forall₂_drop front.length agree
  · rintro ⟨u, v, rfl, first, next⟩
    exact List.rel_append first next

theorem kinds_of_traced {traces : List Trace} {tokens : List Token} (agree : Traced traces tokens) :
    tokens.map (·.kind) = traces.map (·.kind) := by
  induction agree with
  | nil => rfl
  | cons first _ ih => rw [List.map_cons, List.map_cons, first.1, ih]

theorem traced_map_token (traces : List Trace) : Traced traces (traces.map Trace.token) := by
  induction traces with
  | nil => exact .nil
  | cons trace traces ih => exact .cons trace.agrees_token ih

/-- The token that a constant is written as. -/
def Literal.kind : Literal → Token.Kind
  | .number value => .number value
  | .string text => .string text
  | .bool true => .keyword .true
  | .bool false => .keyword .false
  | .nil => .keyword .nil

mutual

/-- What the tree keeps of its tokens, in the order of the source. -/
def Expr.frontier : Expr → List Trace
  | .literal value => [.bare value.kind]
  | .grouping inner =>
    .bare (.symbol .leftParen) :: (inner.frontier ++ [.bare (.symbol .rightParen)])
  | .unary operator right => .whole operator :: right.frontier
  | .binary left operator right | .logical left operator right =>
    left.frontier ++ .whole operator :: right.frontier
  | .variable name _ => [.word .identifier name]
  | .assign name value _ =>
    .word .identifier name :: .bare (.symbol .equal) :: value.frontier
  | .call callee line arguments =>
    callee.frontier ++ .bare (.symbol .leftParen) ::
      (argumentsFrontier arguments ++ [.placed (.symbol .rightParen) line])
  | .get object name => object.frontier ++ [.bare (.symbol .dot), .word .identifier name]
  | .set object name value =>
    object.frontier ++
      .bare (.symbol .dot) :: .word .identifier name :: .bare (.symbol .equal) :: value.frontier
  | .this keyword _ => [.word (.keyword .this) keyword]
  | .super keyword method _ =>
    [.word (.keyword .super) keyword, .bare (.symbol .dot), .word .identifier method]

/-- The same for arguments, with the commas between them. -/
def argumentsFrontier : List Expr → List Trace
  | [] => []
  | [e] => e.frontier
  | e :: f :: rest => e.frontier ++ .bare (.symbol .comma) :: argumentsFrontier (f :: rest)

end

/-! ### Precedence -/

/-- The level that an operator between operands belongs to. -/
def Grammar.levelOf? (operator : Token.Kind) : Option Level :=
  [Level.or, .and, .equality, .comparison, .term, .factor].find? (·.joins operator)

/-- Operators of a higher number bind more tightly; an assignment binds loosest, at 0. -/
def Grammar.Level.precedence (level : Level) : Nat := level.tightness + 1

/-- How tightly the tree binds, by what stands at its root: the operators of the levels from 1 to 6, a
prefix operator at 7, a call or property at 8 and an operand proper at 9. -/
def Expr.precedence : Expr → Nat
  | .assign .. | .set .. => 0
  | .binary _ operator _ | .logical _ operator _ =>
    (levelOf? operator.kind).elim 0 Level.precedence
  | .unary .. => 7
  | .call .. | .get .. => 8
  | .literal .. | .grouping .. | .variable .. | .this .. | .super .. => 9

/-- The operator is of one of the levels, its left operand binds at least as tightly and its right
operand more tightly. -/
def Joins (levels : List Level) (left : Expr) (operator : Token) (right : Expr) : Prop :=
  ∃ level ∈ levels, level.joins operator.kind ∧ level.precedence ≤ left.precedence ∧
    level.precedence < right.precedence

mutual

/-- Each operand binds as tightly as its place demands, each operator is of the level it is used at,
and no call has more than `maxArity` arguments. -/
def Expr.Normal : Expr → Prop
  | .literal _ | .variable _ _ | .this _ _ | .super _ _ _ => True
  | .grouping inner => inner.Normal
  | .unary operator right =>
    isPrefixOperator operator.kind ∧ 7 ≤ right.precedence ∧ right.Normal
  | .binary left operator right =>
    Joins [.equality, .comparison, .term, .factor] left operator right ∧ left.Normal ∧ right.Normal
  | .logical left operator right =>
    Joins [.or, .and] left operator right ∧ left.Normal ∧ right.Normal
  | .assign _ value _ => value.Normal
  | .call callee _ arguments =>
    arguments.length ≤ maxArity ∧ 8 ≤ callee.precedence ∧ callee.Normal ∧ argumentsNormal arguments
  | .get object _ => 8 ≤ object.precedence ∧ object.Normal
  | .set object _ value => 8 ≤ object.precedence ∧ object.Normal ∧ value.Normal

def argumentsNormal : List Expr → Prop
  | [] => True
  | e :: rest => e.Normal ∧ argumentsNormal rest

end

theorem Grammar.levelOf?_eq_some {level : Level} {operator : Token.Kind}
    (joins : level.joins operator) : levelOf? operator = some level := by
  cases found : levelOf? operator with
  | none =>
    rw [levelOf?, List.find?_eq_none] at found
    exact absurd joins (found level (by cases level <;> decide))
  | some other =>
    rw [levelOf?] at found
    have also : other.joins operator := by simpa using List.find?_some found
    rw [Level.joins_unique joins also]

theorem Grammar.Level.precedence_le (level : Level) : level.precedence ≤ 6 := by
  cases level <;> decide

theorem precedence_operator_le (operator : Token.Kind) :
    (levelOf? operator).elim 0 Level.precedence ≤ 6 := by
  cases levelOf? operator with
  | none => exact Nat.zero_le 6
  | some level => exact level.precedence_le

theorem Expr.precedence_join {level : Level} {operator : Token}
    (joins : level.joins operator.kind) (left right : Expr) :
    (level.join left operator right).precedence = level.precedence := by
  cases level <;> simp only [Level.join, precedence, levelOf?_eq_some joins, Option.elim]

theorem Expr.frontier_join (level : Level) (left : Expr) (operator : Token) (right : Expr) :
    (level.join left operator right).frontier =
      left.frontier ++ .whole operator :: right.frontier := by
  cases level <;> simp only [Level.join, frontier]

theorem Expr.normal_join {level : Level} {left : Expr} {operator : Token} {right : Expr}
    (joins : level.joins operator.kind) (first : left.Normal) (next : right.Normal)
    (loose : level.precedence ≤ left.precedence) (tight : level.precedence < right.precedence) :
    (level.join left operator right).Normal := by
  have arithmetic (member : level ∈ [Level.equality, .comparison, .term, .factor]) :
      (Expr.binary left operator right).Normal := by
    rw [Normal]
    exact ⟨⟨level, member, joins, loose, tight⟩, first, next⟩
  have logical (member : level ∈ [Level.or, .and]) : (Expr.logical left operator right).Normal := by
    rw [Normal]
    exact ⟨⟨level, member, joins, loose, tight⟩, first, next⟩
  cases level with
  | or | and => exact logical (by decide)
  | _ => exact arithmetic (by decide)

/-! ### How normal trees start -/

/-- A normal tree of a call or an operand proper starts with no operator. -/
theorem Expr.Normal.starts_operand {e : Expr} (normal : e.Normal) (tight : 8 ≤ e.precedence) :
    StartsWith startsOperand (e.frontier.map (·.kind)) := by
  cases e with
  | literal value =>
    rw [frontier]
    refine ⟨_, _, rfl, ?_⟩
    cases value with
    | bool b => cases b <;> rfl
    | _ => rfl
  | grouping | «variable» | this | super =>
    rw [frontier]
    exact ⟨_, _, rfl, rfl⟩
  | call callee line arguments =>
    rw [Normal] at normal
    rw [frontier, List.map_append]
    exact (normal.2.2.1.starts_operand normal.2.1).append _
  | get object name =>
    rw [Normal] at normal
    rw [frontier, List.map_append]
    exact (normal.2.starts_operand normal.1).append _
  | binary left operator right | logical left operator right =>
    exact absurd tight (Nat.not_le.mpr (Nat.lt_of_le_of_lt (precedence_operator_le _) (by decide)))
  | unary operator right => exact absurd tight (by simp only [precedence]; decide)
  | assign name value id => exact absurd tight (by simp only [precedence]; decide)
  | set object name value => exact absurd tight (by simp only [precedence]; decide)

/-- The first token of a normal tree may start an expression. -/
theorem Expr.Normal.starts {e : Expr} (normal : e.Normal) :
    StartsWith startsExpression (e.frontier.map (·.kind)) := by
  have operand {k : Token.Kind} (starts : startsOperand k) : startsExpression k := by
    rw [startsExpression, starts, Bool.or_true]
  cases e with
  | unary operator right =>
    rw [Normal] at normal
    rw [frontier]
    refine ⟨_, _, rfl, ?_⟩
    exact Bool.or_eq_true_iff.mpr (.inl normal.1)
  | binary left operator right | logical left operator right =>
    rw [Normal] at normal
    rw [frontier, List.map_append]
    exact normal.2.1.starts.append _
  | assign name value id =>
    rw [frontier]
    exact ⟨_, _, rfl, rfl⟩
  | set object name value =>
    rw [Normal] at normal
    rw [frontier, List.map_append]
    exact normal.2.1.starts.append _
  | literal | grouping | «variable» | this | super | call | get =>
    exact (normal.starts_operand (by simp only [precedence]; decide)).imp fun _ => operand

theorem starts_of_argumentsNormal {e : Expr} {rest : List Expr} (normal : argumentsNormal (e :: rest)) :
    StartsWith startsExpression ((argumentsFrontier (e :: rest)).map (·.kind)) := by
  rw [argumentsNormal] at normal
  cases rest with
  | nil =>
    rw [argumentsFrontier]
    exact normal.1.starts
  | cons f rest =>
    rw [argumentsFrontier, List.map_append]
    exact normal.1.starts.append _

/-! ### Trees that differ in their identities alone -/

/-- The tree without the identities of its nodes. -/
def Expr.anonymous (e : Expr) : Expr := e.renumber fun _ => 0

/-- The trees are the same but for the identities of their nodes. -/
def Expr.Alike (e e' : Expr) : Prop := e.anonymous = e'.anonymous

theorem Expr.precedence_renumber (f : NodeId → NodeId) (e : Expr) :
    (e.renumber f).precedence = e.precedence := by
  cases e <;> simp only [renumber, precedence]

mutual

theorem Expr.frontier_renumber (f : NodeId → NodeId) (e : Expr) :
    (e.renumber f).frontier = e.frontier := by
  cases e with
  | literal value => rfl
  | grouping inner => rw [Expr.renumber, Expr.frontier, inner.frontier_renumber, Expr.frontier]
  | unary operator right => rw [Expr.renumber, Expr.frontier, right.frontier_renumber, Expr.frontier]
  | binary left operator right =>
    rw [Expr.renumber, Expr.frontier, left.frontier_renumber, right.frontier_renumber, Expr.frontier]
  | logical left operator right =>
    rw [Expr.renumber, Expr.frontier, left.frontier_renumber, right.frontier_renumber, Expr.frontier]
  | «variable» name id => rfl
  | assign name value id => rw [Expr.renumber, Expr.frontier, value.frontier_renumber, Expr.frontier]
  | call callee line arguments =>
    rw [Expr.renumber, Expr.frontier, callee.frontier_renumber, argumentsFrontier_renumber, Expr.frontier]
  | get object name => rw [Expr.renumber, Expr.frontier, object.frontier_renumber, Expr.frontier]
  | set object name value =>
    rw [Expr.renumber, Expr.frontier, object.frontier_renumber, value.frontier_renumber, Expr.frontier]
  | this keyword id => rfl
  | super keyword method id => rfl

theorem argumentsFrontier_renumber (f : NodeId → NodeId) (arguments : List Expr) :
    argumentsFrontier (renumberExpressions f arguments) = argumentsFrontier arguments := by
  match arguments with
  | [] => rfl
  | [e] => rw [renumberExpressions, renumberExpressions, argumentsFrontier, e.frontier_renumber,
      argumentsFrontier]
  | e :: e' :: rest =>
    have later := argumentsFrontier_renumber f (e' :: rest)
    rw [renumberExpressions] at later
    rw [renumberExpressions, renumberExpressions, argumentsFrontier, e.frontier_renumber, later,
      argumentsFrontier]

end

theorem Expr.Alike.frontier {e e' : Expr} (alike : e.Alike e') : e.frontier = e'.frontier := by
  rw [← e.frontier_renumber fun _ => 0, ← e'.frontier_renumber fun _ => 0]
  exact congrArg Expr.frontier alike

mutual

theorem Expr.normal_renumber_iff (f : NodeId → NodeId) (e : Expr) :
    (e.renumber f).Normal ↔ e.Normal := by
  cases e with
  | literal value => rfl
  | grouping inner => rw [Expr.renumber, Expr.Normal, inner.normal_renumber_iff, Expr.Normal]
  | unary operator right =>
    rw [Expr.renumber, Expr.Normal, right.normal_renumber_iff, Expr.precedence_renumber, Expr.Normal]
  | binary left operator right =>
    rw [Expr.renumber, Expr.Normal, left.normal_renumber_iff, right.normal_renumber_iff, Joins,
      left.precedence_renumber, right.precedence_renumber, Expr.Normal, Joins]
  | logical left operator right =>
    rw [Expr.renumber, Expr.Normal, left.normal_renumber_iff, right.normal_renumber_iff, Joins,
      left.precedence_renumber, right.precedence_renumber, Expr.Normal, Joins]
  | «variable» name id => rfl
  | assign name value id => rw [Expr.renumber, Expr.Normal, value.normal_renumber_iff, Expr.Normal]
  | call callee line arguments =>
    rw [Expr.renumber, Expr.Normal, callee.normal_renumber_iff, Expr.precedence_renumber,
      argumentsNormal_renumber_iff, renumberExpressions_eq_map, List.length_map, Expr.Normal]
  | get object name =>
    rw [Expr.renumber, Expr.Normal, object.normal_renumber_iff, Expr.precedence_renumber, Expr.Normal]
  | set object name value =>
    rw [Expr.renumber, Expr.Normal, object.normal_renumber_iff, Expr.precedence_renumber,
      value.normal_renumber_iff, Expr.Normal]
  | this keyword id => rfl
  | super keyword method id => rfl

theorem argumentsNormal_renumber_iff (f : NodeId → NodeId) (arguments : List Expr) :
    argumentsNormal (renumberExpressions f arguments) ↔ argumentsNormal arguments := by
  cases arguments with
  | nil => rfl
  | cons e rest =>
    rw [renumberExpressions, argumentsNormal, e.normal_renumber_iff,
      argumentsNormal_renumber_iff f rest, argumentsNormal]

end

theorem Expr.Alike.normal {e e' : Expr} (alike : e.Alike e') : e.Normal ↔ e'.Normal := by
  rw [← e.normal_renumber_iff fun _ => 0, ← e'.normal_renumber_iff fun _ => 0]
  exact iff_of_eq (congrArg Expr.Normal alike)

end Lox
