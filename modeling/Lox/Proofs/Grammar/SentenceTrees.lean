import Lox.Proofs.Grammar.Normal

/-!
# Sentences have normal trees

Tokens whose kinds are a sentence of a category for expressions are those of a normal tree, one that
binds as tightly as the category demands. The repetitions of the grammar become trees that grow to the
left.
-/

namespace Lox

namespace Grammar

/-- Tokens of these kinds are those of a normal tree that binds at least so tightly. -/
def HasTree (least : Nat) (w : List Token.Kind) : Prop :=
  ∀ v : List Token, v.map (·.kind) = w →
    ∃ e : Expr, e.Normal ∧ least ≤ e.precedence ∧ Traced e.frontier v

/-- How tightly the trees of a category bind, if it is one for expressions. -/
def Category.precedence? : Category → Option Nat
  | .expression | .assignment => some 0
  | .joined level => some level.precedence
  | .unary => some 7
  | .call => some 8
  | .primary => some 9
  | _ => none

theorem HasTree.loosen {least least' : Nat} {w : List Token.Kind} (tree : HasTree least w)
    (looser : least' ≤ least) : HasTree least' w := by
  intro v kinds
  obtain ⟨e, normal, tight, agree⟩ := tree v kinds
  exact ⟨e, normal, Nat.le_trans looser tight, agree⟩

/-! ### Single tokens -/

/-- Tokens of a kind by itself, each with a tree of its own. -/
theorem hasTree_of_token {kind : Token.Kind} (tree : Token → Expr)
    (suits : ∀ t : Token, t.kind = kind →
      (tree t).Normal ∧ 9 ≤ (tree t).precedence ∧ Traced (tree t).frontier [t]) : HasTree 9 [kind] := by
  intro v kinds
  obtain ⟨t, rfl, same⟩ := List.map_eq_singleton_iff.mp kinds
  exact ⟨tree t, suits t same⟩

theorem hasTree_literal (value : Literal) : HasTree 9 [value.kind] := by
  refine hasTree_of_token (fun _ => .literal value) fun t same => ⟨trivial, Nat.le_refl 9, ?_⟩
  rw [Expr.frontier]
  exact .cons (Trace.agrees_bare_iff.mpr same) .nil

theorem hasTree_variable : HasTree 9 [.identifier] := by
  refine hasTree_of_token (fun t => .variable ⟨t.lexeme, t.line⟩ 0) fun t same =>
    ⟨trivial, Nat.le_refl 9, ?_⟩
  rw [Expr.frontier]
  exact .cons (Trace.agrees_word_iff.mpr ⟨same, rfl⟩) .nil

theorem hasTree_this : HasTree 9 [.keyword .this] := by
  refine hasTree_of_token (fun t => .this ⟨t.lexeme, t.line⟩ 0) fun t same =>
    ⟨trivial, Nat.le_refl 9, ?_⟩
  rw [Expr.frontier]
  exact .cons (Trace.agrees_word_iff.mpr ⟨same, rfl⟩) .nil

theorem hasTree_super : HasTree 9 [.keyword .super, .symbol .dot, .identifier] := by
  intro v kinds
  obtain ⟨t, _, rfl, isSuper, kinds⟩ := List.map_eq_cons_iff.mp kinds
  obtain ⟨dot, _, rfl, isDot, kinds⟩ := List.map_eq_cons_iff.mp kinds
  obtain ⟨name, rfl, isName⟩ := List.map_eq_singleton_iff.mp kinds
  refine ⟨.super ⟨t.lexeme, t.line⟩ ⟨name.lexeme, name.line⟩ 0, trivial, Nat.le_refl 9, ?_⟩
  rw [Expr.frontier]
  exact .cons (Trace.agrees_word_iff.mpr ⟨isSuper, rfl⟩)
    (.cons (Trace.agrees_bare_iff.mpr isDot)
      (.cons (Trace.agrees_word_iff.mpr ⟨isName, rfl⟩) .nil))

/-! ### One more token, operand or suffix -/

theorem HasTree.grouping {w : List Token.Kind} (inner : HasTree 0 w) :
    HasTree 9 (.symbol .leftParen :: (w ++ [.symbol .rightParen])) := by
  intro v kinds
  obtain ⟨opening, _, rfl, isOpening, kinds⟩ := List.map_eq_cons_iff.mp kinds
  obtain ⟨u, _, rfl, kindsInner, kinds⟩ := List.map_eq_append_iff.mp kinds
  obtain ⟨closing, rfl, isClosing⟩ := List.map_eq_singleton_iff.mp kinds
  obtain ⟨e, normal, -, agree⟩ := inner u kindsInner
  refine ⟨.grouping e, by rwa [Expr.Normal], Nat.le_refl 9, ?_⟩
  rw [Expr.frontier]
  exact .cons (Trace.agrees_bare_iff.mpr isOpening)
    (traced_append_iff.mpr ⟨u, _, rfl, agree, .cons (Trace.agrees_bare_iff.mpr isClosing) .nil⟩)

theorem HasTree.unary {operator : Token.Kind} {w : List Token.Kind}
    (isOperator : isPrefixOperator operator) (right : HasTree 7 w) : HasTree 7 (operator :: w) := by
  intro v kinds
  obtain ⟨t, v, rfl, rfl, kindsRight⟩ := List.map_eq_cons_iff.mp kinds
  obtain ⟨e, normal, tight, agree⟩ := right v kindsRight
  refine ⟨.unary t e, ?_, Nat.le_refl 7, ?_⟩
  · rw [Expr.Normal]
    exact ⟨isOperator, tight, normal⟩
  · rw [Expr.frontier]
    exact .cons (Trace.agrees_whole_iff.mpr rfl) agree

theorem HasTree.join {level : Level} {operator : Token.Kind} {u w : List Token.Kind}
    (joins : level.joins operator) (left : HasTree level.precedence u)
    (right : HasTree (level.precedence + 1) w) :
    HasTree level.precedence (u ++ operator :: w) := by
  intro v kinds
  obtain ⟨x, _, rfl, kindsLeft, kinds⟩ := List.map_eq_append_iff.mp kinds
  obtain ⟨t, y, rfl, rfl, kindsRight⟩ := List.map_eq_cons_iff.mp kinds
  obtain ⟨e, normalLeft, loose, agreeLeft⟩ := left x kindsLeft
  obtain ⟨f, normalRight, tight, agreeRight⟩ := right y kindsRight
  refine ⟨level.join e t f, Expr.normal_join joins normalLeft normalRight loose tight,
    Nat.le_of_eq (Expr.precedence_join joins e f).symm, ?_⟩
  rw [Expr.frontier_join]
  exact traced_append_iff.mpr
    ⟨x, _, rfl, agreeLeft, .cons (Trace.agrees_whole_iff.mpr rfl) agreeRight⟩

theorem HasTree.get {w : List Token.Kind} (object : HasTree 8 w) :
    HasTree 8 (w ++ [.symbol .dot, .identifier]) := by
  intro v kinds
  obtain ⟨u, _, rfl, kindsObject, kinds⟩ := List.map_eq_append_iff.mp kinds
  obtain ⟨dot, _, rfl, isDot, kinds⟩ := List.map_eq_cons_iff.mp kinds
  obtain ⟨name, rfl, isName⟩ := List.map_eq_singleton_iff.mp kinds
  obtain ⟨e, normal, tight, agree⟩ := object u kindsObject
  refine ⟨.get e ⟨name.lexeme, name.line⟩, ?_, Nat.le_refl 8, ?_⟩
  · rw [Expr.Normal]
    exact ⟨tight, normal⟩
  · rw [Expr.frontier]
    exact traced_append_iff.mpr ⟨u, _, rfl, agree, .cons (Trace.agrees_bare_iff.mpr isDot)
      (.cons (Trace.agrees_word_iff.mpr ⟨isName, rfl⟩) .nil)⟩

/-- Tokens of these kinds are those of normal arguments, as many as there are words. -/
def HaveTrees (words : List (List Token.Kind)) : Prop :=
  ∀ v : List Token, v.map (·.kind) = commaSeparated words →
    ∃ arguments, argumentsNormal arguments ∧ arguments.length = words.length ∧
      Traced (argumentsFrontier arguments) v

theorem haveTrees {words : List (List Token.Kind)} (each : ∀ w ∈ words, HasTree 0 w) :
    HaveTrees words := by
  induction words with
  | nil =>
    intro v kinds
    cases List.map_eq_nil_iff.mp (kinds.trans rfl)
    exact ⟨[], trivial, rfl, .nil⟩
  | cons w words ih =>
    intro v kinds
    have ih := ih fun u among => each u (List.mem_cons_of_mem w among)
    have first := each w List.mem_cons_self
    by_cases last : words = []
    · subst last
      obtain ⟨e, normal, -, agree⟩ := first v (by simpa [commaSeparated] using kinds)
      exact ⟨[e], ⟨normal, trivial⟩, rfl, by rwa [argumentsFrontier]⟩
    · rw [commaSeparated_cons w last] at kinds
      obtain ⟨u, _, rfl, kindsFirst, kinds⟩ := List.map_eq_append_iff.mp kinds
      obtain ⟨comma, v, rfl, isComma, kinds⟩ := List.map_eq_cons_iff.mp kinds
      obtain ⟨e, normal, -, agree⟩ := first u kindsFirst
      obtain ⟨arguments, normals, length, agrees⟩ := ih v kinds
      refine ⟨e :: arguments, ⟨normal, normals⟩, by rw [List.length_cons, length, List.length_cons], ?_⟩
      cases arguments with
      | nil => exact absurd (List.length_eq_zero_iff.mp length.symm) last
      | cons f rest =>
        rw [argumentsFrontier]
        exact traced_append_iff.mpr ⟨u, _, rfl, agree, .cons (Trace.agrees_bare_iff.mpr isComma) agrees⟩

theorem HasTree.call {u : List Token.Kind} {words : List (List Token.Kind)} (callee : HasTree 8 u)
    (few : words.length ≤ maxArity) (each : ∀ w ∈ words, HasTree 0 w) :
    HasTree 8 (u ++ .symbol .leftParen :: (commaSeparated words ++ [.symbol .rightParen])) := by
  intro v kinds
  obtain ⟨x, _, rfl, kindsCallee, kinds⟩ := List.map_eq_append_iff.mp kinds
  obtain ⟨opening, _, rfl, isOpening, kinds⟩ := List.map_eq_cons_iff.mp kinds
  obtain ⟨y, _, rfl, kindsArguments, kinds⟩ := List.map_eq_append_iff.mp kinds
  obtain ⟨closing, rfl, isClosing⟩ := List.map_eq_singleton_iff.mp kinds
  obtain ⟨e, normal, tight, agree⟩ := callee x kindsCallee
  obtain ⟨arguments, normals, length, agrees⟩ := haveTrees each y kindsArguments
  refine ⟨.call e closing.line arguments, ?_, Nat.le_refl 8, ?_⟩
  · rw [Expr.Normal]
    exact ⟨length ▸ few, tight, normal, normals⟩
  · rw [Expr.frontier]
    refine traced_append_iff.mpr ⟨x, _, rfl, agree, .cons (Trace.agrees_bare_iff.mpr isOpening) ?_⟩
    exact traced_append_iff.mpr
      ⟨y, _, rfl, agrees, .cons (Trace.agrees_placed_iff.mpr ⟨isClosing, rfl⟩) .nil⟩

theorem HasTree.assign {w : List Token.Kind} (value : HasTree 0 w) :
    HasTree 0 (.identifier :: .symbol .equal :: w) := by
  intro v kinds
  obtain ⟨name, _, rfl, isName, kinds⟩ := List.map_eq_cons_iff.mp kinds
  obtain ⟨equal, v, rfl, isEqual, kinds⟩ := List.map_eq_cons_iff.mp kinds
  obtain ⟨e, normal, -, agree⟩ := value v kinds
  refine ⟨.assign ⟨name.lexeme, name.line⟩ e 0, by rwa [Expr.Normal], Nat.zero_le _, ?_⟩
  rw [Expr.frontier]
  exact .cons (Trace.agrees_word_iff.mpr ⟨isName, rfl⟩)
    (.cons (Trace.agrees_bare_iff.mpr isEqual) agree)

theorem HasTree.set {u w : List Token.Kind} (object : HasTree 8 u) (value : HasTree 0 w) :
    HasTree 0 (u ++ .symbol .dot :: .identifier :: .symbol .equal :: w) := by
  intro v kinds
  obtain ⟨x, _, rfl, kindsObject, kinds⟩ := List.map_eq_append_iff.mp kinds
  obtain ⟨dot, _, rfl, isDot, kinds⟩ := List.map_eq_cons_iff.mp kinds
  obtain ⟨name, _, rfl, isName, kinds⟩ := List.map_eq_cons_iff.mp kinds
  obtain ⟨equal, y, rfl, isEqual, kinds⟩ := List.map_eq_cons_iff.mp kinds
  obtain ⟨e, normalObject, tight, agreeObject⟩ := object x kindsObject
  obtain ⟨f, normalValue, -, agreeValue⟩ := value y kinds
  refine ⟨.set e ⟨name.lexeme, name.line⟩ f, ?_, Nat.zero_le _, ?_⟩
  · rw [Expr.Normal]
    exact ⟨tight, normalObject, normalValue⟩
  · rw [Expr.frontier]
    exact traced_append_iff.mpr ⟨x, _, rfl, agreeObject, .cons (Trace.agrees_bare_iff.mpr isDot)
      (.cons (Trace.agrees_word_iff.mpr ⟨isName, rfl⟩)
        (.cons (Trace.agrees_bare_iff.mpr isEqual) agreeValue))⟩

/-! ### The productions -/

/-- What comes again and again makes the tree to its left grow. -/
theorem HasTree.many {least : Nat} {u : List Token.Kind} {words : List (List Token.Kind)}
    (first : HasTree least u)
    (grows : ∀ w ∈ words, ∀ u, HasTree least u → HasTree least (u ++ w)) :
    HasTree least (u ++ words.flatten) := by
  induction words generalizing u with
  | nil => rwa [List.flatten_nil, List.append_nil]
  | cons w words ih =>
    rw [List.flatten_cons, ← List.append_assoc]
    exact ih (grows w List.mem_cons_self u first) fun v among => grows v (List.mem_cons_of_mem w among)

/-- The tokens of a sentence of the category have a tree that binds tightly enough for it. -/
def Category.HasTrees (c : Category) (w : List Token.Kind) : Prop :=
  ∀ least ∈ c.precedence?, HasTree least w

theorem Category.HasTrees.hasTree {c : Category} {w : List Token.Kind} {least : Nat}
    (trees : c.HasTrees w) (same : c.precedence? = some least) : HasTree least w :=
  trees least same

theorem Category.precedence?_operand (level : Level) :
    (Category.operand level).precedence? = some (level.precedence + 1) := by
  cases level <;> rfl

theorem assignment_hasTree {w : List Token.Kind}
    (matched : (production .assignment).Matches Category.HasTrees w) : HasTree 0 w := by
  rcases matched with
    ⟨_, _, rfl, target, _, _, rfl, ⟨_, isName, rfl⟩, _, u, rfl, ⟨_, isEqual, rfl⟩, value⟩ | joined
  · cases List.mem_singleton.mp isName
    cases List.mem_singleton.mp isEqual
    have value : HasTree 0 u := value.hasTree rfl
    rcases target with rfl | ⟨object, _, rfl, call, _, isDot, rfl⟩
    · exact value.assign
    · cases List.mem_singleton.mp isDot
      have set := (call.hasTree rfl).set value
      simpa using set
  · exact (joined.hasTree rfl).loosen (Nat.zero_le _)

theorem joined_hasTree {level : Level} {w : List Token.Kind}
    (matched : (production (.joined level)).Matches Category.HasTrees w) :
    HasTree level.precedence w := by
  obtain ⟨first, _, rfl, operand, words, rfl, each⟩ := matched
  refine ((operand.hasTree (Category.precedence?_operand level)).loosen (Nat.le_succ _)).many ?_
  intro w among u left
  obtain ⟨_, v, rfl, ⟨operator, member, rfl⟩, right⟩ := each w among
  exact left.join (Level.joins_iff.mpr member) (right.hasTree (Category.precedence?_operand level))

theorem unary_hasTree {w : List Token.Kind}
    (matched : (production .unary).Matches Category.HasTrees w) : HasTree 7 w := by
  rcases matched with ⟨_, v, rfl, ⟨operator, member, rfl⟩, right⟩ | call
  · have isOperator : isPrefixOperator operator := by
      simp only [List.mem_cons, List.not_mem_nil, or_false] at member
      rcases member with rfl | rfl <;> rfl
    exact (right.hasTree rfl).unary isOperator
  · exact (call.hasTree rfl).loosen (Nat.le_succ _)

theorem call_hasTree {w : List Token.Kind}
    (matched : (production .call).Matches Category.HasTrees w) : HasTree 8 w := by
  obtain ⟨first, _, rfl, operand, words, rfl, each⟩ := matched
  refine ((operand.hasTree rfl).loosen (Nat.le_succ _)).many ?_
  intro w among u callee
  rcases each w among with
    ⟨_, _, rfl, ⟨_, isOpening, rfl⟩, arguments, _, rfl, list, _, isClosing, rfl⟩ |
    ⟨_, _, rfl, ⟨_, isDot, rfl⟩, _, isName, rfl⟩
  · cases List.mem_singleton.mp isOpening
    cases List.mem_singleton.mp isClosing
    rcases list with rfl | ⟨words, -, few, rfl, expressions⟩
    · exact @HasTree.call u [] callee (Nat.zero_le _) (by simp)
    · exact callee.call few fun w among => (expressions w among).hasTree rfl
  · cases List.mem_singleton.mp isDot
    cases List.mem_singleton.mp isName
    exact callee.get

theorem primary_hasTree {w : List Token.Kind}
    (matched : (production .primary).Matches Category.HasTrees w) : HasTree 9 w := by
  have word {k : Token.Kind} (isWord : ∃ j ∈ [k], w = [j]) (tree : HasTree 9 [k]) : HasTree 9 w := by
    obtain ⟨_, member, rfl⟩ := isWord
    cases List.mem_singleton.mp member
    exact tree
  rcases matched with ⟨x, rfl⟩ | ⟨text, rfl⟩ | isTrue | isFalse | isNil | isThis | isName | grouping |
    ⟨_, _, rfl, ⟨_, isSuper, rfl⟩, _, _, rfl, ⟨_, isDot, rfl⟩, _, isName, rfl⟩
  · exact hasTree_literal (.number x)
  · exact hasTree_literal (.string text)
  · exact word isTrue (hasTree_literal (.bool true))
  · exact word isFalse (hasTree_literal (.bool false))
  · exact word isNil (hasTree_literal .nil)
  · exact word isThis hasTree_this
  · exact word isName hasTree_variable
  · obtain ⟨_, _, rfl, ⟨_, isOpening, rfl⟩, inner, _, rfl, expression, _, isClosing, rfl⟩ := grouping
    cases List.mem_singleton.mp isOpening
    cases List.mem_singleton.mp isClosing
    exact (expression.hasTree rfl).grouping
  · cases List.mem_singleton.mp isSuper
    cases List.mem_singleton.mp isDot
    cases List.mem_singleton.mp isName
    exact hasTree_super

theorem hasTrees_of_production {c : Category} {w : List Token.Kind}
    (matched : (production c).Matches Category.HasTrees w) : c.HasTrees w := by
  intro least same
  cases c with
  | expression => exact matched least same
  | assignment =>
    cases same
    exact assignment_hasTree matched
  | joined level =>
    cases same
    exact joined_hasTree matched
  | unary =>
    cases same
    exact unary_hasTree matched
  | call =>
    cases same
    exact call_hasTree matched
  | primary =>
    cases same
    exact primary_hasTree matched
  | _ => cases same

/-- Tokens whose kinds are an expression are those of a normal tree. -/
theorem expression_hasTree {w : List Token.Kind} (sentence : Sentence .expression w) : HasTree 0 w :=
  Category.HasTrees.hasTree (sentence.matches fun _ _ => hasTrees_of_production) rfl

end Grammar

end Lox
