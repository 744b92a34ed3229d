import Lox.Proofs.Grammar.AcceptPrograms
import Lox.Proofs.Grammar.Loose

/-!
# How loose sentences start

The words of a category as an equation between languages, split up the way its rule reads them, and the kinds
of tokens its words start with. A rule that looks at one token ahead can tell the ways to go on apart because
these kinds differ.
-/

namespace Lox

namespace Grammar

/-! ### Languages and their first tokens -/

/-- The language has a word. -/
class Possible (L : Language Token.Kind) : Prop where
  word : ∃ w, w ∈ L

/-- The words of the language, as far as there is anything to them, start with kinds that qualify. -/
def Heads (L : Language Token.Kind) (qualifies : Token.Kind → Prop) : Prop :=
  ∀ k w, k :: w ∈ L → qualifies k

/-- The words of the language start, and do so with kinds that qualify. -/
structure Starts (L : Language Token.Kind) (qualifies : Token.Kind → Prop) : Prop where
  heads : Heads L qualifies
  filled : [] ∉ L

section

variable {L M K : Language Token.Kind} {qualifies weaker : Token.Kind → Prop} {k : Token.Kind}

instance : Possible 1 := ⟨[], rfl⟩

instance : Possible (single k) := ⟨[k], rfl⟩

instance [first : Possible L] [next : Possible M] : Possible (L * M) := by
  obtain ⟨v, first⟩ := first.word
  obtain ⟨w, next⟩ := next.word
  exact ⟨v ++ w, Language.append_mem_mul first next⟩

instance [left : Possible L] : Possible (L + M) := by
  obtain ⟨w, left⟩ := left.word
  exact ⟨w, .inl left⟩

theorem Heads.imp (heads : Heads L qualifies) (imp : ∀ k, qualifies k → weaker k) : Heads L weaker :=
  fun k w member => imp k (heads k w member)

theorem Heads.add (left : Heads L qualifies) (right : Heads M qualifies) : Heads (L + M) qualifies :=
  fun k w member => member.elim (left k w) (right k w)

/-- What comes after a word matters only if the word may be empty. -/
theorem Heads.mul (first : Heads L qualifies) (next : [] ∈ L → Heads K qualifies) :
    Heads (L * K) qualifies := by
  intro k w member
  obtain ⟨u, inside, v, later, same⟩ := Language.mem_mul.mp member
  cases u with
  | nil =>
    cases same
    exact next inside k w later
  | cons j u =>
    cases same
    exact first k u inside

theorem Starts.imp (starts : Starts L qualifies) (imp : ∀ k, qualifies k → weaker k) : Starts L weaker :=
  ⟨starts.heads.imp imp, starts.filled⟩

theorem Starts.add (left : Starts L qualifies) (right : Starts M qualifies) : Starts (L + M) qualifies :=
  ⟨left.heads.add right.heads, fun empty => empty.elim left.filled right.filled⟩

theorem Starts.mul (starts : Starts L qualifies) : Starts (L * M) qualifies := by
  refine ⟨starts.heads.mul fun empty => absurd empty starts.filled, fun empty => ?_⟩
  obtain ⟨u, inside, v, -, same⟩ := Language.mem_mul.mp empty
  cases (List.append_eq_nil_iff.mp same).1
  exact starts.filled inside

theorem Starts.ne {qualifies : Token.Kind → Bool} (starts : Starts L (qualifies ·))
    (other : qualifies k = false) : Starts L (· ≠ k) := by
  refine starts.imp fun j good same => ?_
  rw [same, other] at good
  cases good

theorem starts_single (k : Token.Kind) : Starts (single k) (· = k) := by
  refine ⟨?_, nofun⟩
  rintro _ _ ⟨⟩
  rfl

theorem starts_oneOf (kinds : List Token.Kind) : Starts (Phrase.oneOf kinds).words (· ∈ kinds) := by
  refine ⟨?_, nofun⟩
  rintro _ _ ⟨member⟩
  exact member

theorem starts_with (good : qualifies k) : Starts (single k) qualifies :=
  (starts_single k).imp fun _ same => same ▸ good

theorem Starts.heads_mul (starts : Starts L qualifies) : Heads (L * K) qualifies := starts.mul.heads

theorem heads_one_mul (heads : Heads K qualifies) : Heads (1 * K) qualifies := by rwa [one_mul]

end

/-! ### Expressions -/

/-- The operators of a level with their right operands. -/
def Level.tail (level : Level) : Phrase :=
  .many (.seq (.oneOf level.operators) (.the (.operand level)))

open Phrase in
/-- The argument lists and property names that make a call. -/
def callTail : Phrase :=
  .many <| .or (.seq (symbol .leftParen) <| .seq (.optional (.list (.the .expression))) (symbol .rightParen))
    (.seq (symbol .dot) name)

namespace Category

open Phrase

theorem words_expression :
    expression.words =
      (joined .or).words * (single (.symbol .equal) * expression.words + 1) := by
  have same : expression.words = assignment.words := words_eq _
  rw [same, mul_add, mul_one]
  conv_lhs => rw [words_eq]
  simp only [looseProduction, symbol, words_or, words_seq, words_oneOf, words_the]

theorem words_joined (level : Level) :
    (joined level).words = (operand level).words * level.tail.words := by
  rw [words_eq]
  exact words_seq _ _

theorem words_tail (level : Level) :
    level.tail.words =
      (oneOf level.operators).words * ((operand level).words * level.tail.words) + 1 := by
  rw [add_comm, ← mul_assoc]
  exact (words_many _).trans (congrArg (1 + · * _) (words_seq _ _))

theorem words_unary :
    unary.words = (oneOf [.symbol .bang, .symbol .minus]).words * unary.words + call.words := by
  conv_lhs => rw [words_eq]
  simp only [looseProduction, production, words_or, words_seq, words_the]

theorem words_call : call.words = primary.words * callTail.words := by
  rw [words_eq]
  exact words_seq _ _

theorem words_callTail :
    callTail.words =
      single (.symbol .leftParen) * (single (.symbol .rightParen) * callTail.words +
        (list (.the .expression)).words * (single (.symbol .rightParen) * callTail.words)) +
      (single (.symbol .dot) * (single .identifier * callTail.words) + 1) := by
  refine (words_many _).trans ?_
  change 1 + _ * callTail.words = _
  simp only [symbol, name, words_or, words_seq, words_optional, words_oneOf, add_mul, one_mul, mul_assoc]
  rw [add_comm, add_assoc]

/-- What goes on after the first token of an operand that has no prefix operator. -/
def afterFirst : Token.Kind → Language Token.Kind
  | .number _ | .string _ | .identifier => 1
  | .keyword .true | .keyword .false | .keyword .nil | .keyword .this => 1
  | .keyword .super => single (.symbol .dot) * single .identifier
  | .symbol .leftParen => expression.words * single (.symbol .rightParen)
  | _ => 0

theorem cons_mem_primary {k : Token.Kind} {w : List Token.Kind} :
    k :: w ∈ primary.words ↔ w ∈ afterFirst k := by
  have number : k :: w ∈ Phrase.number.words ↔ ∃ x, k = .number x ∧ w = [] := by
    constructor
    · intro derives
      cases derives with
      | number x => exact ⟨x, rfl, rfl⟩
    · rintro ⟨x, rfl, rfl⟩
      exact .number x
  have string : k :: w ∈ Phrase.string.words ↔ ∃ text, k = .string text ∧ w = [] := by
    constructor
    · intro derives
      cases derives with
      | string text => exact ⟨text, rfl, rfl⟩
    · rintro ⟨text, rfl, rfl⟩
      exact .string text
  rw [words_eq]
  simp only [looseProduction, production, keyword, symbol, name, words_or, words_seq, words_oneOf,
    words_the, Language.mem_add, number, string, cons_mem_single_mul, mem_single, List.cons.injEq]
  cases k with
  | keyword k => cases k <;> simp [afterFirst, Language.mem_one]
  | symbol y => cases y <;> simp [afterFirst]
  | _ => simp [afterFirst, Language.mem_one]

/-! ### First tokens -/

/-- What holds of expressions with no operator between operands, and of a level if it holds of its operands. -/
theorem of_unary {P : Language Token.Kind → Prop} (alone : P unary.words)
    (longer : ∀ level, P (operand level).words → P (joined level).words) (level : Level) :
    P (joined level).words := by
  have factor : P (joined .factor).words := longer .factor alone
  have term : P (joined .term).words := longer .term factor
  have comparison : P (joined .comparison).words := longer .comparison term
  have equality : P (joined .equality).words := longer .equality comparison
  have and : P (joined .and).words := longer .and equality
  cases level with
  | or => exact longer .or and
  | _ => assumption

theorem starts_primary : Starts primary.words (startsOperand ·) := by
  have number : Starts Phrase.number.words (startsOperand ·) := by
    refine ⟨?_, nofun⟩
    rintro _ _ ⟨⟩
    rfl
  have string : Starts Phrase.string.words (startsOperand ·) := by
    refine ⟨?_, nofun⟩
    rintro _ _ ⟨⟩
    rfl
  rw [words_eq]
  simp only [looseProduction, production, keyword, symbol, name, words_or, words_seq, words_oneOf]
  exact .add number <| .add string <| .add (starts_with rfl) <| .add (starts_with rfl) <|
    .add (starts_with rfl) <| .add (starts_with rfl) <| .add (starts_with rfl) <|
    .add (.mul (starts_with rfl)) (.mul (starts_with rfl))

theorem starts_call : Starts call.words (startsOperand ·) := by
  rw [words_call]
  exact starts_primary.mul

theorem starts_unary : Starts unary.words (startsExpression ·) := by
  rw [words_unary]
  refine .add ((starts_oneOf _).imp fun k member => ?_).mul (starts_call.imp fun k operand => ?_)
  · simp only [List.mem_cons, List.not_mem_nil, or_false] at member
    rcases member with rfl | rfl <;> rfl
  · rw [startsExpression, operand, Bool.or_true]

theorem starts_joined (level : Level) : Starts (joined level).words (startsExpression ·) := by
  refine of_unary (P := (Starts · (startsExpression ·))) starts_unary (fun level operand => ?_) level
  rw [words_joined]
  exact operand.mul

theorem starts_expression : Starts expression.words (startsExpression ·) := by
  rw [words_expression]
  exact (starts_joined .or).mul

theorem starts_list {p : Phrase} {qualifies : Token.Kind → Prop} (starts : Starts p.words qualifies) :
    Starts (list p).words qualifies := by
  rw [words_list]
  exact starts.mul

/-! ### Words of every category -/

instance : Possible primary.words := ⟨[.identifier], cons_mem_primary.mpr rfl⟩

instance (level : Level) : Possible level.tail.words := ⟨[], .none⟩

instance : Possible callTail.words := ⟨[], .none⟩

instance : Possible call.words := by
  rw [words_call]
  infer_instance

instance : Possible unary.words := by
  rw [words_unary, add_comm]
  infer_instance

instance (level : Level) : Possible (joined level).words := by
  refine of_unary (P := Possible) inferInstance (fun level operand => ?_) level
  rw [words_joined]
  infer_instance

instance (level : Level) : Possible (operand level).words := by
  cases level with
  | factor => exact inferInstanceAs (Possible unary.words)
  | _ => exact inferInstanceAs (Possible (joined _).words)

instance : Possible expression.words := by
  rw [words_expression, add_comm]
  infer_instance

/-! ### Statements -/

/-- Where the first token is prescribed, the rest of a word goes on after it. -/
theorem words_of_seq (c : Category) {k : Token.Kind} {q : Phrase}
    (same : looseProduction c = .seq (.oneOf [k]) q) : c.words = single k * c.rest := by
  rw [words_eq, rest, same, words_seq, words_oneOf]

theorem words_functionDeclaration :
    functionDeclaration.words = single (.keyword .fun) * function.words :=
  words_of_seq functionDeclaration rfl

theorem words_expressionStatement :
    expressionStatement.words = expression.words * single (.symbol .semicolon) := by
  rw [words_eq]
  simp only [looseProduction, production, symbol, words_seq, words_oneOf, words_the]

theorem rest_variableDeclaration :
    variableDeclaration.rest =
      single .identifier * (single (.symbol .equal) * (expression.words * single (.symbol .semicolon)) +
        single (.symbol .semicolon)) := by
  simp only [rest, looseProduction, production, symbol, name, words_seq, words_optional, words_oneOf,
    words_the]
  rw [add_comm, add_mul, one_mul, mul_assoc]

/-- What may stand before the condition of a `for` loop. -/
theorem rest_forStatement :
    forStatement.rest =
      single (.symbol .leftParen) * ((single (.symbol .semicolon) +
          (single (.keyword .var) * variableDeclaration.rest + expressionStatement.words)) *
        ((1 + expression.words) * (single (.symbol .semicolon) *
          ((1 + expression.words) * (single (.symbol .rightParen) * statement.words))))) := by
  rw [← words_of_seq variableDeclaration rfl, add_comm (single _), add_assoc]
  simp only [rest, looseProduction, production, symbol, words_seq, words_or, words_optional, words_oneOf,
    words_the]

theorem rest_ifStatement :
    ifStatement.rest =
      single (.symbol .leftParen) * (expression.words * (single (.symbol .rightParen) *
        (statement.words * (single (.keyword .else) * statement.words + 1)))) := by
  rw [add_comm (_ * _)]
  simp only [rest, looseProduction, production, symbol, keyword, words_seq, words_optional, words_oneOf,
    words_the]

theorem rest_printStatement :
    printStatement.rest = expression.words * single (.symbol .semicolon) := by
  simp only [rest, looseProduction, production, symbol, words_seq, words_oneOf, words_the]

theorem rest_returnStatement :
    returnStatement.rest = (1 + expression.words) * single (.symbol .semicolon) := by
  simp only [rest, looseProduction, production, symbol, words_seq, words_optional, words_oneOf, words_the]

theorem rest_whileStatement :
    whileStatement.rest =
      single (.symbol .leftParen) * (expression.words * (single (.symbol .rightParen) *
        statement.words)) := by
  simp only [rest, looseProduction, production, symbol, words_seq, words_oneOf, words_the]

theorem rest_block :
    block.rest = (many (.the .declaration)).words * single (.symbol .rightBrace) := by
  simp only [rest, looseProduction, production, symbol, words_seq, words_oneOf]

theorem rest_classDeclaration :
    classDeclaration.rest =
      single .identifier * ((single (.symbol .less) * single .identifier + 1) *
        (single (.symbol .leftBrace) * ((many (.the .function)).words * single (.symbol .rightBrace)))) := by
  rw [add_comm (_ * _)]
  simp only [rest, looseProduction, production, symbol, name, words_seq, words_optional, words_oneOf]

theorem words_function :
    function.words =
      single .identifier * (single (.symbol .leftParen) *
        (single (.symbol .rightParen) * (single (.symbol .leftBrace) * block.rest) +
          (list name).words *
            (single (.symbol .rightParen) * (single (.symbol .leftBrace) * block.rest)))) := by
  rw [words_eq, ← words_of_seq block rfl]
  simp only [looseProduction, production, symbol, name, words_seq, words_optional, words_oneOf, words_the,
    add_mul, one_mul]

theorem words_statement :
    statement.words =
      expressionStatement.words +
      (single (.keyword .for) * forStatement.rest + (single (.keyword .if) * ifStatement.rest +
        (single (.keyword .print) * printStatement.rest +
          (single (.keyword .return) * returnStatement.rest +
            (single (.keyword .while) * whileStatement.rest +
              single (.symbol .leftBrace) * block.rest))))) := by
  rw [words_eq, ← words_of_seq forStatement rfl, ← words_of_seq ifStatement rfl,
    ← words_of_seq printStatement rfl, ← words_of_seq returnStatement rfl,
    ← words_of_seq whileStatement rfl, ← words_of_seq block rfl]
  simp only [looseProduction, production, words_or, words_the]

theorem words_declaration :
    declaration.words =
      single (.keyword .class_) * classDeclaration.rest + (single (.keyword .fun) * function.words +
        (single (.keyword .var) * variableDeclaration.rest + statement.words)) := by
  rw [words_eq, ← words_of_seq classDeclaration rfl, ← words_functionDeclaration,
    ← words_of_seq variableDeclaration rfl]
  simp only [looseProduction, production, words_or, words_the]

theorem starts_expressionStatement : Starts expressionStatement.words (startsExpression ·) := by
  rw [words_expressionStatement]
  exact starts_expression.mul

theorem starts_function : Starts function.words (· = .identifier) := by
  rw [words_function]
  exact (starts_single _).mul

/-- What goes on after the first token of a statement other than an expression. -/
def afterOther : Token.Kind → Language Token.Kind
  | .keyword .for => forStatement.rest
  | .keyword .if => ifStatement.rest
  | .keyword .print => printStatement.rest
  | .keyword .return => returnStatement.rest
  | .keyword .while => whileStatement.rest
  | .symbol .leftBrace => block.rest
  | _ => 0

theorem starts_statement : Starts statement.words (startsUndeclared ·) := by
  rw [words_statement]
  refine .add (starts_expressionStatement.imp fun k good => ?_) <| .add (.mul (starts_with rfl)) <|
    .add (.mul (starts_with rfl)) <| .add (.mul (starts_with rfl)) <| .add (.mul (starts_with rfl)) <|
    .add (.mul (starts_with rfl)) (.mul (starts_with rfl))
  simp [startsUndeclared, good]

theorem cons_mem_statement {k : Token.Kind} {w : List Token.Kind} (other : startsExpression k = false) :
    k :: w ∈ statement.words ↔ w ∈ afterOther k := by
  have noExpression : k :: w ∉ expressionStatement.words := fun member => by
    rw [starts_expressionStatement.heads k w member] at other
    cases other
  rw [words_statement]
  simp only [Language.mem_add, noExpression, false_or, cons_mem_single_mul]
  cases k with
  | keyword k => cases k <;> simp [afterOther]
  | symbol y => cases y <;> simp [afterOther]
  | _ => simp [afterOther]

theorem starts_declaration : Starts declaration.words (startsDeclaration ·) := by
  rw [words_declaration]
  refine .add (.mul (starts_with rfl)) <| .add (.mul (starts_with rfl)) <|
    .add (.mul (starts_with rfl)) (starts_statement.imp fun k good => ?_)
  simp [startsDeclaration, good]

instance {p : Phrase} : Possible (many p).words := ⟨[], .none⟩

instance {p : Phrase} [Possible p.words] : Possible (list p).words := by
  rw [words_list, add_comm]
  infer_instance

instance : Possible name.words := by
  rw [words_name]
  infer_instance

instance : Possible (the expression).words := inferInstanceAs (Possible expression.words)

instance : Possible expressionStatement.words := by
  rw [words_expressionStatement]
  infer_instance

instance : Possible statement.words := by
  rw [words_statement]
  infer_instance

instance : Possible variableDeclaration.rest := by
  rw [rest_variableDeclaration]
  infer_instance

instance : Possible block.rest := by
  rw [rest_block]
  infer_instance

instance : Possible function.words := by
  rw [words_function]
  infer_instance

/-! ### Sentences of the strict grammar -/

variable {w : List Token.Kind}

theorem joined_of_call (member : w ∈ call.words) (level : Level) : w ∈ (joined level).words := by
  refine of_unary (P := (w ∈ ·)) (words_unary ▸ .inr member) (fun level operand => ?_) level
  rw [words_joined, ← List.append_nil w]
  exact Language.append_mem_mul operand .none

/-- A name or a property stands for itself to the left of an equals sign. -/
theorem loose_of_assignment (derives : Loose (production .assignment) w) : w ∈ assignment.words := by
  have name : [.identifier] ∈ call.words := by
    rw [words_call, ← List.append_nil [_]]
    exact Language.append_mem_mul (cons_mem_primary.mpr rfl) .none
  have property {v : List Token.Kind} (object : v ∈ call.words) :
      v ++ [.symbol .dot] ++ [.identifier] ∈ call.words := by
    rw [words_call] at object ⊢
    obtain ⟨u, first, tail, more, rfl⟩ := Language.mem_mul.mp object
    rw [List.append_assoc, List.append_assoc]
    exact Language.append_mem_mul first (more.snoc (.other (.seq (.oneOf (by simp)) (.oneOf (by simp)))))
  have target {v u : List Token.Kind} (object : Loose (.optional (.seq (.the .call) (symbol .dot))) v)
      (last : Loose Phrase.name u) : v ++ u ∈ (joined .or).words := by
    cases last with
    | oneOf member =>
      cases List.mem_singleton.mp member
      cases object with
      | absent => exact joined_of_call name .or
      | present object =>
        cases object with
        | seq object dot =>
          cases dot with
          | oneOf member =>
            cases List.mem_singleton.mp member
            exact joined_of_call (property object) .or
  cases derives with
  | other derives => exact .the (.other derives)
  | one derives =>
    cases derives with
    | seq object derives =>
      cases derives with
      | seq last value =>
        rw [← List.append_assoc]
        exact .the (.one (.seq (target object last) value))

end Category

/-- The loose grammar has room for every sentence. -/
theorem Derives.loose {p : Phrase} {w : List Token.Kind} (derives : Derives p w) : Loose p w := by
  induction derives with
  | oneOf member => exact .oneOf member
  | number x => exact .number x
  | string text => exact .string text
  | @the c w _ ih =>
    cases c with
    | assignment => exact Category.loose_of_assignment ih
    | _ => exact .the ih
  | seq _ _ ihp ihq => exact .seq ihp ihq
  | one _ ih => exact .one ih
  | other _ ih => exact .other ih
  | absent => exact .absent
  | present _ ih => exact .present ih
  | many _ ih => exact loose_flatten ih
  | list some _ _ ih => exact loose_commaSeparated some ih

end Grammar

end Lox
