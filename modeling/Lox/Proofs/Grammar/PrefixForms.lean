import Lox.Proofs.Grammar.NormalTrees
import Lox.Proofs.Number.Notation
import Lox.Proofs.Scanner.Rescanning
import Lox.Proofs.Syntax.PrefixForm
import Lox.Proofs.Syntax.Relining

/-!
# Prefix forms tell their expressions

An expression that was read from a source can be told from its prefix form, apart from its node identities and
lines, if it holds no string and no infinite number. Each word of the form is solid, and each form with its
head can have come from one kind of expression only, as the words that head the forms of operators are
operators.
-/

namespace Lox

open Grammar Source

/-! ### Expressions from forms -/

/-- The expression without identities and lines. -/
def Expr.bare (e : Expr) : Expr := e.anonymous.reline fun _ => 0

/-- The operator that is spelt so. -/
def operatorAt (lexeme : String) : Token :=
  match Keyword.ofSpelling? lexeme with
  | some k => ⟨.keyword k, lexeme, 0⟩
  | none => ⟨((Symbol.all.find? (·.spelling = lexeme)).map Token.Kind.symbol).getD .eof, lexeme, 0⟩

/-- The expression that a single word is the form of. -/
def readWord (text : String) : Expr :=
  if text.toList.head?.any Char.isDigit then .literal (.number (numberValue text.toList))
  else match Keyword.ofSpelling? text with
    | some .true => .literal (.bool true)
    | some .false => .literal (.bool false)
    | some .nil => .literal .nil
    | some .this => .this ⟨text, 0⟩ 0
    | _ => .variable ⟨text, 0⟩ 0

/-- The expression that a form with the head is of, by those that its items are of. -/
def assemble (head : String) (items : List Expr) : Expr :=
  match head, items with
  | "call", callee :: arguments => .call callee 0 arguments
  | "group", [inner] => .grouping inner
  | "super", [.variable method _] => .super ⟨"super", 0⟩ method 0
  | ".", [object, .variable name _] => .get object name
  | "=", [.variable name _, value] => .assign name value 0
  | "=", [.get object name, value] => .set object name value
  | _, [right] => .unary (operatorAt head) right
  | _, [left, right] =>
    match (operatorAt head).kind with
    | .keyword _ => .logical left (operatorAt head) right
    | _ => .binary left (operatorAt head) right
  | _, _ => default

mutual

/-- The expression that a form is of. -/
def Form.read : Form → Expr
  | .word text => readWord text
  | .node head items => assemble head (readForms items)

def readForms : List Form → List Expr
  | [] => []
  | form :: rest => form.read :: readForms rest

end

/-! ### Words -/

/-- The trace is of a token as it is scanned. -/
def Trace.IsScanned (trace : Trace) : Prop := ∃ t, trace.Agrees t ∧ Scanner.IsScanned t

theorem isScanned_of_traced {traces : List Trace} {tokens : List Token} (traced : Traced traces tokens)
    (scanned : ∀ t ∈ tokens, Scanner.IsScanned t) : ∀ trace ∈ traces, trace.IsScanned := by
  induction traced with
  | nil => exact nofun
  | @cons trace t _ _ agrees _ ih =>
    intro trace' among
    rcases List.mem_cons.mp among with rfl | among
    · exact ⟨t, agrees, scanned t List.mem_cons_self⟩
    · exact ih (fun t' member => scanned t' (List.mem_cons_of_mem _ member)) trace' among

theorem isSolid_of_any {text : String} (some : text ≠ "") (plain : text.toList.any endsWord = false) :
    IsSolid text :=
  ⟨some, List.any_eq_false.mp plain⟩

/-- Letters, digits and points end no word. -/
theorem isSolid_of_plain {text : String} (some : text.toList ≠ [])
    (plain : ∀ c ∈ text.toList, isWordChar c ∨ c = '.') : IsSolid text := by
  refine ⟨fun none => some (String.toList_eq_nil_iff.mpr none), fun c among ends => ?_⟩
  have other : ¬ (isWordChar c ∨ c = '.') := by
    simp only [endsWord, Bool.or_eq_true, decide_eq_true_eq] at ends
    rcases ends with (rfl | rfl) | rfl <;> decide
  exact other (plain c among)

theorem isSolid_of_isWord {text : String} (word : Scanner.IsWord text.toList) : IsSolid text := by
  obtain ⟨c, rest, chars, letter, others⟩ := word
  refine isSolid_of_plain (chars ▸ List.cons_ne_nil c rest) fun d among => .inl (Scanner.isWordChar_iff.mpr ?_)
  rw [chars] at among
  rcases List.mem_cons.mp among with rfl | among
  · exact .inl letter
  · exact others d among

theorem isSolid_keyword (k : Keyword) : IsSolid k.spelling := isSolid_of_isWord (Scanner.keyword_isWord k)

/-- The name of a variable or property is read as a variable. -/
theorem name_spec {name : Name} (scanned : (Trace.word .identifier name).IsScanned) :
    IsSolid name.text ∧ readWord name.text = .variable ⟨name.text, 0⟩ 0 := by
  obtain ⟨t, agrees, -, -, has⟩ := scanned
  obtain ⟨kind, rfl⟩ := Trace.agrees_word_iff.mp agrees
  obtain ⟨word, unreserved⟩ := has.identifier.mp kind
  dsimp only
  refine ⟨isSolid_of_isWord word, ?_⟩
  obtain ⟨c, rest, chars, letter, -⟩ := word
  have noDigit : c.isDigit = false := by
    have shape := Scanner.shapeAt_letter (Scanner.isLetter_iff.mpr letter)
    rw [Bool.eq_false_iff]
    intro digit
    rw [Scanner.shapeAt_digit digit] at shape
    cases shape
  have noKeyword : Keyword.ofSpelling? t.lexeme = none := by
    rw [Option.eq_none_iff_forall_ne_some]
    intro k found
    exact unreserved k (congrArg String.toList (Keyword.ofSpelling?_eq_some_iff.mp found).symm)
  rw [readWord, chars, noKeyword]
  simp [noDigit]

mutual

/-- The literals in an expression. -/
def Expr.literals : Expr → List Literal
  | .literal value => [value]
  | .grouping inner => inner.literals
  | .unary _ right => right.literals
  | .binary left _ right | .logical left _ right => left.literals ++ right.literals
  | .variable _ _ | .this _ _ | .super _ _ _ => []
  | .assign _ value _ => value.literals
  | .call callee _ arguments => callee.literals ++ expressionLiterals arguments
  | .get object _ => object.literals
  | .set object _ value => object.literals ++ value.literals

def expressionLiterals : List Expr → List Literal
  | [] => []
  | e :: rest => e.literals ++ expressionLiterals rest

end

/-- Whether a literal is shown as what it is: not a string, and not an infinite number. -/
def Literal.IsShown : Literal → Prop
  | .number x => ∀ negative, Binary64.ofFloat x ≠ .infinite negative
  | .string _ => False
  | .bool _ | .nil => True

theorem literal_spec {value : Literal} (scanned : (Trace.bare value.kind).IsScanned) (shown : value.IsShown) :
    IsSolid value.prefixForm ∧ readWord value.prefixForm = .literal value := by
  cases value with
  | string text => exact shown.elim
  | nil => exact ⟨isSolid_keyword .nil, rfl⟩
  | bool b =>
    cases b with
    | true => exact ⟨isSolid_keyword .true, rfl⟩
    | false => exact ⟨isSolid_keyword .false, rfl⟩
  | number x =>
    obtain ⟨t, agrees, -, -, has⟩ := scanned
    have literal := ((has.number x).mp (Trace.agrees_bare_iff.mp agrees)).2
    obtain ⟨whole, fraction, written, read⟩ := Number.literal_reads_back literal shown
    have some : (Number.text x).toList ≠ [] := by simp [written.text]
    change IsSolid (Number.text x) ∧ readWord (Number.text x) = _
    refine ⟨isSolid_of_plain some fun c among => ?_, ?_⟩
    · rw [written.text, List.mem_append, List.mem_cons] at among
      rcases among with digit | point | digit
      · exact .inl (Scanner.isWordChar_iff.mpr (.inr (Scanner.isDigit_iff.mp
          (written.digits c (List.mem_append_left _ digit)))))
      · exact .inr point
      · exact .inl (Scanner.isWordChar_iff.mpr (.inr (Scanner.isDigit_iff.mp
          (written.digits c (List.mem_append_right _ digit)))))
    · obtain ⟨c, rest, rfl⟩ := List.exists_cons_of_ne_nil written.before
      have digit : c.isDigit := written.digits c List.mem_cons_self
      rw [readWord, if_pos, read]
      rw [written.text]
      simpa using digit

/-! ### Operators -/

theorem operatorAt_symbol (y : Symbol) : operatorAt y.spelling = ⟨.symbol y, y.spelling, 0⟩ := by
  cases y <;> decide

theorem operatorAt_keyword (k : Keyword) : operatorAt k.spelling = ⟨.keyword k, k.spelling, 0⟩ := by
  cases k <;> decide

/-- A symbol that is an operator is spelt as it is. -/
theorem eq_of_symbol {operator : Token} (scanned : (Trace.whole operator).IsScanned) {y : Symbol}
    (kind : operator.kind = .symbol y) :
    operator.lexeme = y.spelling ∧ operator.reline (fun _ => 0) = operatorAt y.spelling := by
  obtain ⟨t, agrees, -, -, has⟩ := scanned
  obtain rfl := Trace.agrees_whole_iff.mp agrees
  have spelt : t.lexeme = y.spelling := String.toList_inj.mp ((has.symbol y).mp kind)
  exact ⟨spelt, by rw [operatorAt_symbol, Token.reline, kind, spelt]⟩

/-- A word that is an operator is spelt as it is. -/
theorem eq_of_keyword {operator : Token} (scanned : (Trace.whole operator).IsScanned) {k : Keyword}
    (kind : operator.kind = .keyword k) :
    operator.lexeme = k.spelling ∧ operator.reline (fun _ => 0) = operatorAt k.spelling := by
  obtain ⟨t, agrees, -, -, has⟩ := scanned
  obtain rfl := Trace.agrees_whole_iff.mp agrees
  have spelt : t.lexeme = k.spelling := String.toList_inj.mp ((has.keyword k).mp kind)
  exact ⟨spelt, by rw [operatorAt_keyword, Token.reline, kind, spelt]⟩

theorem isSolid_symbol {y : Symbol} (other : y ≠ .leftParen ∧ y ≠ .rightParen) : IsSolid y.spelling := by
  obtain ⟨left, right⟩ := other
  cases y with
  | leftParen => exact absurd rfl left
  | rightParen => exact absurd rfl right
  | _ => exact isSolid_of_any (by decide) rfl

/-- A prefix operator before one form is read as such. -/
theorem prefix_spec {operator : Token} (scanned : (Trace.whole operator).IsScanned)
    (isPrefix : isPrefixOperator operator.kind) (right : Expr) :
    IsSolid operator.lexeme ∧
      assemble operator.lexeme [right] = .unary (operator.reline fun _ => 0) right := by
  obtain ⟨y, kind, which⟩ : ∃ y, operator.kind = .symbol y ∧ y ∈ [Symbol.bang, .minus] := by
    unfold isPrefixOperator at isPrefix
    split at isPrefix
    · exact ⟨.bang, ‹_›, by decide⟩
    · exact ⟨.minus, ‹_›, by decide⟩
    · cases isPrefix
  obtain ⟨spelt, same⟩ := eq_of_symbol scanned kind
  rw [spelt, same]
  simp only [List.mem_cons, List.not_mem_nil, or_false] at which
  rcases which with rfl | rfl <;> exact ⟨isSolid_symbol (by decide), rfl⟩

/-- An operator of a level before two forms is read as such. -/
theorem operator_spec {operator : Token} (scanned : (Trace.whole operator).IsScanned) {level : Level}
    (joins : level.joins operator.kind) (left right : Expr) : IsSolid operator.lexeme ∧
      assemble operator.lexeme [left, right] = level.join left (operator.reline fun _ => 0) right := by
  unfold Level.joins at joins
  split at joins
  -- the operators of the two loosest levels are words, the others are symbols
  case h_1 kind | h_2 kind =>
    obtain ⟨spelt, same⟩ := eq_of_keyword scanned kind
    rw [spelt, same]
    exact ⟨isSolid_keyword _, rfl⟩
  case h_13 => cases joins
  all_goals
    rename_i kind
    obtain ⟨spelt, same⟩ := eq_of_symbol scanned kind
    rw [spelt, same]
    exact ⟨isSolid_symbol (by decide), rfl⟩

/-! ### Expressions -/

/-- The form tells the expression. -/
structure Expr.Told (e : Expr) : Prop where
  solid : e.form.Solid
  read : e.form.read = e.bare

/-- Operands that are told by their forms, with an operator of a level between them, are told by theirs. -/
theorem Expr.Told.join {left right : Expr} (told : left.Told) (told' : right.Told) {operator : Token}
    (scanned : (Trace.whole operator).IsScanned) {level : Level} (joins : level.joins operator.kind) :
    (level.join left operator right).Told := by
  obtain ⟨head, same⟩ := operator_spec scanned joins left.bare right.bare
  have form : (level.join left operator right).form = .node operator.lexeme [left.form, right.form] := by
    cases level <;> rfl
  have bare : (level.join left operator right).bare =
      level.join left.bare (operator.reline fun _ => 0) right.bare := by
    cases level <;> rfl
  constructor
  · rw [form]
    exact ⟨head, told.solid, told'.solid, trivial⟩
  · rw [form, bare, ← same]
    exact congrArg₂ (assemble operator.lexeme [·, ·]) told.read told'.read

/-- The words heading the forms that are no operators. -/
theorem isSolid_head {head : String} (among : head ∈ ["group", "=", "call", ".", "super"]) : IsSolid head := by
  simp only [List.mem_cons, List.not_mem_nil, or_false] at among
  rcases among with rfl | rfl | rfl | rfl | rfl <;> exact isSolid_of_any (by decide) rfl

mutual

/-- The form of an expression that was read tells it, by induction on the expression. -/
theorem Expr.told (e : Expr) (normal : e.Normal) (scanned : ∀ trace ∈ e.frontier, trace.IsScanned)
    (shown : ∀ c ∈ e.literals, c.IsShown) : e.Told := by
  match e with
  | .literal value =>
    obtain ⟨solid, read⟩ := literal_spec (scanned _ List.mem_cons_self) (shown value List.mem_cons_self)
    exact ⟨solid, read⟩
  | .grouping inner =>
    rw [Expr.Normal] at normal
    simp only [Expr.frontier, List.mem_cons, List.mem_append] at scanned
    obtain ⟨solid, read⟩ := inner.told normal (fun trace among => scanned trace (.inr (.inl among))) shown
    exact ⟨⟨isSolid_head (by decide), solid, trivial⟩, congrArg Expr.grouping read⟩
  | .unary operator right =>
    rw [Expr.Normal] at normal
    simp only [Expr.frontier, List.mem_cons] at scanned
    obtain ⟨solid, read⟩ := right.told normal.2.2 (fun trace among => scanned trace (.inr among)) shown
    obtain ⟨head, same⟩ := prefix_spec (scanned _ (.inl rfl)) normal.1 right.bare
    exact ⟨⟨head, solid, trivial⟩, (congrArg (assemble operator.lexeme [·]) read).trans same⟩
  | .binary left operator right | .logical left operator right =>
    rw [Expr.Normal] at normal
    obtain ⟨⟨level, kind, joins, -⟩, normalLeft, normalRight⟩ := normal
    simp only [Expr.frontier, List.mem_append, List.mem_cons] at scanned
    simp only [Expr.literals, List.mem_append] at shown
    have told := left.told normalLeft (fun trace among => scanned trace (.inl among))
      fun c among => shown c (.inl among)
    have told' := right.told normalRight (fun trace among => scanned trace (.inr (.inr among)))
      fun c among => shown c (.inr among)
    have joined := told.join told' (scanned _ (.inr (.inl rfl))) joins
    -- the level tells which of the two trees it is
    cases level <;> first | exact joined | simp at kind
  | .variable name id =>
    obtain ⟨solid, read⟩ := name_spec (scanned _ List.mem_cons_self)
    exact ⟨solid, read⟩
  | .assign name value id =>
    rw [Expr.Normal] at normal
    simp only [Expr.frontier, List.mem_cons] at scanned
    obtain ⟨word, named⟩ := name_spec (scanned _ (.inl rfl))
    obtain ⟨solid, read⟩ := value.told normal (fun trace among => scanned trace (.inr (.inr among))) shown
    exact ⟨⟨isSolid_head (by decide), word, solid, trivial⟩,
      congrArg₂ (assemble "=" [·, ·]) named read⟩
  | .call callee line arguments =>
    rw [Expr.Normal] at normal
    simp only [Expr.frontier, List.mem_append, List.mem_cons] at scanned
    simp only [Expr.literals, List.mem_append] at shown
    obtain ⟨solid, read⟩ := callee.told normal.2.2.1 (fun trace among => scanned trace (.inl among))
      fun c among => shown c (.inl among)
    obtain ⟨solid', read'⟩ := expressions_told arguments normal.2.2.2
      (fun trace among => scanned trace (.inr (.inr (.inl among)))) fun c among => shown c (.inr among)
    have bare : (Expr.call callee line arguments).bare = .call callee.bare 0 (arguments.map Expr.bare) := by
      simp only [Expr.bare, Expr.anonymous, Expr.renumber, Expr.reline, renumberExpressions_eq_map,
        relineExpressions_eq_map, List.map_map]
      rfl
    exact ⟨⟨isSolid_head (by decide), solid, solid'⟩,
      (congrArg₂ (Expr.call · 0 ·) read read').trans bare.symm⟩
  | .get object name =>
    rw [Expr.Normal] at normal
    simp only [Expr.frontier, List.mem_append, List.mem_cons] at scanned
    obtain ⟨solid, read⟩ := object.told normal.2 (fun trace among => scanned trace (.inl among)) shown
    obtain ⟨word, named⟩ := name_spec (scanned _ (.inr (.inr (.inl rfl))))
    exact ⟨⟨isSolid_head (by decide), solid, word, trivial⟩, congrArg₂ (assemble "." [·, ·]) read named⟩
  | .set object name value =>
    rw [Expr.Normal] at normal
    simp only [Expr.frontier, List.mem_append, List.mem_cons] at scanned
    simp only [Expr.literals, List.mem_append] at shown
    obtain ⟨solid, read⟩ := object.told normal.2.1 (fun trace among => scanned trace (.inl among))
      fun c among => shown c (.inl among)
    obtain ⟨word, named⟩ := name_spec (scanned _ (.inr (.inr (.inl rfl))))
    obtain ⟨solid', read'⟩ := value.told normal.2.2
      (fun trace among => scanned trace (.inr (.inr (.inr (.inr among))))) fun c among => shown c (.inr among)
    have property : (Form.node "." [object.form, .word name.text]).read = .get object.bare ⟨name.text, 0⟩ :=
      congrArg₂ (assemble "." [·, ·]) read named
    exact ⟨⟨isSolid_head (by decide), ⟨isSolid_head (by decide), solid, word, trivial⟩, solid', trivial⟩,
      congrArg₂ (assemble "=" [·, ·]) property read'⟩
  | .this keyword id =>
    obtain ⟨t, agrees, -, -, has⟩ := scanned _ List.mem_cons_self
    obtain ⟨kind, rfl⟩ := Trace.agrees_word_iff.mp agrees
    have spelt : t.lexeme = "this" := String.toList_inj.mp ((has.keyword .this).mp kind)
    refine ⟨isSolid_keyword .this, ?_⟩
    simp only [Expr.bare, Expr.anonymous, Expr.renumber, Expr.reline, Name.reline, spelt]
    rfl
  | .super keyword method id =>
    simp only [Expr.frontier, List.mem_cons] at scanned
    obtain ⟨t, agrees, -, -, has⟩ := scanned _ (.inl rfl)
    obtain ⟨kind, rfl⟩ := Trace.agrees_word_iff.mp agrees
    have spelt : t.lexeme = "super" := String.toList_inj.mp ((has.keyword .super).mp kind)
    obtain ⟨word, named⟩ := name_spec (scanned _ (.inr (.inr (.inl rfl))))
    refine ⟨⟨isSolid_head (by decide), word, trivial⟩, ?_⟩
    simp only [Expr.bare, Expr.anonymous, Expr.renumber, Expr.reline, Name.reline, spelt]
    exact congrArg (assemble "super" [·]) named

theorem expressions_told (expressions : List Expr) (normal : argumentsNormal expressions)
    (scanned : ∀ trace ∈ argumentsFrontier expressions, trace.IsScanned)
    (shown : ∀ c ∈ expressionLiterals expressions, c.IsShown) :
    formsSolid (expressionForms expressions) ∧
      readForms (expressionForms expressions) = expressions.map Expr.bare := by
  match expressions with
  | [] => exact ⟨trivial, rfl⟩
  | [e] =>
    simp only [expressionLiterals, List.append_nil] at shown
    obtain ⟨solid, read⟩ := e.told normal.1 scanned shown
    exact ⟨⟨solid, trivial⟩, congrArg ([·]) read⟩
  | e :: f :: rest =>
    simp only [argumentsFrontier, List.mem_append, List.mem_cons] at scanned
    simp only [expressionLiterals, List.mem_append] at shown
    obtain ⟨solid, read⟩ := e.told normal.1 (fun trace among => scanned trace (.inl among))
      fun c among => shown c (.inl among)
    obtain ⟨solid', read'⟩ := expressions_told (f :: rest) normal.2
      (fun trace among => scanned trace (.inr (.inr among)))
      (by
        simp only [expressionLiterals, List.mem_append]
        exact fun c among => shown c (.inr among))
    exact ⟨⟨solid, solid'⟩, congrArg₂ List.cons read read'⟩

end

/-! ### Sources -/

/-- An expression that a source holds is told by its form, unless there is a literal in it that is not shown as
what it is. -/
theorem told_of_source {source : String} {firstId : NodeId} {e : Expr}
    (read : (Source.soleExpression source firstId).toExcept = .ok e) (shown : ∀ c ∈ e.literals, c.IsShown) :
    e.Told := by
  obtain ⟨result, clean⟩ := Reading.toExcept_eq_ok.mp read
  obtain ⟨lexical, syntactic⟩ := List.append_eq_nil_iff.mp clean
  have scanned : Scanner.items? source = some ((tokens source).map Item.token) := by
    rw [Scanner.items?_eq, items_eq_tokens.mpr ⟨rfl, lexical⟩]
  obtain ⟨front, ending, split, each, ended, -⟩ := Scanner.scanned_of_items scanned
  have reads : ReadsAs (front ++ [ending]) firstId e := by
    rw [← split]
    exact ⟨e, result, syntactic, rfl⟩
  obtain ⟨normal, traced⟩ := normal_of_readsAs (fun t among => (each t among).inner) ended reads
  exact e.told normal (isScanned_of_traced traced each) shown

/-- Two expressions that sources hold, with no string and no infinite number in them, have the same prefix form
only if they are the same apart from node identities and lines. -/
theorem prefix_form_is_unambiguous {source source' : String} {firstId firstId' : NodeId} {e e' : Expr}
    (read : (Source.soleExpression source firstId).toExcept = .ok e)
    (read' : (Source.soleExpression source' firstId').toExcept = .ok e')
    (shown : ∀ c ∈ e.literals, c.IsShown) (shown' : ∀ c ∈ e'.literals, c.IsShown)
    (same : e.prefixForm = e'.prefixForm) : e.bare = e'.bare := by
  have told := told_of_source read shown
  have told' := told_of_source read' shown'
  have chars : e.form.chars ++ [] = e'.form.chars ++ [] := by
    rw [List.append_nil, List.append_nil, ← e.prefixForm_toList, ← e'.prefixForm_toList, same]
  have form := (e.form.chars_inj told.solid told'.solid stops_nil stops_nil chars).1
  rw [← told.read, ← told'.read, form]

/-- `a.call = -group(call)`, with the right-hand side on the given line and identities from the given one on. -/
def storedNegation (line : Nat) (id : NodeId) : Expr :=
  .set (.variable ⟨"a", 1⟩ id) ⟨"call", 1⟩
    (.unary ⟨.symbol .minus, "-", line⟩
      (.call (.variable ⟨"group", line⟩ (id + 1)) line [.variable ⟨"call", line⟩ (id + 2)]))

/-- The form `(= (. a call) (- (call group call)))` is of the same expression wherever it stands. -/
theorem stored_negation_is_told :
    (Source.soleExpression "a.call=-group(call)" 0).toExcept = .ok (storedNegation 1 0) ∧
      (Source.soleExpression "a . call = //\n -group (call)" 7).toExcept = .ok (storedNegation 2 7) ∧
      (storedNegation 1 0).prefixForm = (storedNegation 2 7).prefixForm ∧
      (storedNegation 1 0).bare = (storedNegation 2 7).bare := by
  have read : (Source.soleExpression "a.call=-group(call)" 0).toExcept = .ok (storedNegation 1 0) := by cbv
  have read' : (Source.soleExpression "a . call = //\n -group (call)" 7).toExcept =
      .ok (storedNegation 2 7) := by cbv
  have shown (line : Nat) (id : NodeId) : ∀ c ∈ (storedNegation line id).literals, c.IsShown :=
    fun _ none => absurd none List.not_mem_nil
  exact ⟨read, read', rfl, prefix_form_is_unambiguous read read' (shown 1 0) (shown 2 7) rfl⟩

end Lox
