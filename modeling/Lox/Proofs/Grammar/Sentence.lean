import Lox.Grammar.Program

/-!
# Sentences

The grammar of programs as data: a production gives each category a phrase, and a word of token kinds is
a sentence of a category if the productions derive it. A list between parentheses has at most `maxArity`
elements. Nothing here reads tokens: which derivation a sentence has, or whether there are several of
them, is left open.
-/

namespace Lox

namespace Grammar

inductive Category where
  | program
  | declaration
  | classDeclaration
  | functionDeclaration
  | function
  | variableDeclaration
  | statement
  | expressionStatement
  | forStatement
  | ifStatement
  | printStatement
  | returnStatement
  | whileStatement
  | block
  | expression
  | assignment
  /-- Operands with operators of a level between them. -/
  | joined (level : Level)
  | unary
  | call
  | primary

/-- The right side of a production. -/
inductive Phrase where
  /-- One token of one of these kinds. -/
  | oneOf (kinds : List Token.Kind)
  /-- A number literal, whatever its value. -/
  | number
  /-- A string literal, whatever its text. -/
  | string
  | the (category : Category)
  | seq (first next : Phrase)
  | or (one other : Phrase)
  | optional (phrase : Phrase)
  | many (phrase : Phrase)
  /-- One phrase or more, up to `maxArity` of them, with commas between them. -/
  | list (phrase : Phrase)

namespace Phrase

def keyword (k : Keyword) : Phrase := .oneOf [.keyword k]

def symbol (s : Symbol) : Phrase := .oneOf [.symbol s]

def name : Phrase := .oneOf [.identifier]

end Phrase

/-- The category of the operands of a level. -/
def Category.operand (level : Level) : Category :=
  match level.tighter? with
  | some tighter => .joined tighter
  | none => .unary

/-- The operators of a level. -/
def Level.operators : Level → List Token.Kind
  | .or => [.keyword .or]
  | .and => [.keyword .and]
  | .equality => [.symbol .bangEqual, .symbol .equalEqual]
  | .comparison => [.symbol .greater, .symbol .greaterEqual, .symbol .less, .symbol .lessEqual]
  | .term => [.symbol .minus, .symbol .plus]
  | .factor => [.symbol .slash, .symbol .star]

theorem Level.joins_iff {level : Level} {kind : Token.Kind} :
    level.joins kind ↔ kind ∈ level.operators := by
  cases kind with
  | symbol y => cases level <;> cases y <;> decide
  | keyword k => cases level <;> cases k <;> decide
  | _ => cases level <;> simp [Level.joins, Level.operators]

open Phrase in
/-- The productions of the grammar. -/
def production : Category → Phrase
  | .program => .seq (.many (.the .declaration)) (.oneOf [.eof])
  | .declaration =>
    .or (.the .classDeclaration) <| .or (.the .functionDeclaration) <|
      .or (.the .variableDeclaration) (.the .statement)
  | .classDeclaration =>
    .seq (keyword .class_) <| .seq name <| .seq (.optional (.seq (symbol .less) name)) <|
      .seq (symbol .leftBrace) <| .seq (.many (.the .function)) (symbol .rightBrace)
  | .functionDeclaration => .seq (keyword .fun) (.the .function)
  | .function =>
    .seq name <| .seq (symbol .leftParen) <| .seq (.optional (.list name)) <|
      .seq (symbol .rightParen) (.the .block)
  | .variableDeclaration =>
    .seq (keyword .var) <| .seq name <|
      .seq (.optional (.seq (symbol .equal) (.the .expression))) (symbol .semicolon)
  | .statement =>
    .or (.the .expressionStatement) <| .or (.the .forStatement) <| .or (.the .ifStatement) <|
      .or (.the .printStatement) <| .or (.the .returnStatement) <| .or (.the .whileStatement)
        (.the .block)
  | .expressionStatement => .seq (.the .expression) (symbol .semicolon)
  | .forStatement =>
    .seq (keyword .for) <| .seq (symbol .leftParen) <|
      .seq (.or (.the .variableDeclaration) <| .or (.the .expressionStatement)
        (symbol .semicolon)) <|
      .seq (.optional (.the .expression)) <| .seq (symbol .semicolon) <|
      .seq (.optional (.the .expression)) <| .seq (symbol .rightParen) (.the .statement)
  | .ifStatement =>
    .seq (keyword .if) <| .seq (symbol .leftParen) <| .seq (.the .expression) <|
      .seq (symbol .rightParen) <| .seq (.the .statement)
        (.optional (.seq (keyword .else) (.the .statement)))
  | .printStatement => .seq (keyword .print) <| .seq (.the .expression) (symbol .semicolon)
  | .returnStatement =>
    .seq (keyword .return) <| .seq (.optional (.the .expression)) (symbol .semicolon)
  | .whileStatement =>
    .seq (keyword .while) <| .seq (symbol .leftParen) <| .seq (.the .expression) <|
      .seq (symbol .rightParen) (.the .statement)
  | .block =>
    .seq (symbol .leftBrace) <| .seq (.many (.the .declaration)) (symbol .rightBrace)
  | .expression => .the .assignment
  | .assignment =>
    .or
      (.seq (.optional (.seq (.the .call) (symbol .dot))) <| .seq name <|
        .seq (symbol .equal) (.the .assignment))
      (.the (.joined .or))
  | .joined level =>
    .seq (.the (.operand level))
      (.many (.seq (.oneOf level.operators) (.the (.operand level))))
  | .unary =>
    .or (.seq (.oneOf [.symbol .bang, .symbol .minus]) (.the .unary)) (.the .call)
  | .call =>
    .seq (.the .primary) <| .many <|
      .or (.seq (symbol .leftParen) <| .seq (.optional (.list (.the .expression)))
        (symbol .rightParen))
      (.seq (symbol .dot) name)
  | .primary =>
    .or .number <| .or .string <| .or (keyword .true) <| .or (keyword .false) <|
      .or (keyword .nil) <| .or (keyword .this) <| .or name <|
      .or (.seq (symbol .leftParen) <| .seq (.the .expression) (symbol .rightParen))
      (.seq (keyword .super) <| .seq (symbol .dot) name)

/-- Words with commas between them. -/
def commaSeparated (words : List (List Token.Kind)) : List Token.Kind :=
  [.symbol .comma].intercalate words

theorem commaSeparated_cons (w : List Token.Kind) {words : List (List Token.Kind)}
    (more : words ≠ []) :
    commaSeparated (w :: words) = w ++ .symbol .comma :: commaSeparated words := by
  cases words with
  | nil => exact absurd rfl more
  | cons v rest => simp [commaSeparated, List.intercalate_cons_cons]

/-- The words that the productions derive from a phrase. -/
inductive Derives : Phrase → List Token.Kind → Prop
  | oneOf {kinds : List Token.Kind} {k : Token.Kind} (member : k ∈ kinds) :
    Derives (.oneOf kinds) [k]
  | number (x : Float) : Derives .number [.number x]
  | string (text : String) : Derives .string [.string text]
  | the {c : Category} {w : List Token.Kind} (body : Derives (production c) w) :
    Derives (.the c) w
  | seq {p q : Phrase} {v w : List Token.Kind} (first : Derives p v) (next : Derives q w) :
    Derives (.seq p q) (v ++ w)
  | one {p q : Phrase} {w : List Token.Kind} (derives : Derives p w) : Derives (.or p q) w
  | other {p q : Phrase} {w : List Token.Kind} (derives : Derives q w) : Derives (.or p q) w
  | absent {p : Phrase} : Derives (.optional p) []
  | present {p : Phrase} {w : List Token.Kind} (derives : Derives p w) : Derives (.optional p) w
  | many {p : Phrase} {words : List (List Token.Kind)} (each : ∀ w ∈ words, Derives p w) :
    Derives (.many p) words.flatten
  | list {p : Phrase} {words : List (List Token.Kind)} (some : words ≠ [])
    (few : words.length ≤ maxArity) (each : ∀ w ∈ words, Derives p w) :
    Derives (.list p) (commaSeparated words)

/-- A sentence of a category. -/
abbrev Sentence (c : Category) (w : List Token.Kind) : Prop := Derives (.the c) w

/-- One token of a kind that is prescribed. -/
theorem Derives.token (k : Token.Kind) : Derives (.oneOf [k]) [k] := .oneOf List.mem_cons_self

/-- A token of a kind that is prescribed, before more. -/
theorem Derives.cons {k : Token.Kind} {q : Phrase} {w : List Token.Kind} (next : Derives q w) :
    Derives (.seq (.oneOf [k]) q) (k :: w) := .seq (.token k) next

theorem Derives.many_nil {p : Phrase} : Derives (.many p) [] := @Derives.many p [] nofun

theorem Derives.many_cons {p : Phrase} {v w : List Token.Kind} (first : Derives p v)
    (rest : Derives (.many p) w) : Derives (.many p) (v ++ w) := by
  cases rest with
  | @many _ words each => exact @Derives.many p (v :: words) (List.forall_mem_cons.mpr ⟨first, each⟩)

/-! ### One production at a time -/

/-- What a phrase stands for when each category stands for the words in `C`. -/
def Phrase.Matches (C : Category → List Token.Kind → Prop) : Phrase → List Token.Kind → Prop
  | .oneOf kinds, w => ∃ k ∈ kinds, w = [k]
  | .number, w => ∃ x, w = [.number x]
  | .string, w => ∃ text, w = [.string text]
  | .the c, w => C c w
  | .seq p q, w => ∃ u v, w = u ++ v ∧ p.Matches C u ∧ q.Matches C v
  | .or p q, w => p.Matches C w ∨ q.Matches C w
  | .optional p, w => w = [] ∨ p.Matches C w
  | .many p, w => ∃ words : List (List Token.Kind), w = words.flatten ∧ ∀ u ∈ words, p.Matches C u
  | .list p, w => ∃ words, words ≠ [] ∧ words.length ≤ maxArity ∧ w = commaSeparated words ∧
    ∀ u ∈ words, p.Matches C u

/-- The sentences are derived from the productions. -/
theorem Phrase.Matches.derives {p : Phrase} {w : List Token.Kind} (matched : p.Matches Sentence w) :
    Derives p w := by
  induction p generalizing w with
  | oneOf kinds =>
    obtain ⟨k, member, rfl⟩ := matched
    exact .oneOf member
  | number =>
    obtain ⟨x, rfl⟩ := matched
    exact .number x
  | string =>
    obtain ⟨text, rfl⟩ := matched
    exact .string text
  | the c => exact matched
  | seq p q ihp ihq =>
    obtain ⟨u, v, rfl, first, next⟩ := matched
    exact .seq (ihp first) (ihq next)
  | or p q ihp ihq =>
    rcases matched with one | other
    · exact .one (ihp one)
    · exact .other (ihq other)
  | optional p ih =>
    rcases matched with rfl | present
    · exact .absent
    · exact .present (ih present)
  | many p ih =>
    obtain ⟨words, rfl, each⟩ := matched
    exact .many fun u member => ih (each u member)
  | list p ih =>
    obtain ⟨words, some, few, rfl, each⟩ := matched
    exact .list some few fun u member => ih (each u member)

/-- What the productions keep holds of all sentences: the induction over derivations. -/
theorem Derives.matches {C : Category → List Token.Kind → Prop}
    (closed : ∀ c w, (production c).Matches C w → C c w) {p : Phrase} {w : List Token.Kind}
    (derives : Derives p w) : p.Matches C w := by
  induction derives with
  | oneOf member => exact ⟨_, member, rfl⟩
  | number x => exact ⟨x, rfl⟩
  | string text => exact ⟨text, rfl⟩
  | the _ ih => exact closed _ _ ih
  | seq _ _ ihp ihq => exact ⟨_, _, rfl, ihp, ihq⟩
  | one _ ih => exact .inl ih
  | other _ ih => exact .inr ih
  | absent => exact .inl rfl
  | present _ ih => exact .inr ih
  | many _ ih => exact ⟨_, rfl, ih⟩
  | list some few _ ih => exact ⟨_, some, few, rfl, ih⟩

/-- A sentence of a category is what its production derives from sentences. -/
theorem sentence_iff {c : Category} {w : List Token.Kind} :
    Sentence c w ↔ (production c).Matches Sentence w := by
  constructor
  · intro sentence
    cases sentence with
    | the body => exact body.matches fun _ _ matched => .the matched.derives
  · exact fun matched => .the matched.derives

end Grammar

end Lox
