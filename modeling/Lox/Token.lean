import Lox.Number.Text

/-!
# Tokens

A token is a symbol, a reserved word, an identifier, a string, a number or the end of the source,
with the text it was read from and the line that text ends on. Only strings and numbers carry a
value.
-/

namespace Lox

/-- Punctuation marks and operators. -/
inductive Symbol where
  | leftParen | rightParen | leftBrace | rightBrace
  | comma | dot | minus | plus | semicolon | slash | star
  | bang | bangEqual | equal | equalEqual
  | greater | greaterEqual | less | lessEqual
  deriving DecidableEq, Repr, Inhabited

/-- Reserved words. -/
inductive Keyword where
  | and | class_ | else | false | fun | for | if | nil
  | or | print | return | super | this | true | var | while
  deriving DecidableEq, Repr, Inhabited

namespace Symbol

def all : List Symbol :=
  [.leftParen, .rightParen, .leftBrace, .rightBrace, .comma, .dot, .minus, .plus, .semicolon,
    .slash, .star, .bang, .bangEqual, .equal, .equalEqual, .greater, .greaterEqual, .less,
    .lessEqual]

/-- How the symbol is written in a source. -/
def spelling : Symbol → String
  | .leftParen => "("
  | .rightParen => ")"
  | .leftBrace => "\x7b"
  | .rightBrace => "\x7d"
  | .comma => ","
  | .dot => "."
  | .minus => "-"
  | .plus => "+"
  | .semicolon => ";"
  | .slash => "/"
  | .star => "*"
  | .bang => "!"
  | .bangEqual => "!="
  | .equal => "="
  | .equalEqual => "=="
  | .greater => ">"
  | .greaterEqual => ">="
  | .less => "<"
  | .lessEqual => "<="

/-- The name under which token listings show the symbol. -/
def name : Symbol → String
  | .leftParen => "LEFT_PAREN"
  | .rightParen => "RIGHT_PAREN"
  | .leftBrace => "LEFT_BRACE"
  | .rightBrace => "RIGHT_BRACE"
  | .comma => "COMMA"
  | .dot => "DOT"
  | .minus => "MINUS"
  | .plus => "PLUS"
  | .semicolon => "SEMICOLON"
  | .slash => "SLASH"
  | .star => "STAR"
  | .bang => "BANG"
  | .bangEqual => "BANG_EQUAL"
  | .equal => "EQUAL"
  | .equalEqual => "EQUAL_EQUAL"
  | .greater => "GREATER"
  | .greaterEqual => "GREATER_EQUAL"
  | .less => "LESS"
  | .lessEqual => "LESS_EQUAL"

end Symbol

namespace Keyword

def all : List Keyword :=
  [.and, .class_, .else, .false, .fun, .for, .if, .nil, .or, .print, .return, .super, .this, .true,
    .var, .while]

/-- How the word is written in a source. -/
def spelling : Keyword → String
  | .and => "and"
  | .class_ => "class"
  | .else => "else"
  | .false => "false"
  | .fun => "fun"
  | .for => "for"
  | .if => "if"
  | .nil => "nil"
  | .or => "or"
  | .print => "print"
  | .return => "return"
  | .super => "super"
  | .this => "this"
  | .true => "true"
  | .var => "var"
  | .while => "while"

/-- The name under which token listings show the word. -/
def name : Keyword → String
  | .and => "AND"
  | .class_ => "CLASS"
  | .else => "ELSE"
  | .false => "FALSE"
  | .fun => "FUN"
  | .for => "FOR"
  | .if => "IF"
  | .nil => "NIL"
  | .or => "OR"
  | .print => "PRINT"
  | .return => "RETURN"
  | .super => "SUPER"
  | .this => "THIS"
  | .true => "TRUE"
  | .var => "VAR"
  | .while => "WHILE"

/-- The reserved word that is spelt `word`. -/
def ofSpelling? (word : String) : Option Keyword := all.find? (fun k => k.spelling = word)

/-- A word is read as a keyword exactly when it is that keyword's spelling. -/
theorem ofSpelling?_eq_some_iff {word : String} {k : Keyword} :
    ofSpelling? word = some k ↔ k.spelling = word := by
  constructor
  · intro found
    simpa using List.find?_some found
  · rintro rfl
    cases k <;> rfl

end Keyword

namespace Token

/-- What a token is. -/
inductive Kind where
  | symbol (s : Symbol)
  | keyword (k : Keyword)
  | identifier
  /-- A string literal with the text between its quotes. -/
  | string (text : String)
  /-- A number literal with its value. -/
  | number (value : Float)
  | eof
  deriving DecidableEq

namespace Kind

/-- The name under which token listings show the kind; it does not tell the value. -/
def name : Kind → String
  | .symbol s => s.name
  | .keyword k => k.name
  | .identifier => "IDENTIFIER"
  | .string _ => "STRING"
  | .number _ => "NUMBER"
  | .eof => "EOF"

/-- The kinds a listing can name, those with a value standing for any value. -/
def all : List Kind :=
  Symbol.all.map .symbol ++ Keyword.all.map .keyword ++
    [.identifier, .string "", .number 0, .eof]

/-- The kind a listing shows under the given name. -/
def ofName? (name : String) : Option Kind := all.find? (fun kind => kind.name = name)

instance : Inhabited Kind := ⟨.eof⟩

end Kind

end Token

/-- A kind with the text it was read from and the line the text ends on. -/
structure Token where
  kind : Token.Kind
  lexeme : String
  line : Nat
  deriving DecidableEq, Inhabited

namespace Token

/-- The value that a listing shows for the token, `null` for a token without one. -/
def valueText (t : Token) : String :=
  match t.kind with
  | .string text => text
  | .number value => Number.text value
  | _ => "null"

/-- A line of a token listing: kind, lexeme and value. -/
def describe (t : Token) : String := t.kind.name ++ " " ++ t.lexeme ++ " " ++ t.valueText

end Token

end Lox
