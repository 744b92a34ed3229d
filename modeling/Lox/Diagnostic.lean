import Lox.Token

/-!
# Diagnostics

What can be wrong with a program before it runs. A diagnostic holds the cause and the place; its
wording is given in one place, `Diagnostic.message`.
-/

namespace Lox

/-- Why characters make no token. -/
inductive LexicalError where
  | unexpectedCharacter (c : Char)
  | unterminatedString
  deriving DecidableEq, Repr

/-- The two declarations with a parameter list, told apart in messages. -/
inductive FunctionKind where
  | function
  | method
  deriving DecidableEq, Repr

/-- Why tokens make no program, mostly what stands missing at the place. -/
inductive SyntaxError where
  | noClassName
  | noSuperclassName
  | noClassBody
  | openClassBody
  | noFunctionName (kind : FunctionKind)
  | noParameterList (kind : FunctionKind)
  | noParameterName
  | openParameterList
  | noFunctionBody (kind : FunctionKind)
  | noVariableName
  | openVariableDeclaration
  | noForClauses
  | openLoopCondition
  | openForClauses
  | openPrintStatement
  | openExpressionStatement
  | noIfCondition
  | openIfCondition
  | noWhileCondition
  | openWhileCondition
  | openReturnStatement
  | openBlock
  | noPropertyName
  | openArgumentList
  | noSuperDot
  | noSuperMethod
  | openGrouping
  | noExpression
  | noEndOfExpression
  | invalidAssignmentTarget
  | tooManyParameters
  | tooManyArguments
  deriving DecidableEq, Repr

/-- Why a well-formed program may not run. -/
inductive ScopeError where
  | duplicateDeclaration
  | readInOwnInitializer
  | returnAtTopLevel
  | returnValueFromInitializer
  | thisOutsideClass
  | superOutsideClass
  | superWithoutSuperclass
  | inheritsFromItself
  deriving DecidableEq, Repr

/-- Where in a line a token stands. -/
inductive Place where
  | lexeme (text : String)
  | endOfSource
  deriving DecidableEq, Repr

/-- A problem found before the program runs. -/
inductive Diagnostic where
  | lexical (line : Nat) (cause : LexicalError)
  | syntactic (line : Nat) (place : Place) (cause : SyntaxError)
  | scoping (line : Nat) (lexeme : String) (cause : ScopeError)
  deriving DecidableEq, Repr

def LexicalError.message : LexicalError → String
  | .unexpectedCharacter c => "Unexpected character: " ++ String.singleton c
  | .unterminatedString => "Unterminated string."

def FunctionKind.word : FunctionKind → String
  | .function => "function"
  | .method => "method"

def SyntaxError.message : SyntaxError → String
  | .noClassName => "Expect class name."
  | .noSuperclassName => "Expect superclass name."
  | .noClassBody => "Expect '\x7b' before class body."
  | .openClassBody => "Expect '\x7d' after class body."
  | .noFunctionName kind => "Expect " ++ kind.word ++ " name."
  | .noParameterList kind => "Expect '(' after " ++ kind.word ++ " name."
  | .noParameterName => "Expect parameter name."
  | .openParameterList => "Expect ')' after parameters."
  | .noFunctionBody kind => "Expect '\x7b' before " ++ kind.word ++ " body."
  | .noVariableName => "Expect variable name."
  | .openVariableDeclaration => "Expect ';' after variable declaration."
  | .noForClauses => "Expect '(' after 'for'."
  | .openLoopCondition => "Expect ';' after loop condition."
  | .openForClauses => "Expect ')' after for clauses."
  | .openPrintStatement => "Expect ';' after value."
  | .openExpressionStatement => "Expect ';' after expression."
  | .noIfCondition => "Expect '(' after 'if'."
  | .openIfCondition => "Expect ')' after if condition."
  | .noWhileCondition => "Expect '(' after 'while'."
  | .openWhileCondition => "Expect ')' after condition."
  | .openReturnStatement => "Expect ';' after return value."
  | .openBlock => "Expect '\x7d' after block."
  | .noPropertyName => "Expect property name after '.'."
  | .openArgumentList => "Expect ')' after arguments."
  | .noSuperDot => "Expect '.' after 'super'."
  | .noSuperMethod => "Expect superclass method name."
  | .openGrouping => "Expect ')' after expression."
  | .noExpression => "Expect expression."
  | .noEndOfExpression => "Expect end of expression."
  | .invalidAssignmentTarget => "Invalid assignment target."
  | .tooManyParameters => "Can't have more than 255 parameters."
  | .tooManyArguments => "Can't have more than 255 arguments."

def ScopeError.message : ScopeError → String
  | .duplicateDeclaration => "Already a variable with this name in this scope."
  | .readInOwnInitializer => "Can't read local variable in its own initializer."
  | .returnAtTopLevel => "Can't return from top-level code."
  | .returnValueFromInitializer => "Can't return a value from an initializer."
  | .thisOutsideClass => "Can't use 'this' outside of a class."
  | .superOutsideClass => "Can't use 'super' outside of a class."
  | .superWithoutSuperclass => "Can't use 'super' in a class with no superclass."
  | .inheritsFromItself => "A class can't inherit from itself."

namespace Place

def ofToken (t : Token) : Place :=
  match t.kind with
  | .eof => .endOfSource
  | _ => .lexeme t.lexeme

def message : Place → String
  | .lexeme text => " at '" ++ text ++ "'"
  | .endOfSource => " at end"

end Place

namespace Diagnostic

/-- A syntax error at a token. -/
def atToken (t : Token) (cause : SyntaxError) : Diagnostic :=
  .syntactic t.line (Place.ofToken t) cause

def line : Diagnostic → Nat
  | .lexical line _ => line
  | .syntactic line _ _ => line
  | .scoping line _ _ => line

/-- The text between the line and the end: the place, if one is shown, and what is wrong. -/
def detail : Diagnostic → String
  | .lexical _ cause => ": " ++ cause.message
  | .syntactic _ place cause => place.message ++ ": " ++ cause.message
  | .scoping _ lexeme cause => (Place.lexeme lexeme).message ++ ": " ++ cause.message

/-- The line of a report. -/
def message (d : Diagnostic) : String :=
  "[line " ++ toString d.line ++ "] Error" ++ d.detail

/-- A report of several diagnostics, a line each. -/
def report (ds : List Diagnostic) : String := "\n".intercalate (ds.map message)

end Diagnostic

end Lox
