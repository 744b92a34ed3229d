import Lox.Proofs.Descent.Cursor
import Lox.Proofs.Grammar.Sentence

/-!
# Descent through the grammar

The rules of the grammar as walks along a slice of tokens. The number that a rule takes first bounds how deep
rules are called from rules, a pass of a loop being a call of its own. A walk that goes deeper has no result,
so one that has a result has come to its end by the rules themselves.
-/

namespace Lox

namespace Descent

open Grammar (Level maxArity)

mutual

def expression : Nat → Attempt Expr
  | 0 => tooDeep
  | n + 1 => do
    let target ← joined n .or
    if ← accepts (.symbol .equal) then
      let equals ← previous
      let value ← expression n
      match target with
      | .variable name _ => return .assign name value (← freshId)
      | .get object name => return .set object name value
      | _ =>
        report (.atToken equals .invalidAssignmentTarget)
        return target
    else return target

/-- Operands with operators of a level, or of tighter ones, between them. -/
def joined : Nat → Level → Attempt Expr
  | 0, _ => tooDeep
  | n + 1, level => do
    let left ← operand n level
    joinedFrom n level left

def operand : Nat → Level → Attempt Expr
  | 0, _ => tooDeep
  | n + 1, level =>
    match level.tighter? with
    | some tighter => joined n tighter
    | none => prefixed n

def joinedFrom : Nat → Level → Expr → Attempt Expr
  | 0, _, _ => tooDeep
  | n + 1, level, left => do
    if ← acceptsAny level.operators then
      let operator ← previous
      let right ← operand n level
      joinedFrom n level (level.join left operator right)
    else return left

def prefixed : Nat → Attempt Expr
  | 0 => tooDeep
  | n + 1 => do
    if ← acceptsAny prefixOperators then
      let operator ← previous
      return .unary operator (← prefixed n)
    else
      let callee ← primary n
      suffixes n callee

/-- The argument lists and property names that follow an expression. -/
def suffixes : Nat → Expr → Attempt Expr
  | 0, _ => tooDeep
  | n + 1, object => do
    if ← accepts (.symbol .leftParen) then
      let arguments ← if ← check (.symbol .rightParen) then pure [] else arguments n []
      let paren ← consume (.symbol .rightParen) .openArgumentList
      suffixes n (.call object paren.line arguments)
    else if ← accepts (.symbol .dot) then
      let property ← name .noPropertyName
      suffixes n (.get object property)
    else return object

/-- Arguments separated by commas, after those read already, which come last first. -/
def arguments : Nat → List Expr → Attempt (List Expr)
  | 0, _ => tooDeep
  | n + 1, done => do
    if maxArity ≤ done.length then report (.atToken (← peek) .tooManyArguments)
    let argument ← expression n
    if ← accepts (.symbol .comma) then arguments n (argument :: done)
    else return (argument :: done).reverse

def primary : Nat → Attempt Expr
  | 0 => tooDeep
  | n + 1 => do
    if ← accepts (.keyword .false) then return .literal (.bool false)
    if ← accepts (.keyword .true) then return .literal (.bool true)
    if ← accepts (.keyword .nil) then return .literal .nil
    if let .number value := (← peek).kind then
      let _ ← advance
      return .literal (.number value)
    if let .string text := (← peek).kind then
      let _ ← advance
      return .literal (.string text)
    if ← accepts (.keyword .super) then
      let keyword ← previous
      let _ ← consume (.symbol .dot) .noSuperDot
      let method ← name .noSuperMethod
      return .super ⟨keyword.lexeme, keyword.line⟩ method (← freshId)
    if ← accepts (.keyword .this) then
      let keyword ← previous
      return .this ⟨keyword.lexeme, keyword.line⟩ (← freshId)
    if ← accepts .identifier then
      let variableName ← previous
      return .variable ⟨variableName.lexeme, variableName.line⟩ (← freshId)
    if ← accepts (.symbol .leftParen) then
      let inner ← expression n
      let _ ← consume (.symbol .rightParen) .openGrouping
      return .grouping inner
    fail .noExpression

end

/-- One expression that the tokens hold and nothing else. -/
def singleExpression (n : Nat) : Attempt Expr := do
  let e ← expression n
  if ← isAtEnd then return e else fail .noEndOfExpression

/-- An expression, unless a token of the kind `stop` follows at once. -/
def optionalValue (n : Nat) (stop : Token.Kind) : Attempt (Option Expr) := do
  if ← check stop then return none else return some (← expression n)

def variableDeclaration (n : Nat) : Attempt Stmt := do
  let declared ← name .noVariableName
  let initializer ← if ← accepts (.symbol .equal) then some <$> expression n else pure none
  let _ ← consume (.symbol .semicolon) .openVariableDeclaration
  return .var declared initializer

def expressionStatement (n : Nat) : Attempt Stmt := do
  let value ← expression n
  let _ ← consume (.symbol .semicolon) .openExpressionStatement
  return .expression value

def printStatement (n : Nat) : Attempt Stmt := do
  let value ← expression n
  let _ ← consume (.symbol .semicolon) .openPrintStatement
  return .print value

/-- A `return`, whose keyword is the token before. -/
def returnStatement (n : Nat) : Attempt Stmt := do
  let keyword ← previous
  let value ← optionalValue n (.symbol .semicolon)
  let _ ← consume (.symbol .semicolon) .openReturnStatement
  return .return keyword.line value

/-- Parameters separated by commas, after those read already, which come last first. -/
def parameters : Nat → List Name → Attempt (List Name)
  | 0, _ => tooDeep
  | n + 1, done => do
    if maxArity ≤ done.length then report (.atToken (← peek) .tooManyParameters)
    let parameter ← name .noParameterName
    if ← accepts (.symbol .comma) then parameters n (parameter :: done)
    else return (parameter :: done).reverse

/-- The first part of a `for` loop, with the semicolon that ends it. -/
def forInitializer (n : Nat) : Attempt (Option Stmt) := do
  if ← accepts (.symbol .semicolon) then return none
  else if ← accepts (.keyword .var) then return some (← variableDeclaration n)
  else return some (← expressionStatement n)

def superclass : Attempt (Option Expr) := do
  if ← accepts (.symbol .less) then
    let parent ← name .noSuperclassName
    return some (.variable parent (← freshId))
  else return none

/-- Whether a loop over declarations is over: at a token of the given kind, if there is one, or at the
end. -/
def isOver (closing : Option Token.Kind) : Walk Bool := do
  match closing with
  | some kind => if ← check kind then return true else isAtEnd
  | none => isAtEnd

mutual

/-- A declaration or statement; a failure in it is reported and it is left out. -/
def declaration : Nat → Walk (Option Stmt)
  | 0 => tooDeep
  | n + 1 => recovering n do
    if ← accepts (.keyword .class_) then classDeclaration n
    else if ← accepts (.keyword .fun) then return .function (← function n .function)
    else if ← accepts (.keyword .var) then variableDeclaration n
    else statement n

def classDeclaration : Nat → Attempt Stmt
  | 0 => tooDeep
  | n + 1 => do
    let className ← name .noClassName
    let parent ← superclass
    let _ ← consume (.symbol .leftBrace) .noClassBody
    let methods ← methods n []
    let _ ← consume (.symbol .rightBrace) .openClassBody
    return .class_ className parent methods

/-- The methods up to a closing brace, after those read already, which come last first. -/
def methods : Nat → List FunctionDecl → Attempt (List FunctionDecl)
  | 0, _ => tooDeep
  | n + 1, done => do
    if ← isOver (some (.symbol .rightBrace)) then return done.reverse
    else
      let method ← function n .method
      methods n (method :: done)

/-- A function or method from its name on. -/
def function : Nat → FunctionKind → Attempt FunctionDecl
  | 0, _ => tooDeep
  | n + 1, kind => do
    let functionName ← name (.noFunctionName kind)
    let _ ← consume (.symbol .leftParen) (.noParameterList kind)
    let parameters ← if ← check (.symbol .rightParen) then pure [] else parameters n []
    let _ ← consume (.symbol .rightParen) .openParameterList
    let _ ← consume (.symbol .leftBrace) (.noFunctionBody kind)
    let body ← block n
    return ⟨functionName, parameters, body⟩

def statement : Nat → Attempt Stmt
  | 0 => tooDeep
  | n + 1 => do
    if ← accepts (.keyword .for) then forStatement n
    else if ← accepts (.keyword .if) then ifStatement n
    else if ← accepts (.keyword .while) then whileStatement n
    else if ← accepts (.keyword .return) then returnStatement n
    else if ← accepts (.symbol .leftBrace) then return .block (← block n)
    else if ← accepts (.keyword .print) then printStatement n
    else expressionStatement n

def forStatement : Nat → Attempt Stmt
  | 0 => tooDeep
  | n + 1 => do
    let _ ← consume (.symbol .leftParen) .noForClauses
    let initializer ← forInitializer n
    let condition ← optionalValue n (.symbol .semicolon)
    let _ ← consume (.symbol .semicolon) .openLoopCondition
    let increment ← optionalValue n (.symbol .rightParen)
    let _ ← consume (.symbol .rightParen) .openForClauses
    let body ← statement n
    return .forLoop initializer condition increment body

def ifStatement : Nat → Attempt Stmt
  | 0 => tooDeep
  | n + 1 => do
    let _ ← consume (.symbol .leftParen) .noIfCondition
    let condition ← expression n
    let _ ← consume (.symbol .rightParen) .openIfCondition
    let thenBranch ← statement n
    if ← accepts (.keyword .else) then
      return .ifElse condition thenBranch (some (← statement n))
    else return .ifElse condition thenBranch none

def whileStatement : Nat → Attempt Stmt
  | 0 => tooDeep
  | n + 1 => do
    let _ ← consume (.symbol .leftParen) .noWhileCondition
    let condition ← expression n
    let _ ← consume (.symbol .rightParen) .openWhileCondition
    return .while condition (← statement n)

/-- The statements of a block, with the brace that closes it. -/
def block : Nat → Attempt (List Stmt)
  | 0 => tooDeep
  | n + 1 => do
    let body ← declarations n (some (.symbol .rightBrace)) []
    let _ ← consume (.symbol .rightBrace) .openBlock
    return body

/-- The declarations until the loop is over, after those read already, which come last first. -/
def declarations : Nat → Option Token.Kind → List Stmt → Walk (List Stmt)
  | 0, _, _ => tooDeep
  | n + 1, closing, done => do
    if ← isOver closing then return done.reverse
    else
      let start ← position
      let result ← declaration n
      pass start
      declarations n closing (result.toList ++ done)

end

/-- A program: the statements that are well-formed. -/
def program (n : Nat) : Walk (List Stmt) := declarations n none []

end Descent

end Lox
