import Lox.Grammar.Expression

/-!
# The grammar of programs

Declarations and statements. A declaration that fails is noted and left out, and reading goes on
at the next statement, also within a block. A `for` loop is read as the `while` loop it stands for.
-/

namespace Lox

/-- `for (initializer; condition; increment) body`: the initializer runs once in a scope of its
own, an absent condition holds, and the increment follows each run of the body. -/
def Stmt.forLoop (initializer : Option Stmt) (condition increment : Option Expr) (body : Stmt) :
    Stmt :=
  let step := match increment with
    | some e => .block [body, .expression e]
    | none => body
  let loop := .while (condition.getD (.literal (.bool true))) step
  match initializer with
  | some s => .block [s, loop]
  | none => loop

namespace Grammar

open Rule

/-- An expression, unless a token of the kind `stop` follows at once. -/
def optionalValue (n : Nat) (stop : Token.Kind) : Rule (Option Expr) := do
  if ← sees stop then return none else return some (← expression n)

def variableDeclaration (n : Nat) : Rule Stmt := do
  let declared ← name .noVariableName
  let initializer ← if ← accept (.symbol .equal) then some <$> expression n else pure none
  let _ ← expect (.symbol .semicolon) .openVariableDeclaration
  return .var declared initializer

def expressionStatement (n : Nat) : Rule Stmt := do
  let value ← expression n
  let _ ← expect (.symbol .semicolon) .openExpressionStatement
  return .expression value

def printStatement (n : Nat) : Rule Stmt := do
  let value ← expression n
  let _ ← expect (.symbol .semicolon) .openPrintStatement
  return .print value

/-- A `return` whose keyword stood on the given line. -/
def returnStatement (n : Nat) (line : Nat) : Rule Stmt := do
  let value ← optionalValue n (.symbol .semicolon)
  let _ ← expect (.symbol .semicolon) .openReturnStatement
  return .return line value

/-- Parameters separated by commas, after those read already, which come last first. -/
def parameters : Nat → List Name → Rule (List Name)
  | 0, _ => fail .noParameterName
  | n + 1, done => do
    if maxArity ≤ done.length then note (.atToken (← peek) .tooManyParameters)
    let parameter ← name .noParameterName
    if ← accept (.symbol .comma) then parameters n (parameter :: done)
    else return (parameter :: done).reverse

/-- The first part of a `for` loop, with the semicolon that ends it. -/
def forInitializer (n : Nat) : Rule (Option Stmt) := do
  if ← accept (.symbol .semicolon) then return none
  else if ← accept (.keyword .var) then return some (← variableDeclaration n)
  else return some (← expressionStatement n)

/-- The name of a superclass, if one is given. -/
def superclass : Rule (Option Expr) := do
  if ← accept (.symbol .less) then
    let parent ← name .noSuperclassName
    return some (.variable parent (← freshId))
  else return none

mutual

/-- A declaration or statement; a failure in it is noted and it is left out. -/
def declaration : Nat → Rule (Option Stmt)
  | 0 => recover (fail .noExpression)
  | n + 1 => recover do
    if ← accept (.keyword .class_) then classDeclaration n
    else if ← accept (.keyword .fun) then return .function (← function n .function)
    else if ← accept (.keyword .var) then variableDeclaration n
    else statement n

def classDeclaration : Nat → Rule Stmt
  | 0 => fail .noClassName
  | n + 1 => do
    let className ← name .noClassName
    let parent ← superclass
    let _ ← expect (.symbol .leftBrace) .noClassBody
    let methods ← methods n []
    let _ ← expect (.symbol .rightBrace) .openClassBody
    return .class_ className parent methods

/-- The methods up to a closing brace, after those read already, which come last first. -/
def methods : Nat → List FunctionDecl → Rule (List FunctionDecl)
  | 0, _ => fail .openClassBody
  | n + 1, done => do
    -- At the end of the source the brace is missing; the caller reports that.
    if (← sees (.symbol .rightBrace)) || (← atEnd) then return done.reverse
    else
      let method ← function n .method
      methods n (method :: done)

/-- A function or method from its name on. -/
def function : Nat → FunctionKind → Rule FunctionDecl
  | 0, kind => fail (.noFunctionName kind)
  | n + 1, kind => do
    let functionName ← name (.noFunctionName kind)
    let _ ← expect (.symbol .leftParen) (.noParameterList kind)
    let parameters ← if ← sees (.symbol .rightParen) then pure [] else parameters n []
    let _ ← expect (.symbol .rightParen) .openParameterList
    let _ ← expect (.symbol .leftBrace) (.noFunctionBody kind)
    let body ← block n
    return ⟨functionName, parameters, body⟩

def statement : Nat → Rule Stmt
  | 0 => fail .noExpression
  | n + 1 => do
    let t ← peek
    match t.kind with
    | .keyword .for => take; forStatement n
    | .keyword .if => take; ifStatement n
    | .keyword .while => take; whileStatement n
    | .keyword .return => take; returnStatement n t.line
    | .symbol .leftBrace => take; return .block (← block n)
    | .keyword .print => take; printStatement n
    | _ => expressionStatement n

def forStatement : Nat → Rule Stmt
  | 0 => fail .noForClauses
  | n + 1 => do
    let _ ← expect (.symbol .leftParen) .noForClauses
    let initializer ← forInitializer n
    let condition ← optionalValue n (.symbol .semicolon)
    let _ ← expect (.symbol .semicolon) .openLoopCondition
    let increment ← optionalValue n (.symbol .rightParen)
    let _ ← expect (.symbol .rightParen) .openForClauses
    let body ← statement n
    return .forLoop initializer condition increment body

def ifStatement : Nat → Rule Stmt
  | 0 => fail .noIfCondition
  | n + 1 => do
    let _ ← expect (.symbol .leftParen) .noIfCondition
    let condition ← expression n
    let _ ← expect (.symbol .rightParen) .openIfCondition
    let thenBranch ← statement n
    -- An `else` goes with the nearest `if` before it.
    if ← accept (.keyword .else) then
      return .ifElse condition thenBranch (some (← statement n))
    else return .ifElse condition thenBranch none

def whileStatement : Nat → Rule Stmt
  | 0 => fail .noWhileCondition
  | n + 1 => do
    let _ ← expect (.symbol .leftParen) .noWhileCondition
    let condition ← expression n
    let _ ← expect (.symbol .rightParen) .openWhileCondition
    return .while condition (← statement n)

/-- The statements of a block, with the brace that closes it. -/
def block : Nat → Rule (List Stmt)
  | 0 => fail .openBlock
  | n + 1 => do
    let body ← declarations n (.symbol .rightBrace) []
    let _ ← expect (.symbol .rightBrace) .openBlock
    return body

/-- The declarations up to a token of the kind `stop` or the end, after those read already, which
come last first. -/
def declarations : Nat → Token.Kind → List Stmt → Rule (List Stmt)
  | 0, _, _ => fail .openBlock
  | n + 1, stop, done => do
    if (← sees stop) || (← atEnd) then return done.reverse
    else match ← declaration n with
      | some s => declarations n stop (s :: done)
      -- The declaration that failed has been noted.
      | none => declarations n stop done

end

end Grammar

end Lox
