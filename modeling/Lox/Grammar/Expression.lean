import Lox.Grammar.Basic

/-!
# The grammar of expressions

From the loosest level to the tightest: assignment, `or`, `and`, equality, comparison, sums,
products, prefix operators, calls and property reads, and the operands proper. The six levels of
operators between two operands share one rule, which groups to the left.

The number each rule takes first bounds the depth of rules within rules. Every sixteenth rule at
the latest takes a token, so `depthFor` many suffice for the tokens left.
-/

namespace Lox.Grammar

/-- The levels of operators that stand between operands, from the loosest on. -/
inductive Level where
  | or | and | equality | comparison | term | factor
  deriving DecidableEq, Repr

namespace Level

/-- The level of the operands; those of the tightest level are prefix expressions. -/
def tighter? : Level → Option Level
  | .or => some .and
  | .and => some .equality
  | .equality => some .comparison
  | .comparison => some .term
  | .term => some .factor
  | .factor => none

/-- Whether a token of this kind is an operator of the level. -/
def joins : Level → Token.Kind → Bool
  | .or, .keyword .or => true
  | .and, .keyword .and => true
  | .equality, .symbol .bangEqual | .equality, .symbol .equalEqual => true
  | .comparison, .symbol .greater | .comparison, .symbol .greaterEqual => true
  | .comparison, .symbol .less | .comparison, .symbol .lessEqual => true
  | .term, .symbol .minus | .term, .symbol .plus => true
  | .factor, .symbol .slash | .factor, .symbol .star => true
  | _, _ => false

/-- The tree of an operator of the level between its operands. -/
def join (level : Level) (left : Expr) (operator : Token) (right : Expr) : Expr :=
  match level with
  | .or | .and => .logical left operator right
  | _ => .binary left operator right

end Level

/-- Whether a token of this kind is a prefix operator. -/
def isPrefixOperator : Token.Kind → Bool
  | .symbol .bang | .symbol .minus => true
  | _ => false

/-- A depth of rules within rules that these tokens cannot exceed. -/
def depthFor (tokens : List Token) : Nat := 32 * (tokens.length + 1)

open Rule

mutual

/-- An assignment, or an expression without one. The target is known to be one only after it has
been read as an expression; a wrong one is noted at the equals sign and stands for the whole. -/
def expression : Nat → Rule Expr
  | 0 => fail .noExpression
  | n + 1 => do
    let target ← joined n .or
    let equals ← peek
    if ← accept (.symbol .equal) then
      -- Assignment groups to the right.
      let value ← expression n
      match target with
      | .variable name _ => return .assign name value (← freshId)
      | .get object name => return .set object name value
      | _ =>
        -- Reading goes on; the value that stands to the right is dropped.
        note (.atToken equals .invalidAssignmentTarget)
        return target
    else return target

/-- Operands with operators of a level, or of tighter ones, between them. -/
def joined : Nat → Level → Rule Expr
  | 0, _ => fail .noExpression
  | n + 1, level => do
    let left ← operand n level
    joinedFrom n level left

/-- An operand of an operator of the level. -/
def operand : Nat → Level → Rule Expr
  | 0, _ => fail .noExpression
  | n + 1, level =>
    match level.tighter? with
    | some tighter => joined n tighter
    | none => prefixed n

/-- The operators of the level that follow `left`, with their right operands. -/
def joinedFrom : Nat → Level → Expr → Rule Expr
  | 0, _, _ => fail .noExpression
  | n + 1, level, left => do
    let operator ← peek
    if level.joins operator.kind then
      take
      -- The right operand is of a tighter level, so operators of one level group to the left.
      let right ← operand n level
      joinedFrom n level (level.join left operator right)
    else return left

/-- Prefix operators before a call or an operand proper. -/
def prefixed : Nat → Rule Expr
  | 0 => fail .noExpression
  | n + 1 => do
    let operator ← peek
    if isPrefixOperator operator.kind then
      take
      return .unary operator (← prefixed n)
    else
      let callee ← primary n
      suffixes n callee

/-- The argument lists and property names that follow an expression. -/
def suffixes : Nat → Expr → Rule Expr
  | 0, _ => fail .noExpression
  | n + 1, object => do
    if ← accept (.symbol .leftParen) then
      let arguments ← if ← sees (.symbol .rightParen) then pure [] else arguments n []
      -- A call stands on the line of its closing parenthesis.
      let paren ← expect (.symbol .rightParen) .openArgumentList
      suffixes n (.call object paren.line arguments)
    else if ← accept (.symbol .dot) then
      let property ← name .noPropertyName
      suffixes n (.get object property)
    else return object

/-- Arguments separated by commas, after those read already, which come last first. -/
def arguments : Nat → List Expr → Rule (List Expr)
  | 0, _ => fail .noExpression
  | n + 1, done => do
    -- Each argument past the limit is noted, and all of them are read.
    if maxArity ≤ done.length then note (.atToken (← peek) .tooManyArguments)
    let argument ← expression n
    if ← accept (.symbol .comma) then arguments n (argument :: done)
    else return (argument :: done).reverse

/-- A literal, a name, a grouping, `this` or a superclass method. -/
def primary : Nat → Rule Expr
  | 0 => fail .noExpression
  | n + 1 => do
    let t ← peek
    match t.kind with
    | .keyword .false => take; return .literal (.bool false)
    | .keyword .true => take; return .literal (.bool true)
    | .keyword .nil => take; return .literal .nil
    | .number value => take; return .literal (.number value)
    | .string text => take; return .literal (.string text)
    | .keyword .super =>
      take
      let _ ← expect (.symbol .dot) .noSuperDot
      let method ← name .noSuperMethod
      return .super ⟨t.lexeme, t.line⟩ method (← freshId)
    | .keyword .this => take; return .this ⟨t.lexeme, t.line⟩ (← freshId)
    | .identifier => take; return .variable ⟨t.lexeme, t.line⟩ (← freshId)
    | .symbol .leftParen =>
      take
      let inner ← expression n
      let _ ← expect (.symbol .rightParen) .openGrouping
      return .grouping inner
    | _ => fail .noExpression

end

/-- One expression that the tokens hold and nothing else. -/
def singleExpression (tokens : List Token) : Rule Expr := do
  let e ← expression (depthFor tokens)
  if ← atEnd then return e else fail .noEndOfExpression

end Lox.Grammar
