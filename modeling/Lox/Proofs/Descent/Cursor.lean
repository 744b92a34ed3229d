import Lox.Grammar.Basic

/-!
# A cursor in a slice of tokens

Reading without taking tokens off: the slice stays as it is, and a position moves along it. The token at the
position is looked at by its index, and so is the token before. A walk has no result if an index lies
outside of the slice or below zero, or if it goes deeper than it may. Whatever is looked at is logged.
-/

namespace Lox

namespace Descent

/-- What happens at a position. -/
inductive Event where
  /-- The token at the position is looked at. -/
  | peek (position : Nat)
  /-- The token before the position is looked at. -/
  | previous (position : Nat)
  /-- A pass of a loop over declarations, from its first position to its last. -/
  | pass (start stop : Nat)
  deriving DecidableEq, Repr

structure Cursor where
  tokens : List Token
  current : Nat
  nextId : NodeId
  problems : Array Diagnostic
  /-- What has happened, the latest first. -/
  log : List Event

/-- Before the first token. -/
def Cursor.start (tokens : List Token) (firstId : NodeId) : Cursor := ⟨tokens, 0, firstId, #[], []⟩

abbrev Walk := StateT Cursor Option

/-- A walk that may fail with a diagnostic. -/
abbrev Attempt := ExceptT Diagnostic Walk

def peek : Walk Token := fun c => do
  let t ← c.tokens[c.current]?
  return (t, { c with log := .peek c.current :: c.log })

/-- The token before the position. There is none before the first one. -/
def previous : Walk Token := fun c => do
  if c.current = 0 then none
  else
    let t ← c.tokens[c.current - 1]?
    return (t, { c with log := .previous c.current :: c.log })

def position : Walk Nat := fun c => some (c.current, c)

/-- Logs a pass of a loop, which started at `start` and has come to its end. -/
def pass (start : Nat) : Walk Unit := fun c =>
  some ((), { c with log := .pass start c.current :: c.log })

def isAtEnd : Walk Bool := do return (← peek).kind = .eof

/-- Whether the next token has this kind. No token after the first end token is compared. -/
def check (kind : Token.Kind) : Walk Bool := do
  if ← isAtEnd then return false else return (← peek).kind = kind

/-- Goes past the next token unless it is the end, and gives the token before the position. -/
def advance : Walk Token := do
  if ← isAtEnd then previous
  else
    modify fun c => { c with current := c.current + 1 }
    previous

/-- Goes past the next token if it has this kind. -/
def accepts (kind : Token.Kind) : Walk Bool := do
  if ← check kind then
    let _ ← advance
    return true
  else return false

/-- Goes past the next token if it has one of these kinds. -/
def acceptsAny : List Token.Kind → Walk Bool
  | [] => return false
  | kind :: rest => do
    if ← accepts kind then return true else acceptsAny rest

def report (d : Diagnostic) : Walk Unit := fun c =>
  some ((), { c with problems := c.problems.push d })

def freshId : Walk NodeId := fun c => some (c.nextId, { c with nextId := c.nextId + 1 })

/-- Fails at the next token. -/
def fail {α : Type} (cause : SyntaxError) : Attempt α := do throw (.atToken (← peek) cause)

/-- Goes past the next token, which must have this kind. -/
def consume (kind : Token.Kind) (missing : SyntaxError) : Attempt Token := do
  if ← check kind then advance else fail missing

/-- An identifier as a name. -/
def name (missing : SyntaxError) : Attempt Name := do
  let t ← consume .identifier missing
  return ⟨t.lexeme, t.line⟩

/-- A walk that goes deeper than it may. -/
def tooDeep {α : Type} : Walk α := fun _ => none

/-- Goes on to the next place where a statement may start. -/
def skip : Nat → Walk Unit
  | 0 => tooDeep
  | n + 1 => do
    if ← isAtEnd then return
    else if (← previous).kind = .symbol .semicolon then return
    else if Grammar.startsStatement (← peek).kind then return
    else
      let _ ← advance
      skip n

/-- Leaves a broken statement: the token that broke it is skipped in any case. -/
def synchronize (n : Nat) : Walk Unit := do
  let _ ← advance
  skip n

/-- Reports a failure, goes on at the next statement and gives nothing. -/
def recovering {α : Type} (n : Nat) (x : Attempt α) : Walk (Option α) := do
  let outcome ← x.run
  match outcome with
  | .ok a => return some a
  | .error d =>
    report d
    synchronize n
    return none

/-- The kinds of the prefix operators. -/
def prefixOperators : List Token.Kind := [.symbol .bang, .symbol .minus]

end Descent

end Lox
