import Lox.Diagnostic
import Lox.Syntax

/-!
# Reading tokens

A rule of the grammar is a `Rule`: it takes tokens off the front of what is left, and gives a tree
or fails with a diagnostic. What it has taken stays taken when it fails, and problems that need no
failure are noted on the way. `Rule.recover` turns a failure into a noted problem and goes on at the
next place where a statement may start.
-/

namespace Lox

namespace Grammar

/-- What is left to read, the next free node identity and the problems noted so far. -/
structure State where
  rest : List Token
  nextId : NodeId
  problems : Array Diagnostic

/-- A rule of the grammar. A failure is the diagnostic that describes it. -/
abbrev Rule := EStateM Diagnostic State

/-- The most parameters a function may have, and the most arguments a call may have. -/
def maxArity : Nat := 255

namespace State

/-- Starts reading tokens, with node identities from `firstId` on. -/
def start (tokens : List Token) (firstId : NodeId) : State := ⟨tokens, firstId, #[]⟩

/-- The next token. A list of tokens closes with an end token, which no rule takes off, so there is
one. -/
def head (s : State) : Token := s.rest.headD default

def atEnd (s : State) : Bool := s.head.kind = .eof

def note (s : State) (d : Diagnostic) : State := { s with problems := s.problems.push d }

end State

/-- Whether a token of this kind starts a statement by itself. -/
def startsStatement : Token.Kind → Bool
  | .keyword .class_ | .keyword .fun | .keyword .var | .keyword .for | .keyword .if
  | .keyword .while | .keyword .print | .keyword .return => true
  | _ => false

/-- The tokens from the next place on where a statement may start, after a token of the kind
`previous`: just past a semicolon, or before a word that starts a statement. -/
def nextStatement (previous : Token.Kind) : List Token → List Token
  | [] => []
  | t :: rest =>
    -- The semicolon is the token before `t`, which is kept.
    if t.kind = .eof ∨ previous = .symbol .semicolon ∨ startsStatement t.kind then t :: rest
    else nextStatement t.kind rest

/-- Leaves a broken statement: the token that broke it is skipped in any case. -/
def synchronize : List Token → List Token
  | [] => []
  | t :: rest => if t.kind = .eof then t :: rest else nextStatement t.kind rest

theorem nextStatement_suffix (previous : Token.Kind) (tokens : List Token) :
    nextStatement previous tokens <:+ tokens := by
  fun_induction nextStatement previous tokens with
  | case1 => exact List.nil_suffix
  | case2 => exact List.suffix_rfl
  | case3 _ t rest _ ih => exact ih.trans (List.suffix_cons t rest)

/-- Recovery only skips. -/
theorem synchronize_suffix (tokens : List Token) : synchronize tokens <:+ tokens := by
  unfold synchronize
  split
  · exact List.nil_suffix
  · split
    · exact List.suffix_rfl
    · exact (nextStatement_suffix _ _).trans (List.suffix_cons _ _)

namespace Rule

variable {α : Type}

def peek : Rule Token := fun s => .ok s.head s

def atEnd : Rule Bool := fun s => .ok s.atEnd s

/-- Fails at the next token. -/
def fail (cause : SyntaxError) : Rule α := fun s => .error (.atToken s.head cause) s

/-- Whether the next token has this kind, which is not that of the end. -/
def sees (kind : Token.Kind) : Rule Bool := fun s => .ok (s.head.kind = kind) s

/-- Takes the next token if it has this kind, which is not that of the end. -/
def accept (kind : Token.Kind) : Rule Bool := fun s =>
  if s.head.kind = kind then .ok true { s with rest := s.rest.tail } else .ok false s

/-- Takes the next token, which must have this kind. -/
def expect (kind : Token.Kind) (missing : SyntaxError) : Rule Token := fun s =>
  if s.head.kind = kind then .ok s.head { s with rest := s.rest.tail }
  else .error (.atToken s.head missing) s

/-- Takes the next token, which the caller has seen not to be the end. -/
def take : Rule Unit := fun s => .ok () { s with rest := s.rest.tail }

/-- Notes a problem and carries on. -/
def note (d : Diagnostic) : Rule Unit := fun s => .ok () (s.note d)

def freshId : Rule NodeId := fun s => .ok s.nextId { s with nextId := s.nextId + 1 }

/-- An identifier as a name. -/
def name (missing : SyntaxError) : Rule Name := do
  let t ← expect .identifier missing
  return ⟨t.lexeme, t.line⟩

/-- Notes a failure, goes on at the next statement and gives nothing. -/
def recover (rule : Rule α) : Rule (Option α) := fun s =>
  match rule s with
  | .ok value s => .ok (some value) s
  | .error d s =>
    -- What the rule took before it failed is not given back.
    let s := s.note d
    .ok none { s with rest := synchronize s.rest }

end Rule

end Grammar

end Lox
