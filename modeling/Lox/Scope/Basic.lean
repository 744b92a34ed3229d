import Lox.Diagnostic
import Lox.Syntax
import Lox.Table

/-!
# Scopes

A `Resolution` is where a walk over a program stands: the open local scopes, the kind of function
and of class around, and what the walk has found so far. Each occurrence of a name is looked up in
the open scopes, and the number of scopes to leave is recorded; a name in no local scope is global.
-/

namespace Lox

/-- How far a local name has come: while its own initializer is read it is declared only. -/
inductive Status where
  | declared
  | defined
  deriving DecidableEq, Repr

/-- The names of one block, parameter list with body, or class. -/
abbrev Scope := Table Status

/-- The body that a statement stands in, as far as `return` is concerned. -/
inductive FunctionContext where
  | none
  | function
  | initializer
  | method
  deriving DecidableEq, Repr

/-- The class that an expression stands in. -/
inductive ClassContext where
  | none
  | plain
  | derived
  deriving DecidableEq, Repr

/-- The look-up of one occurrence: how many scopes lie inside the one that holds the name, or
nothing if none does. -/
structure Lookup where
  id : NodeId
  name : String
  depth : Option Nat
  deriving DecidableEq, Repr

/-- A node that is bound locally, with the number of scopes to leave. -/
abbrev Binding := NodeId × Nat

/-- The binding that a look-up found in a local scope. -/
def Lookup.binding? (l : Lookup) : Option Binding := l.depth.map (l.id, ·)

/-- A walk over a program. -/
structure Resolution where
  /-- The open scopes, the innermost first. -/
  scopes : List Scope
  inFunction : FunctionContext
  inClass : ClassContext
  lookups : Array Lookup
  problems : Array Diagnostic

namespace Resolution

/-- Outside every scope, function and class, with nothing found. -/
def start : Resolution := ⟨[], .none, .none, #[], #[]⟩

def report (r : Resolution) (line : Nat) (lexeme : String) (cause : ScopeError) : Resolution :=
  { r with problems := r.problems.push (.scoping line lexeme cause) }

/-- Reports a problem at a name if it is there. -/
def reportIf (r : Resolution) (wrong : Bool) (name : Name) (cause : ScopeError) : Resolution :=
  if wrong then r.report name.line name.text cause else r

/-- The status of a name in the innermost scope. -/
def innermost? (r : Resolution) (name : String) : Option Status :=
  r.scopes.head?.bind (·.get? name)

/-- Gives a name a status in the innermost scope. There is nothing to record for globals. -/
def mark (r : Resolution) (name : String) (status : Status) : Resolution :=
  match r.scopes with
  | [] => r
  | scope :: outer => { r with scopes := scope.insert name status :: outer }

/-- Starts the declaration of a name. A local scope holds a name once; globals may be declared
again. -/
def declare (r : Resolution) (name : Name) : Resolution :=
  -- What counts is whether the scope held the name before.
  (r.mark name.text .declared).reportIf (r.innermost? name.text).isSome name .duplicateDeclaration

/-- Ends the declaration of a name, which can be read from now on. -/
def define (r : Resolution) (name : Name) : Resolution := r.mark name.text .defined

/-- Looks an occurrence of a name up in the open scopes. -/
def lookUp (r : Resolution) (id : NodeId) (name : String) : Resolution :=
  { r with lookups := r.lookups.push ⟨id, name, r.scopes.findIdx? (·.contains name)⟩ }

/-- Walks on within a new scope, which holds the given names. -/
def within (r : Resolution) (names : List String) (body : Resolution → Resolution) : Resolution :=
  let scope : Scope := Table.insertAll ∅ (names.map (·, .defined))
  let r := body { r with scopes := scope :: r.scopes }
  { r with scopes := r.scopes.tail }

end Resolution

end Lox
