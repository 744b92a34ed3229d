import Lox.Proofs.Syntax.Renumbering
import Lox.Scope.Resolution

/-!
# Resolving does not depend on node identities

The walk over a program records under which identity each name was looked up and reads nothing from
the identities. So the walk over a renumbered program finds the same problems, and the same look-ups
under the new identities.
-/

namespace Lox

/-- The look-up of the occurrence with the new identity. -/
def Lookup.renumber (f : NodeId → NodeId) (l : Lookup) : Lookup := { l with id := f l.id }

namespace Resolution

/-- Where the walk stands when its look-ups so far had the new identities. -/
def renumber (f : NodeId → NodeId) (r : Resolution) : Resolution :=
  { r with lookups := r.lookups.map (Lookup.renumber f) }

variable (f : NodeId → NodeId) (r : Resolution)

/-! ### Steps of the walk -/

theorem renumber_inClass : (r.renumber f).inClass = r.inClass := rfl

theorem renumber_reportIf (wrong : Bool) (name : Name) (cause : ScopeError) :
    (r.renumber f).reportIf wrong name cause = (r.reportIf wrong name cause).renumber f := by
  unfold reportIf
  split <;> rfl

theorem renumber_mark (name : String) (status : Status) :
    (r.renumber f).mark name status = (r.mark name status).renumber f := by
  obtain ⟨scopes, _, _, _, _⟩ := r
  cases scopes <;> rfl

theorem renumber_declare (name : Name) :
    (r.renumber f).declare name = (r.declare name).renumber f := by
  unfold declare
  rw [renumber_mark, renumber_reportIf]
  rfl

theorem renumber_define (name : Name) :
    (r.renumber f).define name = (r.define name).renumber f := renumber_mark f r _ _

theorem renumber_lookUp (id : NodeId) (name : String) :
    (r.renumber f).lookUp (f id) name = (r.lookUp id name).renumber f := by
  -- where a name is found is told by the scopes alone
  unfold lookUp renumber
  rw [Array.map_push]
  rfl

theorem renumber_within (names : List String) {body body' : Resolution → Resolution}
    (commute : ∀ r : Resolution, body' (r.renumber f) = (body r).renumber f) :
    (r.renumber f).within names body' = (r.within names body).renumber f := by
  have moved := commute
    { r with scopes := Table.insertAll ∅ (names.map (·, Status.defined)) :: r.scopes }
  unfold within
  change (let r := body' (renumber f { r with
    scopes := Table.insertAll ∅ (names.map (·, Status.defined)) :: r.scopes });
    ({ r with scopes := r.scopes.tail } : Resolution)) = _
  rw [moved]
  rfl

theorem renumber_parameters (names : List Name) :
    (r.renumber f).parameters names = (r.parameters names).renumber f := by
  unfold parameters
  induction names generalizing r with
  | nil => rfl
  | cons name rest ih =>
    simp only [List.foldl_cons, renumber_declare, renumber_define]
    exact ih _

end Resolution

open Resolution

/-! ### Expressions -/

mutual

theorem Expr.resolve_renumber (f : NodeId → NodeId) (r : Resolution) (e : Expr) :
    (e.renumber f).resolve (r.renumber f) = (e.resolve r).renumber f := by
  cases e with
  | literal c => rfl
  | grouping inner =>
    simp only [Expr.renumber, Expr.resolve]
    exact inner.resolve_renumber f r
  | unary operator right =>
    simp only [Expr.renumber, Expr.resolve]
    exact right.resolve_renumber f r
  | binary left operator right =>
    simp only [Expr.renumber, Expr.resolve]
    rw [left.resolve_renumber f r, right.resolve_renumber f _]
  | logical left operator right =>
    simp only [Expr.renumber, Expr.resolve]
    rw [left.resolve_renumber f r, right.resolve_renumber f _]
  | «variable» name id =>
    simp only [Expr.renumber, Expr.resolve]
    rw [renumber_reportIf, renumber_lookUp]
    rfl
  | assign name value id =>
    simp only [Expr.renumber, Expr.resolve]
    rw [value.resolve_renumber f r, renumber_lookUp]
  | call callee line arguments =>
    simp only [Expr.renumber, Expr.resolve]
    rw [callee.resolve_renumber f r, resolveExpressions_renumber f _ arguments]
  | get object name =>
    simp only [Expr.renumber, Expr.resolve]
    exact object.resolve_renumber f r
  | set object name value =>
    simp only [Expr.renumber, Expr.resolve]
    rw [value.resolve_renumber f r, object.resolve_renumber f _]
  | this keyword id =>
    simp only [Expr.renumber, Expr.resolve]
    rw [renumber_inClass]
    cases r.inClass
    case none => rfl
    all_goals exact renumber_lookUp f r _ _
  | super keyword method id =>
    simp only [Expr.renumber, Expr.resolve]
    rw [← renumber_lookUp]
    rw [renumber_inClass]
    cases r.inClass <;> rfl

theorem resolveExpressions_renumber (f : NodeId → NodeId) (r : Resolution)
    (expressions : List Expr) :
    resolveExpressions (r.renumber f) (renumberExpressions f expressions) =
      (resolveExpressions r expressions).renumber f := by
  cases expressions with
  | nil => rfl
  | cons e rest =>
    simp only [renumberExpressions, resolveExpressions]
    rw [e.resolve_renumber f r, resolveExpressions_renumber f _ rest]

end

namespace Resolution

variable (f : NodeId → NodeId) (r : Resolution)

theorem renumber_optional (e : Option Expr) :
    (r.renumber f).optional (e.map (Expr.renumber f)) = (r.optional e).renumber f := by
  cases e with
  | none => rfl
  | some e => exact e.resolve_renumber f r

theorem renumber_returning (line : Nat) (value : Option Expr) :
    (r.renumber f).returning line (value.map (Expr.renumber f)) =
      (r.returning line value).renumber f := by
  unfold returning
  cases value with
  | none => exact renumber_reportIf f r _ _ _
  | some e =>
    dsimp only [Option.map_some]
    rw [← Expr.resolve_renumber]
    congr 1
    obtain ⟨_, context, _, _, _⟩ := r
    cases context <;> rfl

theorem renumber_classHeader (name : Name) (superclass : Option Expr) :
    (r.renumber f).classHeader name (superclass.map (Expr.renumber f)) =
      (r.classHeader name superclass).renumber f := by
  have named : ({ r.renumber f with inClass := .plain }.declare name).define name =
      (({ r with inClass := .plain }.declare name).define name).renumber f := by
    rw [← renumber_define, ← renumber_declare]
    rfl
  unfold classHeader
  rw [named]
  cases superclass with
  | none => rfl
  | some parent =>
    dsimp only [Option.map_some]
    rw [← Expr.resolve_renumber]
    congr 1
    -- whether a class inherits from itself is told by names alone
    cases parent <;> simp only [Expr.renumber]
    case «variable» =>
      rw [renumber_reportIf]
      rfl
    all_goals rfl

end Resolution

@[simp] theorem FunctionDecl.context_renumber (f : NodeId → NodeId) (d : FunctionDecl) :
    (d.renumber f).context = d.context := by
  simp [FunctionDecl.context, FunctionDecl.isInitializer]

/-! ### Statements -/

mutual

theorem Stmt.resolve_renumber (f : NodeId → NodeId) (r : Resolution) (s : Stmt) :
    (s.renumber f).resolve (r.renumber f) = (s.resolve r).renumber f := by
  match s with
  | .expression value | .print value =>
    simp only [Stmt.renumber, Stmt.resolve]
    exact value.resolve_renumber f r
  | .var name initializer =>
    simp only [Stmt.renumber, Stmt.resolve]
    rw [renumber_declare, renumber_optional, renumber_define]
  | .block body =>
    simp only [Stmt.renumber, Stmt.resolve]
    exact renumber_within f r [] fun r => resolveStatements_renumber f r body
  | .ifElse condition thenBranch none =>
    simp only [Stmt.renumber, Stmt.resolve]
    rw [condition.resolve_renumber f r, thenBranch.resolve_renumber f _]
  | .ifElse condition thenBranch (some elseBranch) =>
    simp only [Stmt.renumber, Stmt.resolve]
    rw [condition.resolve_renumber f r, thenBranch.resolve_renumber f _,
      elseBranch.resolve_renumber f _]
  | .while condition body =>
    simp only [Stmt.renumber, Stmt.resolve]
    rw [condition.resolve_renumber f r, body.resolve_renumber f _]
  | .function d =>
    simp only [Stmt.renumber, Stmt.resolve]
    rw [FunctionDecl.renumber_name, renumber_declare, renumber_define, d.resolve_renumber f _ _]
  | .return line value =>
    simp only [Stmt.renumber, Stmt.resolve]
    exact renumber_returning f r line value
  | .class_ name superclass methods =>
    have inMethods (r : Resolution) :
        (r.renumber f).within [Keyword.this.spelling]
            (fun r => resolveMethods r (renumberMethods f methods)) =
          (r.within [Keyword.this.spelling] fun r => resolveMethods r methods).renumber f :=
      renumber_within f r _ fun r => resolveMethods_renumber f r methods
    simp only [Stmt.renumber, Stmt.resolve]
    rw [renumber_classHeader]
    cases superclass with
    | none =>
      dsimp only [Option.map_none]
      rw [inMethods]
      rfl
    | some parent =>
      dsimp only [Option.map_some]
      rw [renumber_within f _ _ inMethods]
      rfl

theorem resolveStatements_renumber (f : NodeId → NodeId) (r : Resolution)
    (statements : List Stmt) :
    resolveStatements (r.renumber f) (renumberStatements f statements) =
      (resolveStatements r statements).renumber f := by
  match statements with
  | [] => rfl
  | s :: rest =>
    simp only [renumberStatements, resolveStatements]
    rw [s.resolve_renumber f r, resolveStatements_renumber f _ rest]

theorem FunctionDecl.resolve_renumber (f : NodeId → NodeId) (r : Resolution) (d : FunctionDecl)
    (context : FunctionContext) :
    (d.renumber f).resolve (r.renumber f) context = (d.resolve r context).renumber f := by
  match d with
  | ⟨name, parameters, body⟩ =>
    simp only [FunctionDecl.renumber, FunctionDecl.resolve]
    -- the walk over the body as a function of where it begins
    let walk (statements : List Stmt) (r : Resolution) : Resolution :=
      resolveStatements (r.parameters parameters) statements
    have walk_renumber (r : Resolution) :
        walk (renumberStatements f body) (r.renumber f) = (walk body r).renumber f := by
      dsimp only [walk]
      rw [renumber_parameters, resolveStatements_renumber f _ body]
    have walked := renumber_within f { r with inFunction := context } [] walk_renumber
    change ({ Resolution.within (renumber f { r with inFunction := context }) [] _ with
      inFunction := r.inFunction } : Resolution) = _
    rw [walked]
    rfl

theorem resolveMethods_renumber (f : NodeId → NodeId) (r : Resolution)
    (methods : List FunctionDecl) :
    resolveMethods (r.renumber f) (renumberMethods f methods) =
      (resolveMethods r methods).renumber f := by
  match methods with
  | [] => rfl
  | d :: rest =>
    simp only [renumberMethods, resolveMethods, FunctionDecl.context_renumber]
    rw [d.resolve_renumber f r _, resolveMethods_renumber f _ rest]

end

/-! ### Programs -/

/-- The walk over a renumbered program finds what the walk over the program finds. -/
theorem Resolution.ofProgram_renumber (f : NodeId → NodeId) (statements : List Stmt) :
    ofProgram (statements.map (Stmt.renumber f)) = (ofProgram statements).renumber f := by
  rw [← renumberStatements_eq_map]
  have walked := resolveStatements_renumber f start statements
  rwa [show start.renumber f = start by simp [renumber, start]] at walked

/-- A renumbered program has the same problems or, if there are none, the same distances under the new
identities. -/
theorem Resolution.bindings?_renumber (f : NodeId → NodeId) (r : Resolution) :
    (r.renumber f).bindings? = r.bindings?.map (List.map fun b => (f b.1, b.2)) := by
  -- a new identity makes no look-up local or global
  have local_ (l : Lookup) :
      (l.renumber f).binding? = l.binding?.map fun b => (f b.1, b.2) := by
    obtain ⟨id, name, depth⟩ := l
    cases depth <;> rfl
  rw [bindings?, bindings?, show (r.renumber f).problems = r.problems from rfl]
  cases r.problems.toList with
  | cons d rest => rfl
  | nil =>
    simp only [renumber, Array.toList_map, List.filterMap_map, Except.map, List.map_filterMap]
    congr 2
    funext l
    exact local_ l

end Lox
