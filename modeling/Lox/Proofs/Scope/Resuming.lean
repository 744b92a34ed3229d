import Lox.Proofs.Scope.Walk
import Lox.Proofs.Syntax.Relining

/-!
# Resolving does not depend on lines or on programs before

The walk over a program reads lines only to report problems, and it does not read the look-ups that it has
made. So the walk over the same program on other lines, after another program, makes the same look-ups and
finds the same problems, on those lines.
-/

namespace Lox

/-- The diagnostic on another line. -/
def Diagnostic.reline (f : Nat → Nat) : Diagnostic → Diagnostic
  | .lexical line cause => .lexical (f line) cause
  | .syntactic line place cause => .syntactic (f line) place cause
  | .scoping line lexeme cause => .scoping (f line) lexeme cause

namespace Resolution

/-- Where a walk stands that began on other lines after the look-ups `before`. -/
def resume (f : Nat → Nat) (before : Array Lookup) (r : Resolution) : Resolution :=
  { r with lookups := before ++ r.lookups, problems := r.problems.map (Diagnostic.reline f) }

variable (f : Nat → Nat) (before : Array Lookup) (r : Resolution)

/-! ### Steps of the walk -/

theorem resume_inClass : (r.resume f before).inClass = r.inClass := rfl

theorem resume_report (line : Nat) (lexeme : String) (cause : ScopeError) :
    (r.resume f before).report (f line) lexeme cause =
      (r.report line lexeme cause).resume f before := by
  unfold report resume
  rw [Array.map_push]
  rfl

theorem resume_reportIf (wrong : Bool) (name : Name) (cause : ScopeError) :
    (r.resume f before).reportIf wrong (name.reline f) cause =
      (r.reportIf wrong name cause).resume f before := by
  unfold reportIf
  split
  · exact resume_report f before r _ _ _
  · rfl

theorem resume_mark (name : String) (status : Status) :
    (r.resume f before).mark name status = (r.mark name status).resume f before := by
  obtain ⟨scopes, _, _, _, _⟩ := r
  cases scopes <;> rfl

theorem resume_declare (name : Name) :
    (r.resume f before).declare (name.reline f) = (r.declare name).resume f before := by
  unfold declare
  rw [Name.reline_text, resume_mark, resume_reportIf]
  rfl

theorem resume_define (name : Name) :
    (r.resume f before).define (name.reline f) = (r.define name).resume f before :=
  resume_mark f before r _ _

theorem resume_lookUp (id : NodeId) (name : String) :
    (r.resume f before).lookUp id name = (r.lookUp id name).resume f before := by
  unfold lookUp resume
  rw [← Array.append_push]

theorem resume_within (names : List String) {body body' : Resolution → Resolution}
    (commute : ∀ r : Resolution, body' (r.resume f before) = (body r).resume f before) :
    (r.resume f before).within names body' = (r.within names body).resume f before := by
  have moved := commute
    { r with scopes := Table.insertAll ∅ (names.map (·, Status.defined)) :: r.scopes }
  unfold within
  change (let r := body' (resume f before { r with
    scopes := Table.insertAll ∅ (names.map (·, Status.defined)) :: r.scopes });
    ({ r with scopes := r.scopes.tail } : Resolution)) = _
  rw [moved]
  rfl

theorem resume_parameters (names : List Name) :
    (r.resume f before).parameters (names.map (Name.reline f)) =
      (r.parameters names).resume f before := by
  unfold parameters
  induction names generalizing r with
  | nil => rfl
  | cons name rest ih =>
    simp only [List.map_cons, List.foldl_cons, resume_declare, resume_define]
    exact ih _

end Resolution

open Resolution

/-! ### Expressions -/

mutual

theorem Expr.resolve_resume (f : Nat → Nat) (before : Array Lookup) (r : Resolution) (e : Expr) :
    (e.reline f).resolve (r.resume f before) = (e.resolve r).resume f before := by
  cases e with
  | literal c => rfl
  | grouping inner =>
    simp only [Expr.reline, Expr.resolve]
    exact inner.resolve_resume f before r
  | unary operator right =>
    simp only [Expr.reline, Expr.resolve]
    exact right.resolve_resume f before r
  | binary left operator right =>
    simp only [Expr.reline, Expr.resolve]
    rw [left.resolve_resume f before r, right.resolve_resume f before _]
  | logical left operator right =>
    simp only [Expr.reline, Expr.resolve]
    rw [left.resolve_resume f before r, right.resolve_resume f before _]
  | «variable» name id =>
    simp only [Expr.reline, Expr.resolve]
    rw [resume_reportIf]
    exact resume_lookUp f before _ _ _
  | assign name value id =>
    simp only [Expr.reline, Expr.resolve]
    rw [value.resolve_resume f before r]
    exact resume_lookUp f before _ _ _
  | call callee line arguments =>
    simp only [Expr.reline, Expr.resolve]
    rw [callee.resolve_resume f before r, resolveExpressions_resume f before _ arguments]
  | get object name =>
    simp only [Expr.reline, Expr.resolve]
    exact object.resolve_resume f before r
  | set object name value =>
    simp only [Expr.reline, Expr.resolve]
    rw [value.resolve_resume f before r, object.resolve_resume f before _]
  | this keyword id =>
    simp only [Expr.reline, Expr.resolve]
    rw [resume_inClass]
    cases r.inClass
    case none => exact resume_report f before r _ _ _
    all_goals exact resume_lookUp f before r _ _
  | super keyword method id =>
    simp only [Expr.reline, Expr.resolve]
    rw [← resume_lookUp]
    rw [resume_inClass]
    cases r.inClass
    case derived => rfl
    all_goals exact congrArg (lookUp · id _) (resume_report f before r _ _ _)

theorem resolveExpressions_resume (f : Nat → Nat) (before : Array Lookup) (r : Resolution)
    (expressions : List Expr) :
    resolveExpressions (r.resume f before) (relineExpressions f expressions) =
      (resolveExpressions r expressions).resume f before := by
  cases expressions with
  | nil => rfl
  | cons e rest =>
    simp only [relineExpressions, resolveExpressions]
    rw [e.resolve_resume f before r, resolveExpressions_resume f before _ rest]

end

namespace Resolution

variable (f : Nat → Nat) (before : Array Lookup) (r : Resolution)

theorem resume_optional (e : Option Expr) :
    (r.resume f before).optional (e.map (Expr.reline f)) = (r.optional e).resume f before := by
  cases e with
  | none => rfl
  | some e => exact e.resolve_resume f before r

theorem resume_returning (line : Nat) (value : Option Expr) :
    (r.resume f before).returning (f line) (value.map (Expr.reline f)) =
      (r.returning line value).resume f before := by
  have keyword (r : Resolution) (wrong : Bool) (cause : ScopeError) :
      (r.resume f before).reportIf wrong ⟨Keyword.return.spelling, f line⟩ cause =
        (r.reportIf wrong ⟨Keyword.return.spelling, line⟩ cause).resume f before :=
    resume_reportIf f before r wrong ⟨_, line⟩ cause
  unfold returning
  cases value with
  | none => exact keyword r _ _
  | some e =>
    dsimp only [Option.map_some]
    rw [← Expr.resolve_resume, keyword]
    exact congrArg (Expr.resolve · _) (keyword _ _ _)

theorem resume_classHeader (name : Name) (superclass : Option Expr) :
    (r.resume f before).classHeader (name.reline f) (superclass.map (Expr.reline f)) =
      (r.classHeader name superclass).resume f before := by
  have named : ({ r.resume f before with inClass := .plain }.declare (name.reline f)).define
      (name.reline f) = (({ r with inClass := .plain }.declare name).define name).resume f before := by
    rw [← resume_define, ← resume_declare]
    rfl
  unfold classHeader
  rw [named]
  cases superclass with
  | none => rfl
  | some parent =>
    dsimp only [Option.map_some]
    rw [← Expr.resolve_resume]
    congr 1
    -- whether a class inherits from itself is told by names alone
    cases parent <;> simp only [Expr.reline]
    case «variable» parentName id =>
      rw [Name.reline_text, Name.reline_text, resume_reportIf]
      rfl
    all_goals rfl

end Resolution

@[simp] theorem FunctionDecl.context_reline (f : Nat → Nat) (d : FunctionDecl) :
    (d.reline f).context = d.context := by
  simp [FunctionDecl.context]

/-! ### Statements -/

mutual

theorem Stmt.resolve_resume (f : Nat → Nat) (before : Array Lookup) (r : Resolution) (s : Stmt) :
    (s.reline f).resolve (r.resume f before) = (s.resolve r).resume f before := by
  match s with
  | .expression value | .print value =>
    simp only [Stmt.reline, Stmt.resolve]
    exact value.resolve_resume f before r
  | .var name initializer =>
    simp only [Stmt.reline, Stmt.resolve]
    rw [resume_declare, resume_optional, resume_define]
  | .block body =>
    simp only [Stmt.reline, Stmt.resolve]
    exact resume_within f before r [] fun r => resolveStatements_resume f before r body
  | .ifElse condition thenBranch none =>
    simp only [Stmt.reline, Stmt.resolve]
    rw [condition.resolve_resume f before r, thenBranch.resolve_resume f before _]
  | .ifElse condition thenBranch (some elseBranch) =>
    simp only [Stmt.reline, Stmt.resolve]
    rw [condition.resolve_resume f before r, thenBranch.resolve_resume f before _,
      elseBranch.resolve_resume f before _]
  | .while condition body =>
    simp only [Stmt.reline, Stmt.resolve]
    rw [condition.resolve_resume f before r, body.resolve_resume f before _]
  | .function d =>
    simp only [Stmt.reline, Stmt.resolve]
    rw [FunctionDecl.reline_name, resume_declare, resume_define, d.resolve_resume f before _ _]
  | .return line value =>
    simp only [Stmt.reline, Stmt.resolve]
    exact resume_returning f before r line value
  | .class_ name superclass methods =>
    have inMethods (r : Resolution) :
        (r.resume f before).within [Keyword.this.spelling]
            (fun r => resolveMethods r (relineMethods f methods)) =
          (r.within [Keyword.this.spelling] fun r => resolveMethods r methods).resume f before :=
      resume_within f before r _ fun r => resolveMethods_resume f before r methods
    simp only [Stmt.reline, Stmt.resolve]
    rw [resume_classHeader]
    cases superclass with
    | none =>
      dsimp only [Option.map_none]
      rw [inMethods]
      rfl
    | some parent =>
      dsimp only [Option.map_some]
      rw [resume_within f before _ _ inMethods]
      rfl

theorem resolveStatements_resume (f : Nat → Nat) (before : Array Lookup) (r : Resolution)
    (statements : List Stmt) :
    resolveStatements (r.resume f before) (relineStatements f statements) =
      (resolveStatements r statements).resume f before := by
  match statements with
  | [] => rfl
  | s :: rest =>
    simp only [relineStatements, resolveStatements]
    rw [s.resolve_resume f before r, resolveStatements_resume f before _ rest]

theorem FunctionDecl.resolve_resume (f : Nat → Nat) (before : Array Lookup) (r : Resolution)
    (d : FunctionDecl) (context : FunctionContext) :
    (d.reline f).resolve (r.resume f before) context = (d.resolve r context).resume f before := by
  match d with
  | ⟨name, parameters, body⟩ =>
    simp only [FunctionDecl.reline, FunctionDecl.resolve]
    -- the walk over the body as a function of where it begins
    let walk (parameters : List Name) (statements : List Stmt) (r : Resolution) : Resolution :=
      resolveStatements (r.parameters parameters) statements
    have walk_resume (r : Resolution) :
        walk (parameters.map (Name.reline f)) (relineStatements f body) (r.resume f before) =
          (walk parameters body r).resume f before := by
      dsimp only [walk]
      rw [resume_parameters, resolveStatements_resume f before _ body]
    have walked := resume_within f before { r with inFunction := context } [] walk_resume
    change ({ Resolution.within (resume f before { r with inFunction := context }) [] _ with
      inFunction := r.inFunction } : Resolution) = _
    rw [walked]
    rfl

theorem resolveMethods_resume (f : Nat → Nat) (before : Array Lookup) (r : Resolution)
    (methods : List FunctionDecl) :
    resolveMethods (r.resume f before) (relineMethods f methods) =
      (resolveMethods r methods).resume f before := by
  match methods with
  | [] => rfl
  | d :: rest =>
    simp only [relineMethods, resolveMethods, FunctionDecl.context_reline]
    rw [d.resolve_resume f before r _, resolveMethods_resume f before _ rest]

end

/-! ### One program after another -/

theorem resolveStatements_append (r : Resolution) (first next : List Stmt) :
    resolveStatements r (first ++ next) = resolveStatements (resolveStatements r first) next := by
  induction first generalizing r with
  | nil => rfl
  | cons s rest ih => exact ih _

/-- After a program without problems another one is walked over as if it stood alone. -/
theorem Resolution.ofProgram_append {first next : List Stmt} (f : Nat → Nat)
    (clean : (ofProgram first).problems = #[]) :
    ofProgram (first ++ next.map (Stmt.reline f)) =
      (ofProgram next).resume f (ofProgram first).lookups := by
  have stands : (ofProgram first).situation = start.situation :=
    (resolveStatements_adds start.situation first).situation
  have between : ofProgram first = start.resume f (ofProgram first).lookups := by
    generalize ofProgram first = r at *
    obtain ⟨scopes, inFunction, inClass, lookups, problems⟩ := r
    cases stands
    cases clean
    simp [resume, start]
  rw [ofProgram, resolveStatements_append, ← ofProgram, between, ← relineStatements_eq_map]
  rw [resolveStatements_resume]
  rfl

/-- The bindings of a program after another are those of both, wherever the second one stands. -/
theorem Resolution.bindings?_append {first next : List Stmt} (f : Nat → Nat)
    {bindings bindings' : List Binding} (accepted : (ofProgram first).bindings? = .ok bindings)
    (accepted' : (ofProgram next).bindings? = .ok bindings') :
    (ofProgram (first ++ next.map (Stmt.reline f))).bindings? = .ok (bindings ++ bindings') := by
  have parts {r : Resolution} {bindings : List Binding} (accepted : r.bindings? = .ok bindings) :
      r.problems = #[] ∧ bindings = r.lookups.toList.filterMap Lookup.binding? := by
    unfold bindings? at accepted
    split at accepted
    · rename_i clean
      cases accepted
      exact ⟨Array.toList_inj.mp clean, rfl⟩
    · cases accepted
  obtain ⟨clean, rfl⟩ := parts accepted
  obtain ⟨clean', rfl⟩ := parts accepted'
  rw [ofProgram_append f clean]
  simp [bindings?, resume, clean']

end Lox
