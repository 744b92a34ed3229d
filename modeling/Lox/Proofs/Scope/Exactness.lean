import Lox.Proofs.Grammar.Regular
import Lox.Proofs.Scope.Tracing

/-!
# The verdict and the distances are those of the text

The walk over a program that has been read reports just the rules that are broken at its sites, and looks
up just the names that stand there, each in the scopes of its surroundings. Every node of the program is at
one site.
-/

namespace Lox

/-! ### Every node is at a site -/

section

variable (spot : Spot) (around outer : Surroundings)

mutual

theorem Expr.id?_sites (e : Expr) : (e.sites spot).filterMap (·.feature.id?) = e.ids := by
  match e with
  | .literal _ => rw [Expr.sites, Expr.ids, List.filterMap_nil]
  | .grouping inner | .unary _ inner | .get inner _ => rw [Expr.sites, Expr.ids, inner.id?_sites]
  | .binary left _ right | .logical left _ right =>
    rw [Expr.sites, Expr.ids, List.filterMap_append, left.id?_sites, right.id?_sites]
  | .variable _ _ | .this _ _ | .super _ _ _ =>
    rw [Expr.sites, Expr.ids]
    rfl
  | .assign _ value _ =>
    rw [Expr.sites, Expr.ids, List.filterMap_append, value.id?_sites]
    rfl
  | .call callee _ arguments =>
    rw [Expr.sites, Expr.ids, List.filterMap_append, callee.id?_sites, id?_expressionSites arguments]
  | .set object _ value =>
    rw [Expr.sites, Expr.ids, List.filterMap_append, value.id?_sites, object.id?_sites]

theorem id?_expressionSites (expressions : List Expr) :
    (expressionSites spot expressions).filterMap (·.feature.id?) = expressionIds expressions := by
  match expressions with
  | [] => rw [expressionSites, expressionIds, List.filterMap_nil]
  | e :: rest =>
    rw [expressionSites, expressionIds, List.filterMap_append, e.id?_sites, id?_expressionSites rest]

end

theorem id?_optionalSites (value : Option Expr) :
    (optionalSites spot value).filterMap (·.feature.id?) = optionalIds value := by
  cases value with
  | none => rfl
  | some e => exact e.id?_sites spot

/-- Parameters are no nodes. -/
theorem id?_parameterSites (construct : Construct) (before : List String) (names : List Name) :
    (parameterSites construct outer before names).filterMap (·.feature.id?) = [] := by
  induction names generalizing before with
  | nil => rfl
  | cons name rest ih => exact ih _

theorem id?_superclassSites (name : Name) (superclass : Option Expr) :
    (superclassSites around name superclass).filterMap (·.feature.id?) = optionalIds superclass := by
  unfold superclassSites
  split
  · rw [optionalIds, Expr.ids]
    rfl
  · exact id?_optionalSites _ superclass

end

mutual

theorem Stmt.id?_sites (around : Surroundings) (s : Stmt) :
    (s.sites around).filterMap (·.feature.id?) = s.ids := by
  match s with
  | .expression value | .print value => rw [Stmt.sites, Stmt.ids, value.id?_sites]
  | .var _ initializer =>
    rw [Stmt.sites, Stmt.ids]
    exact id?_optionalSites _ initializer
  | .block body => rw [Stmt.sites, Stmt.ids, id?_statementSites _ body]
  | .ifElse condition thenBranch none =>
    rw [Stmt.sites, Stmt.ids, List.filterMap_append, condition.id?_sites, thenBranch.id?_sites]
  | .ifElse condition thenBranch (some elseBranch) =>
    rw [Stmt.sites, Stmt.ids, List.filterMap_append, List.filterMap_append, condition.id?_sites,
      thenBranch.id?_sites, elseBranch.id?_sites]
  | .while condition body =>
    rw [Stmt.sites, Stmt.ids, List.filterMap_append, condition.id?_sites, body.id?_sites]
  | .function d =>
    rw [Stmt.sites, Stmt.ids]
    exact d.id?_sites _ _
  | .return _ value =>
    rw [Stmt.sites, Stmt.ids]
    exact id?_optionalSites _ value
  | .class_ name superclass methods =>
    rw [Stmt.sites, Stmt.ids, List.filterMap_cons_none rfl, List.filterMap_append,
      id?_superclassSites, id?_methodSites _ _ methods]

theorem id?_statementSites (around : Surroundings) (statements : List Stmt) :
    (statementSites around statements).filterMap (·.feature.id?) = statementIds statements := by
  match statements with
  | [] => rw [statementSites, statementIds, List.filterMap_nil]
  | s :: rest =>
    rw [statementSites, statementIds, List.filterMap_append, s.id?_sites, id?_statementSites _ rest]

theorem FunctionDecl.id?_sites (outer : Surroundings) (construct : Construct) (d : FunctionDecl) :
    (d.sites outer construct).filterMap (·.feature.id?) = d.ids := by
  match d with
  | ⟨_, parameters, body⟩ =>
    rw [FunctionDecl.sites, FunctionDecl.ids, List.filterMap_append, id?_parameterSites,
      id?_statementSites _ body, List.nil_append]

theorem id?_methodSites (outer : Surroundings) (derived : Bool) (methods : List FunctionDecl) :
    (methodSites outer derived methods).filterMap (·.feature.id?) = methodIds methods := by
  match methods with
  | [] => rw [methodSites, methodIds, List.filterMap_nil]
  | d :: rest =>
    rw [methodSites, methodIds, List.filterMap_append, d.id?_sites, id?_methodSites _ _ rest]

end

/-- A global can be declared again and can be read in its own initializer. -/
theorem Site.offence?_global {site : Site} (global : site.spot.around = []) :
    site.offence? ≠ some .duplicateDeclaration ∧ site.offence? ≠ some .readInOwnInitializer := by
  obtain ⟨⟨around, initializing⟩, feature⟩ := site
  cases global
  have unheld (name : String) : Surroundings.holds [] name = false := rfl
  cases feature with
  | inheritance className parent =>
    simp only [Site.offence?]
    split <;> simp
  | declaration | read | assignment | this | super | «return» =>
    simp [Site.offence?, unheld, Surroundings.class?, Surroundings.body?]

namespace Resolution

/-- The walk over a program starts outside every construct. -/
theorem stands_start : StandsBy (Surroundings.standing []) start :=
  ⟨.nil, fun _ => iff_of_false nofun nofun, nofun, rfl, rfl⟩

/-- A walk over a regular program adds what its sites say. -/
theorem traces_ofProgram {statements : List Stmt} (regular : statementsRegular statements) :
    Traces (programSites statements) (Surroundings.standing (Surroundings.afterAll [] statements)) start
      (ofProgram statements) :=
  resolveStatements_traces statements regular stands_start

/-- A program is accepted if nothing is reported. -/
theorem bindings?_eq_ok_iff (r : Resolution) (bindings : List Binding) :
    r.bindings? = .ok bindings ↔
      r.problems.toList = [] ∧ r.lookups.toList.filterMap Lookup.binding? = bindings := by
  rw [bindings?]
  split
  · rename_i none
    simp [none]
  · rename_i reported
    exact iff_of_false nofun fun accepted => reported accepted.1

end Resolution

open Resolution

/-- What is reported of a program that has been read are the rules that are broken at its sites, in their
order. So it is accepted just if no rule is broken anywhere, and nothing is said of globals that are
declared again or read in their own initializers. -/
theorem violations_are_reported (tokens : List Token) (firstId : NodeId) :
    let statements := (Grammar.program tokens firstId).result
    let sites := programSites statements
    (ofProgram statements).problems.toList = sites.filterMap Site.problem? ∧
      ((∃ bindings, (ofProgram statements).bindings? = .ok bindings) ↔
        ∀ site ∈ sites, site.offence? = none) ∧
      ∀ site ∈ sites, site.spot.around = [] →
        site.offence? ≠ some .duplicateDeclaration ∧ site.offence? ≠ some .readInOwnInitializer := by
  intro statements sites
  have reported := (traces_ofProgram (Grammar.program_regular tokens firstId)).problems
  change _ = sites.filterMap Site.problem? at reported
  refine ⟨reported, ?_, fun site _ => Site.offence?_global⟩
  simp only [bindings?_eq_ok_iff, exists_and_left, exists_eq', and_true]
  rw [reported, List.filterMap_eq_nil_iff]
  simp only [Site.problem?, Option.map_eq_none_iff]

/-- The look-ups of a program that has been read are those that are due at its sites, in their order, also
when something is reported. Each node is at one site, and the nodes of a program that is accepted have the
distances that were found, no others. -/
theorem distances_are_lexical (tokens : List Token) (firstId : NodeId) :
    let statements := (Grammar.program tokens firstId).result
    let sites := programSites statements
    (ofProgram statements).lookups.toList = sites.filterMap Site.lookup? ∧
      sites.filterMap (·.feature.id?) = statementIds statements ∧
      ∀ bindings, (ofProgram statements).bindings? = .ok bindings →
        bindings = (sites.filterMap Site.lookup?).filterMap Lookup.binding? := by
  intro statements sites
  have found := (traces_ofProgram (Grammar.program_regular tokens firstId)).lookups
  change _ = sites.filterMap Site.lookup? at found
  refine ⟨found, id?_statementSites [] statements, fun bindings accepted => ?_⟩
  rw [← found, ((bindings?_eq_ok_iff _ _).mp accepted).2]

end Lox
