import Lox.Proofs.Scope.Standing
import Lox.Proofs.Syntax.Regular

/-!
# A walk goes from site to site

What a walk over a regular tree adds is what the sites of the tree say, in their order, wherever the walk
starts and whatever is wrong in the tree.
-/

namespace Lox

open Resolution

mutual

theorem Expr.resolve_traces {spot : Spot} {r : Resolution} (e : Expr)
    (stands : StandsBy spot.standing r) :
    Traces (e.sites spot) spot.standing r (e.resolve r) := by
  match e with
  | .literal _ =>
    rw [Expr.resolve, Expr.sites]
    exact .refl stands
  | .grouping inner =>
    rw [Expr.resolve, Expr.sites]
    exact inner.resolve_traces stands
  | .unary _ right =>
    rw [Expr.resolve, Expr.sites]
    exact right.resolve_traces stands
  | .binary left _ right | .logical left _ right =>
    rw [Expr.resolve, Expr.sites]
    have first := left.resolve_traces stands
    exact first.trans (right.resolve_traces first.stands)
  | .variable name id =>
    rw [Expr.sites]
    exact stands.traces_read name id
  | .assign name value id =>
    rw [Expr.resolve, Expr.sites]
    have first := value.resolve_traces stands
    exact first.trans (first.stands.traces_assignment name id)
  | .call callee _ arguments =>
    rw [Expr.resolve, Expr.sites]
    have first := callee.resolve_traces stands
    exact first.trans (resolveExpressions_traces arguments first.stands)
  | .get object _ =>
    rw [Expr.resolve, Expr.sites]
    exact object.resolve_traces stands
  | .set object _ value =>
    rw [Expr.resolve, Expr.sites]
    have first := value.resolve_traces stands
    exact first.trans (object.resolve_traces first.stands)
  | .this keyword id =>
    rw [Expr.sites]
    exact stands.traces_this keyword id
  | .super keyword method id =>
    rw [Expr.sites]
    exact stands.traces_super keyword method id

theorem resolveExpressions_traces {spot : Spot} {r : Resolution} (expressions : List Expr)
    (stands : StandsBy spot.standing r) :
    Traces (expressionSites spot expressions) spot.standing r (resolveExpressions r expressions) := by
  match expressions with
  | [] =>
    rw [resolveExpressions, expressionSites]
    exact .refl stands
  | e :: rest =>
    rw [resolveExpressions, expressionSites]
    have first := e.resolve_traces stands
    exact first.trans (resolveExpressions_traces rest first.stands)

end

theorem Resolution.StandsBy.optional {spot : Spot} {r : Resolution}
    (stands : StandsBy spot.standing r) (value : Option Expr) :
    Traces (optionalSites spot value) spot.standing r (r.optional value) := by
  cases value with
  | none => exact .refl stands
  | some e => exact e.resolve_traces stands

/-- A `return` outside every body is reported, and one with a value in an initializer. -/
theorem Resolution.StandsBy.returning {around : Surroundings} {r : Resolution}
    (stands : StandsBy around.standing r) (line : Nat) (value : Option Expr) :
    Traces (⟨⟨around, none⟩, .return line value.isSome⟩ :: optionalSites ⟨around, none⟩ value)
      around.standing r (r.returning line value) := by
  let keyword : Name := ⟨Keyword.return.spelling, line⟩
  let outside := r.reportIf (r.inFunction = .none) keyword .returnAtTopLevel
  have inFunction : r.inFunction = around.inFunction := stands.inFunction
  have first : StandsBy around.standing outside := stands.reportIf _ _ _
  cases value with
  | none =>
    refine traces_site ?_ (problems_of_offence rfl ?_) first
    · exact (List.append_nil _).symm ▸ congrArg Array.toList (lookups_reportIf _ _ _ _)
    · rcases around.inFunction_cases with ⟨body, same⟩ | ⟨body, same⟩ | ⟨name, derived, body, same⟩
      · simp [Site.offence?, body, inFunction, same]
      · simp [Site.offence?, body, inFunction, same]
      · by_cases init : name = initializerName <;> simp [Site.offence?, body, inFunction, same, init]
  | some e =>
    let tested :=
      outside.reportIf (outside.inFunction = .initializer) keyword .returnValueFromInitializer
    have reported : Traces [⟨⟨around, none⟩, .return line true⟩] around.standing r tested := by
      refine traces_site ?_ ?_ (first.reportIf _ _ _)
      · rw [lookups_reportIf, lookups_reportIf]
        exact (List.append_nil _).symm
      · rw [problems_reportIf, problems_reportIf, inFunction_reportIf, inFunction]
        rcases around.inFunction_cases with ⟨body, same⟩ | ⟨body, same⟩ | ⟨name, derived, body, same⟩
        · simp [Site.problem?, Site.offence?, body, same, Feature.name, keyword]
        · simp [Site.problem?, Site.offence?, body, same]
        · by_cases init : name = initializerName <;>
            simp [Site.problem?, Site.offence?, body, same, init, Feature.name, keyword]
    exact reported.trans (e.resolve_traces reported.stands)

/-! ### Statements -/

/-- The surroundings of what follows a list of statements. -/
def Surroundings.afterAll (around : Surroundings) (statements : List Stmt) : Surroundings :=
  statements.foldl Surroundings.after around

theorem Surroundings.afterAll_cons (construct : Construct) (names : List String) (outer : Surroundings)
    (statements : List Stmt) : ∃ names',
      afterAll (⟨construct, names⟩ :: outer) statements = ⟨construct, names'⟩ :: outer := by
  induction statements generalizing names with
  | nil => exact ⟨names, rfl⟩
  | cons s rest ih =>
    rw [afterAll, List.foldl_cons, after]
    cases s.declared? with
    | none => exact ih names
    | some name => exact ih (names ++ [name])

theorem Surroundings.after_eq_self {s : Stmt} (silent : s.declared? = none) (around : Surroundings) :
    around.after s = around := by
  rw [after, silent]

theorem Surroundings.standing_cons (construct : Construct) (names : List String) (outer : Surroundings) :
    standing (⟨construct, names⟩ :: outer) =
      { standing (⟨construct, []⟩ :: outer) with
        scopes := names :: (standing (⟨construct, []⟩ :: outer)).scopes.tail } := by
  cases construct <;> rfl

theorem Surroundings.standing_block (names : List String) (outer : Surroundings) :
    standing (⟨.block, names⟩ :: outer) =
      { outer.standing with scopes := names :: outer.standing.scopes } := by
  simp only [Spot.standing, ite_self]
  rfl

theorem Surroundings.standing_function (names : List String) (outer : Surroundings) :
    standing (⟨.function, names⟩ :: outer) =
      { outer.standing with scopes := names :: outer.standing.scopes, inFunction := .function } := by
  simp only [Spot.standing, ite_self]
  rfl

theorem Surroundings.standing_method (name : String) (derived : Bool) (names : List String)
    (outer : Surroundings) :
    standing (⟨.method name derived, names⟩ :: outer) =
      { outer.standing with
        scopes := names :: (classScopes derived ++ outer.standing.scopes)
        inFunction := if name = initializerName then .initializer else .method
        inClass := if derived then .derived else .plain } := by
  simp only [Spot.standing, ite_self]
  cases derived <;> rfl

open Surroundings in
mutual

theorem Stmt.resolve_traces {around : Surroundings} {r : Resolution} (s : Stmt) (regular : s.Regular)
    (stands : StandsBy around.standing r) :
    Traces (s.sites around) (around.after s).standing r (s.resolve r) := by
  match s with
  | .expression value | .print value =>
    rw [Stmt.resolve, Stmt.sites]
    exact value.resolve_traces stands
  | .var name initializer =>
    rw [Stmt.resolve, Stmt.sites]
    have declared := stands.declare name
    exact (declared.trans (declared.stands.optional initializer)).define
  | .block body =>
    rw [Stmt.Regular] at regular
    rw [Stmt.resolve, Stmt.sites]
    refine stands.within [] (initializing_standing around) fun r₁ opened => ?_
    rw [← standing_block] at opened
    obtain ⟨names, same⟩ := afterAll_cons .block [] around body
    have inside := resolveStatements_traces body regular opened
    rw [same, standing_block] at inside
    exact ⟨names, inside⟩
  | .ifElse condition thenBranch none =>
    rw [Stmt.Regular] at regular
    rw [Stmt.resolve, Stmt.sites]
    have tested := condition.resolve_traces stands
    have chosen := thenBranch.resolve_traces regular.1 tested.stands
    rw [after_eq_self regular.2] at chosen
    exact tested.trans chosen
  | .ifElse condition thenBranch (some elseBranch) =>
    rw [Stmt.Regular] at regular
    rw [Stmt.resolve, Stmt.sites]
    obtain ⟨⟨first, silent⟩, second, silent'⟩ := regular
    have tested := condition.resolve_traces stands
    have chosen := thenBranch.resolve_traces first tested.stands
    rw [after_eq_self silent] at chosen
    have other := elseBranch.resolve_traces second chosen.stands
    rw [after_eq_self silent'] at other
    exact (tested.trans chosen).trans other
  | .while condition body =>
    rw [Stmt.Regular] at regular
    rw [Stmt.resolve, Stmt.sites]
    have tested := condition.resolve_traces stands
    have looped := body.resolve_traces regular.1 tested.stands
    rw [after_eq_self regular.2] at looped
    exact tested.trans looped
  | .function d =>
    rw [Stmt.Regular] at regular
    rw [Stmt.resolve, Stmt.sites]
    have named := (stands.declare d.name).define
    exact named.trans
      (d.resolve_traces _ .function .function regular (initializing_standing _) (standing_function _ _)
        named.stands)
  | .return line value =>
    rw [Stmt.resolve, Stmt.sites]
    exact stands.returning line value
  | .class_ name superclass methods =>
    rw [Stmt.Regular] at regular
    rw [Stmt.resolve.eq_def, Stmt.sites]
    have header := stands.classHeader name superclass regular.1
    have quiet := initializing_standing (around.declare name.text)
    have left {sites : List Site} {r₁ r₂ : Resolution} {c : ClassContext}
        (walked : Traces sites { (around.declare name.text).standing with inClass := c } r₁ r₂) :
        Traces sites (around.declare name.text).standing r₁ { r₂ with inClass := r.inClass } :=
      walked.to rfl rfl ⟨walked.stands.scopes, walked.stands.underWay, walked.stands.settled,
        walked.stands.inFunction,
        stands.inClass.trans (congrArg Standing.inClass (standing_declare _ _ none)).symm⟩
    cases superclass with
    | none =>
      have inside := header.stands.within [Keyword.this.spelling] quiet
        fun r₁ opened => ⟨_, resolveMethods_traces false methods regular.2 rfl opened⟩
      exact left (header.trans inside)
    | some e =>
      have inside := header.stands.within [Keyword.super.spelling] quiet
        fun r₁ outside => ⟨_, outside.within [Keyword.this.spelling] quiet
          fun r₂ opened => ⟨_, resolveMethods_traces true methods regular.2 rfl opened⟩⟩
      exact left (header.trans inside)

theorem resolveStatements_traces {around : Surroundings} {r : Resolution} (statements : List Stmt)
    (regular : statementsRegular statements) (stands : StandsBy around.standing r) :
    Traces (statementSites around statements) (around.afterAll statements).standing r
      (resolveStatements r statements) := by
  match statements with
  | [] =>
    rw [resolveStatements, statementSites]
    exact .refl stands
  | s :: rest =>
    rw [statementsRegular] at regular
    rw [resolveStatements, statementSites]
    have first := s.resolve_traces regular.1 stands
    exact first.trans (resolveStatements_traces rest regular.2 first.stands)

/-- A function is walked over from wherever its construct is entered. -/
theorem FunctionDecl.resolve_traces {σ : Standing} {r : Resolution} (d : FunctionDecl)
    (outer : Surroundings) (construct : Construct) (context : FunctionContext) (regular : d.Regular)
    (quiet : σ.initializing = none)
    (enters : standing (⟨construct, []⟩ :: outer) =
      { σ with scopes := [] :: σ.scopes, inFunction := context })
    (stands : StandsBy σ r) : Traces (d.sites outer construct) σ r (d.resolve r context) := by
  match d with
  | ⟨_, parameters, body⟩ =>
    rw [FunctionDecl.Regular] at regular
    rw [FunctionDecl.resolve, FunctionDecl.sites]
    have entered : StandsBy { σ with inFunction := context } { r with inFunction := context } :=
      ⟨stands.scopes, stands.underWay, stands.settled, rfl, stands.inClass⟩
    have inside (r₁ : Resolution) (opened : StandsBy { σ with
        scopes := [] :: σ.scopes, inFunction := context } r₁) :
        ∃ names, Traces (parameterSites construct outer [] parameters ++
            statementSites (⟨construct, parameters.map (·.text)⟩ :: outer) body)
          { σ with scopes := names :: σ.scopes, inFunction := context } r₁
          (resolveStatements (r₁.parameters parameters) body) := by
      have filled := StandsBy.parameters parameters [] (enters ▸ opened)
      have inside := resolveStatements_traces body regular filled.stands
      obtain ⟨names, same⟩ := afterAll_cons construct (parameters.map (·.text)) outer body
      rw [List.nil_append, same, standing_cons, enters] at inside
      exact ⟨names, filled.trans inside⟩
    have walked := entered.within [] quiet inside
    obtain ⟨lookups, problems, scopes, underWay, settled, -, inClass⟩ := walked
    exact ⟨lookups, problems, scopes, underWay, settled, stands.inFunction, inClass⟩

theorem resolveMethods_traces {outer : Surroundings} {σ : Standing} {r : Resolution} (derived : Bool)
    (methods : List FunctionDecl) (regular : methodsRegular methods)
    (inside : σ = { outer.standing with
      scopes := classScopes derived ++ outer.scopes
      inClass := if derived then .derived else .plain })
    (stands : StandsBy σ r) :
    Traces (methodSites outer derived methods) σ r (resolveMethods r methods) := by
  match methods with
  | [] =>
    rw [resolveMethods, methodSites]
    exact .refl stands
  | d :: rest =>
    rw [methodsRegular] at regular
    rw [resolveMethods, methodSites]
    have first := d.resolve_traces outer (.method d.name.text derived) d.context
      regular.1 (inside ▸ initializing_standing outer) ?_ stands
    · exact first.trans (resolveMethods_traces derived rest regular.2 inside first.stands)
    · rw [standing_method, inside, FunctionDecl.context, FunctionDecl.isInitializer]
      simp only [decide_eq_true_eq]
      rfl

end

end Lox
