import Lox.Proofs.Scope.Occurrences
import Lox.Proofs.Syntax.WellFormed

/-!
# What a walk adds

A walk over a tree only adds to the look-ups and the problems that it began with, and it looks each node
of the tree up at most once. It leaves an expression in the scopes in which it came to it, and every
tree in the class around it.
-/

namespace Lox

open Resolution

/-! ### The nodes that are looked up -/

mutual

/-- Only a `this` can go without an occurrence. -/
theorem Expr.ids_occurrences (σ : Situation) (e : Expr) :
    ((e.occurrences σ).map (·.id)).Sublist e.ids := by
  match e with
  | .literal _ =>
    rw [Expr.occurrences, Expr.ids]
    exact .slnil
  | .grouping inner | .unary _ inner | .get inner _ =>
    rw [Expr.occurrences, Expr.ids]
    exact inner.ids_occurrences σ
  | .binary left _ right | .logical left _ right | .set right _ left =>
    rw [Expr.occurrences, Expr.ids, List.map_append]
    exact (left.ids_occurrences σ).append (right.ids_occurrences σ)
  | .variable _ _ | .super _ _ _ =>
    rw [Expr.occurrences, Expr.ids]
    exact List.Sublist.refl _
  | .assign _ value _ =>
    rw [Expr.occurrences, Expr.ids, List.map_append]
    exact (value.ids_occurrences σ).append (List.Sublist.refl _)
  | .call callee _ arguments =>
    rw [Expr.occurrences, Expr.ids, List.map_append]
    exact (callee.ids_occurrences σ).append (ids_expressionOccurrences σ arguments)
  | .this _ id =>
    rw [Expr.occurrences, Expr.ids]
    split
    · exact List.nil_sublist _
    · exact List.Sublist.refl _

theorem ids_expressionOccurrences (σ : Situation) (expressions : List Expr) :
    ((expressionOccurrences σ expressions).map (·.id)).Sublist (expressionIds expressions) := by
  match expressions with
  | [] => exact List.nil_sublist _
  | e :: rest =>
    rw [expressionOccurrences, expressionIds, List.map_append]
    exact (e.ids_occurrences σ).append (ids_expressionOccurrences σ rest)

end

theorem ids_optionalOccurrences (σ : Situation) (value : Option Expr) :
    ((optionalOccurrences σ value).map (·.id)).Sublist (optionalIds value) := by
  cases value with
  | none => exact .slnil
  | some e => exact e.ids_occurrences σ

mutual

theorem Stmt.ids_occurrences (σ : Situation) (s : Stmt) :
    ((s.occurrences σ).map (·.id)).Sublist s.ids := by
  match s with
  | .expression value | .print value =>
    rw [Stmt.occurrences, Stmt.ids]
    exact value.ids_occurrences σ
  | .var _ value | .return _ value =>
    rw [Stmt.occurrences, Stmt.ids]
    exact ids_optionalOccurrences _ value
  | .block body =>
    rw [Stmt.occurrences, Stmt.ids]
    exact ids_statementOccurrences _ body
  | .ifElse condition thenBranch none =>
    rw [Stmt.occurrences, Stmt.ids, List.map_append]
    exact (condition.ids_occurrences σ).append (thenBranch.ids_occurrences σ)
  | .ifElse condition thenBranch (some elseBranch) =>
    rw [Stmt.occurrences, Stmt.ids, List.map_append, List.map_append]
    exact ((condition.ids_occurrences σ).append (thenBranch.ids_occurrences σ)).append
      (elseBranch.ids_occurrences _)
  | .while condition body =>
    rw [Stmt.occurrences, Stmt.ids, List.map_append]
    exact (condition.ids_occurrences σ).append (body.ids_occurrences σ)
  | .function d =>
    rw [Stmt.occurrences, Stmt.ids]
    exact d.ids_occurrences _ _
  | .class_ _ superclass methods =>
    rw [Stmt.occurrences, Stmt.ids, List.map_append]
    exact (ids_optionalOccurrences _ superclass).append (ids_methodOccurrences _ methods)

theorem ids_statementOccurrences (σ : Situation) (statements : List Stmt) :
    ((statementOccurrences σ statements).map (·.id)).Sublist (statementIds statements) := by
  match statements with
  | [] => exact List.nil_sublist _
  | s :: rest =>
    rw [statementOccurrences, statementIds, List.map_append]
    exact (s.ids_occurrences σ).append (ids_statementOccurrences _ rest)

theorem FunctionDecl.ids_occurrences (σ : Situation) (context : FunctionContext) (d : FunctionDecl) :
    ((d.occurrences σ context).map (·.id)).Sublist d.ids := by
  match d with
  | ⟨_, _, body⟩ =>
    rw [FunctionDecl.occurrences, FunctionDecl.ids]
    exact ids_statementOccurrences _ body

theorem ids_methodOccurrences (σ : Situation) (methods : List FunctionDecl) :
    ((methodOccurrences σ methods).map (·.id)).Sublist (methodIds methods) := by
  match methods with
  | [] => exact List.nil_sublist _
  | d :: rest =>
    rw [methodOccurrences, methodIds, List.map_append]
    exact (d.ids_occurrences σ _).append (ids_methodOccurrences σ rest)

end

/-! ### What is added -/

namespace Resolution

/-- Look-ups and problems have been added, the look-ups at nodes of the given identities. -/
structure Grows (ids : List NodeId) (r r' : Resolution) : Prop where
  lookups : ∃ new : List Lookup, r'.lookups.toList = r.lookups.toList ++ new ∧
    (new.map (·.id)).Sublist ids
  problems : ∃ new, r'.problems.toList = r.problems.toList ++ new

theorem Adds.grows {r : Resolution} {σ : Situation} {occurrences : List Occurrence}
    {walk : Resolution → Resolution} {ids : List NodeId}
    (adds : Adds r.situation σ occurrences walk) (nodes : (occurrences.map (·.id)).Sublist ids) :
    Grows ids r (walk r) := by
  obtain ⟨bad, found⟩ := adds
  have here : walk r = _ := found r.lookups r.problems
  refine ⟨⟨occurrences.map Occurrence.lookup, ?_, ?_⟩, ⟨bad.toList, ?_⟩⟩
  · rw [here]
    exact Array.toList_append
  · rw [List.map_map]
    exact nodes
  · rw [here]
    exact Array.toList_append

theorem grows_reportIf (r : Resolution) (wrong : Bool) (name : Name) (cause : ScopeError) :
    Grows [] r (r.reportIf wrong name cause) :=
  (adds_reportIf _ wrong name cause).grows .slnil

theorem grows_define (r : Resolution) (name : Name) : Grows [] r (r.define name) :=
  (adds_define _ name).grows .slnil

theorem grows_lookUp (r : Resolution) (id : NodeId) (name : String) :
    Grows [id] r (r.lookUp id name) :=
  (adds_lookUp _ id name).grows (List.Sublist.refl _)

theorem grows_parameters (r : Resolution) (names : List Name) :
    Grows [] r (r.parameters names) :=
  (adds_parameters _ names).grows .slnil

theorem Grows.within {ids : List NodeId} {names : List String} {r : Resolution}
    {body : Resolution → Resolution} (inside : ∀ r, Grows ids r (body r)) :
    Grows ids r (r.within names body) := by
  obtain ⟨lookups, problems⟩ :=
    inside { r with scopes := Table.insertAll ∅ (names.map (·, .defined)) :: r.scopes }
  exact ⟨lookups, problems⟩

end Resolution

theorem Expr.resolve_grows (r : Resolution) (e : Expr) : Grows e.ids r (e.resolve r) :=
  (e.resolve_adds _).grows (e.ids_occurrences _)

theorem resolveExpressions_grows (r : Resolution) (expressions : List Expr) :
    Grows (expressionIds expressions) r (resolveExpressions r expressions) :=
  (resolveExpressions_adds _ expressions).grows (ids_expressionOccurrences _ expressions)

theorem Resolution.optional_grows (r : Resolution) (e : Option Expr) :
    Grows (optionalIds e) r (r.optional e) :=
  (adds_optional _ e).grows (ids_optionalOccurrences _ e)

theorem Stmt.resolve_grows (r : Resolution) (s : Stmt) : Grows s.ids r (s.resolve r) :=
  (s.resolve_adds _).grows (s.ids_occurrences _)

theorem resolveStatements_grows (r : Resolution) (statements : List Stmt) :
    Grows (statementIds statements) r (resolveStatements r statements) :=
  (resolveStatements_adds _ statements).grows (ids_statementOccurrences _ statements)

theorem FunctionDecl.resolve_grows (r : Resolution) (d : FunctionDecl)
    (context : FunctionContext) : Grows d.ids r (d.resolve r context) :=
  (d.resolve_adds _ context).grows (d.ids_occurrences _ context)

theorem resolveMethods_grows (r : Resolution) (methods : List FunctionDecl) :
    Grows (methodIds methods) r (resolveMethods r methods) :=
  (resolveMethods_adds _ methods).grows (ids_methodOccurrences _ methods)

/-! ### Where a walk comes back to -/

/-- A walk leaves the situation that it ends in. -/
theorem Resolution.Adds.situation {r : Resolution} {σ : Situation} {occurrences : List Occurrence}
    {walk : Resolution → Resolution} (adds : Adds r.situation σ occurrences walk) :
    (walk r).situation = σ := by
  obtain ⟨bad, found⟩ := adds
  have here : walk r = _ := found r.lookups r.problems
  rw [here]
  rfl

theorem Resolution.reportIf_scopes (r : Resolution) (wrong : Bool) (name : Name)
    (cause : ScopeError) : (r.reportIf wrong name cause).scopes = r.scopes := by
  unfold reportIf
  split <;> rfl

theorem Resolution.reportIf_inClass (r : Resolution) (wrong : Bool) (name : Name)
    (cause : ScopeError) : (r.reportIf wrong name cause).inClass = r.inClass := by
  unfold reportIf
  split <;> rfl

/-- The walk stands in the same scopes and in the same class. -/
structure Resolution.Stays (r r' : Resolution) : Prop where
  scopes : r'.scopes = r.scopes
  inClass : r'.inClass = r.inClass

theorem Resolution.Stays.trans {r r' r'' : Resolution} (first : Stays r r') (next : Stays r' r'') :
    Stays r r'' :=
  ⟨next.scopes.trans first.scopes, next.inClass.trans first.inClass⟩

theorem Resolution.reportIf_stays (r : Resolution) (wrong : Bool) (name : Name)
    (cause : ScopeError) : Stays r (r.reportIf wrong name cause) :=
  ⟨reportIf_scopes r wrong name cause, reportIf_inClass r wrong name cause⟩

theorem Expr.resolve_stays (r : Resolution) (e : Expr) : Stays r (e.resolve r) :=
  have same := (e.resolve_adds r.situation).situation
  ⟨congrArg Situation.scopes same, congrArg Situation.inClass same⟩

end Lox
