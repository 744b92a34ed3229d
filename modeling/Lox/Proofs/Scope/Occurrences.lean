import Lox.Proofs.Scope.Scoped
import Lox.Scope.Resolution

/-!
# Occurrences

A walk over a program opens and closes scopes as it goes along. Here the same is said of a tree without
going along it: the occurrences of a tree are its nodes, each with the scopes that are open there, handed
down from the situation around the tree. A walk over any tree, wherever it begins and whatever it finds
wrong, looks up just its occurrences and comes back to where it stood, with the names that the tree declares
in the innermost scope.
-/

namespace Lox

/-! ### Situations -/

/-- The names that a statement declares in the scope around it. A branch or the body of a loop can be a
declaration in a tree that no source gives. -/
def Stmt.introduced : Stmt → List String
  | .var name _ | .class_ name _ _ => [name.text]
  | .function d => [d.name.text]
  | .ifElse _ thenBranch none => thenBranch.introduced
  | .ifElse _ thenBranch (some elseBranch) => thenBranch.introduced ++ elseBranch.introduced
  | .while _ body => body.introduced
  | .expression _ | .print _ | .block _ | .return _ _ => []

/-- The scopes with names defined in the innermost one. -/
def Scopes.defineAll (Γ : Scopes) (names : List String) : Scopes :=
  match Γ with
  | [] => []
  | scope :: outer => scope.insertAll (names.map (·, .defined)) :: outer

/-- What a walk knows where it stands, next to what it has found. -/
structure Situation where
  scopes : Scopes
  inFunction : FunctionContext
  inClass : ClassContext

def Resolution.situation (r : Resolution) : Situation := ⟨r.scopes, r.inFunction, r.inClass⟩

namespace Situation

/-- The walk that stands here and has found so much. -/
def having (σ : Situation) (lookups : Array Lookup) (problems : Array Diagnostic) : Resolution :=
  ⟨σ.scopes, σ.inFunction, σ.inClass, lookups, problems⟩

/-- While a declaration is under way in the innermost scope. -/
def declare (σ : Situation) (name : String) : Situation :=
  { σ with scopes := σ.scopes.mark name .declared }

/-- Once declarations in the innermost scope have ended. -/
def define (σ : Situation) (names : List String) : Situation :=
  { σ with scopes := σ.scopes.defineAll names }

/-- Within a new scope, which holds the given names. -/
def enter (σ : Situation) (names : List String) : Situation :=
  { σ with scopes := Scope.of names :: σ.scopes }

/-- Within the class of the given name. -/
def enterClass (σ : Situation) (name : String) (derived : Bool) : Situation :=
  { σ.define [name] with inClass := if derived then .derived else .plain }

/-- Among the methods of a class. -/
def enterMethods (σ : Situation) (derived : Bool) : Situation :=
  { σ with scopes := Scope.of [Keyword.this.spelling] :: σ.scopes.ofMethods derived }

theorem define_nil (σ : Situation) : σ.define [] = σ := by
  obtain ⟨scopes, _, _⟩ := σ
  cases scopes <;> rfl

theorem define_define (σ : Situation) (names names' : List String) :
    (σ.define names).define names' = σ.define (names ++ names') := by
  obtain ⟨scopes, _, _⟩ := σ
  cases scopes with
  | nil => rfl
  | cons scope outer =>
    simp only [define, Scopes.defineAll, Table.insertAll, List.map_append, List.foldl_append]

/-- A name that is declared and then defined is defined. -/
theorem define_declare (σ : Situation) (name : String) :
    (σ.declare name).define [name] = σ.define [name] := by
  obtain ⟨scopes, _, _⟩ := σ
  cases scopes with
  | nil => rfl
  | cons scope outer =>
    simp only [define, declare, Scopes.mark, Scopes.defineAll, Table.insertAll, List.map_cons,
      List.map_nil, List.foldl_cons, List.foldl_nil, Table.insert_insert_self]

end Situation

/-! ### The occurrences of a tree -/

/-- A node whose name is looked up in the scopes that are open there. -/
structure Occurrence where
  id : NodeId
  name : String
  scopes : Scopes

def Occurrence.lookup (o : Occurrence) : Lookup := ⟨o.id, o.name, o.scopes.depth o.name⟩

mutual

def Expr.occurrences (σ : Situation) : Expr → List Occurrence
  | .literal _ => []
  | .grouping inner => inner.occurrences σ
  | .unary _ right => right.occurrences σ
  | .binary left _ right | .logical left _ right => left.occurrences σ ++ right.occurrences σ
  | .variable name id => [⟨id, name.text, σ.scopes⟩]
  | .assign name value id => value.occurrences σ ++ [⟨id, name.text, σ.scopes⟩]
  | .call callee _ arguments => callee.occurrences σ ++ expressionOccurrences σ arguments
  | .get object _ => object.occurrences σ
  | .set object _ value => value.occurrences σ ++ object.occurrences σ
  -- A `this` outside every class means nothing.
  | .this keyword id => if σ.inClass = .none then [] else [⟨id, keyword.text, σ.scopes⟩]
  | .super keyword _ id => [⟨id, keyword.text, σ.scopes⟩]

def expressionOccurrences (σ : Situation) : List Expr → List Occurrence
  | [] => []
  | e :: rest => e.occurrences σ ++ expressionOccurrences σ rest

end

/-- The occurrences in an expression that may be absent. -/
def optionalOccurrences (σ : Situation) : Option Expr → List Occurrence
  | none => []
  | some e => e.occurrences σ

mutual

def Stmt.occurrences (σ : Situation) : Stmt → List Occurrence
  | .expression value | .print value => value.occurrences σ
  | .var name initializer => optionalOccurrences (σ.declare name.text) initializer
  | .block body => statementOccurrences (σ.enter []) body
  | .ifElse condition thenBranch none => condition.occurrences σ ++ thenBranch.occurrences σ
  | .ifElse condition thenBranch (some elseBranch) =>
    condition.occurrences σ ++ thenBranch.occurrences σ ++
      elseBranch.occurrences (σ.define thenBranch.introduced)
  | .while condition body => condition.occurrences σ ++ body.occurrences σ
  | .function d => d.occurrences (σ.define [d.name.text]) .function
  | .return _ value => optionalOccurrences σ value
  | .class_ name superclass methods =>
    optionalOccurrences (σ.enterClass name.text superclass.isSome) superclass ++
      methodOccurrences ((σ.enterClass name.text superclass.isSome).enterMethods superclass.isSome)
        methods

def statementOccurrences (σ : Situation) : List Stmt → List Occurrence
  | [] => []
  | s :: rest => s.occurrences σ ++ statementOccurrences (σ.define s.introduced) rest

def FunctionDecl.occurrences (σ : Situation) (context : FunctionContext) :
    FunctionDecl → List Occurrence
  | ⟨_, parameters, body⟩ =>
    statementOccurrences ({ σ with inFunction := context }.enter (parameters.map Name.text)) body

def methodOccurrences (σ : Situation) : List FunctionDecl → List Occurrence
  | [] => []
  | d :: rest => d.occurrences σ d.context ++ methodOccurrences σ rest

end

/-! ### Walks -/

namespace Resolution

/-- A walk from the one situation ends in the other one, whatever has been found before. It adds the look-ups
of the occurrences, and problems that do not depend on what has been found either. -/
def Adds (σ σ' : Situation) (occurrences : List Occurrence) (walk : Resolution → Resolution) : Prop :=
  ∃ bad : Array Diagnostic, ∀ lookups problems,
    walk (σ.having lookups problems) =
      σ'.having (lookups ++ (occurrences.map Occurrence.lookup).toArray) (problems ++ bad)

variable {σ σ' σ'' : Situation} {occurrences occurrences' : List Occurrence}
  {walk walk' : Resolution → Resolution}

namespace Adds

theorem trans (first : Adds σ σ' occurrences walk) (next : Adds σ' σ'' occurrences' walk') :
    Adds σ σ'' (occurrences ++ occurrences') (fun r => walk' (walk r)) := by
  obtain ⟨bad, found⟩ := first
  obtain ⟨bad', found'⟩ := next
  refine ⟨bad ++ bad', fun lookups problems => ?_⟩
  dsimp only
  rw [found, found', List.map_append, ← List.append_toArray, Array.append_assoc, Array.append_assoc]

/-- What has no occurrences may come before. -/
theorem before (first : Adds σ σ' [] walk) (next : Adds σ' σ'' occurrences walk') :
    Adds σ σ'' occurrences (fun r => walk' (walk r)) :=
  first.trans next

/-- What has no occurrences may follow. -/
theorem after (first : Adds σ σ' occurrences walk) (next : Adds σ' σ'' [] walk') :
    Adds σ σ'' occurrences (fun r => walk' (walk r)) := by
  have both := first.trans next
  rwa [List.append_nil] at both

/-- Two walks add the same from a situation if they come to the same there. -/
theorem congr (adds : Adds σ σ' occurrences walk)
    (same : ∀ lookups problems,
      walk' (σ.having lookups problems) = walk (σ.having lookups problems)) :
    Adds σ σ' occurrences walk' := by
  obtain ⟨bad, found⟩ := adds
  exact ⟨bad, fun lookups problems => (same _ _).trans (found _ _)⟩

/-- A step that neither reads nor changes what has been found. -/
theorem nothing
    (apart : ∀ lookups problems, walk (σ.having lookups problems) = σ'.having lookups problems) :
    Adds σ σ' [] walk := by
  refine ⟨#[], fun lookups problems => ?_⟩
  rw [apart, List.map_nil, Array.append_empty, Array.append_empty]

/-- A new scope is closed again after the walk within it. -/
theorem within (names : List String) {body : Resolution → Resolution}
    (inside : Adds (σ.enter names) σ' occurrences body) :
    Adds σ { σ' with scopes := σ'.scopes.tail } occurrences (fun r => r.within names body) := by
  obtain ⟨bad, found⟩ := inside
  refine ⟨bad, fun lookups problems => ?_⟩
  change { body ((σ.enter names).having lookups problems) with
    scopes := (body ((σ.enter names).having lookups problems)).scopes.tail } = _
  rw [found]
  rfl

end Adds

theorem adds_report (σ : Situation) (line : Nat) (lexeme : String) (cause : ScopeError) :
    Adds σ σ [] (fun r => r.report line lexeme cause) := by
  refine ⟨#[.scoping line lexeme cause], fun lookups problems => ?_⟩
  rw [List.map_nil, Array.append_empty, ← Array.push_eq_append]
  rfl

theorem adds_reportIf (σ : Situation) (wrong : Bool) (name : Name) (cause : ScopeError) :
    Adds σ σ [] (fun r => r.reportIf wrong name cause) := by
  cases wrong with
  | false => exact .nothing fun _ _ => rfl
  | true => exact adds_report σ name.line name.text cause

theorem inFunction_reportIf (r : Resolution) (wrong : Bool) (name : Name) (cause : ScopeError) :
    (r.reportIf wrong name cause).inFunction = r.inFunction := by
  unfold reportIf
  split <;> rfl

theorem adds_mark (σ : Situation) (name : String) (status : Status) :
    Adds σ { σ with scopes := σ.scopes.mark name status } [] (fun r => r.mark name status) := by
  obtain ⟨scopes, _, _⟩ := σ
  cases scopes with
  | nil => exact .nothing fun _ _ => rfl
  | cons scope outer => exact .nothing fun _ _ => rfl

theorem adds_declare (σ : Situation) (name : Name) :
    Adds σ (σ.declare name.text) [] (fun r => r.declare name) := by
  -- whether the scope held the name before does not depend on what has been found
  let held := (σ.scopes.head?.bind (·.get? name.text)).isSome
  exact ((adds_mark σ name.text .declared).before
    (adds_reportIf _ held name .duplicateDeclaration)).congr fun _ _ => rfl

theorem adds_define (σ : Situation) (name : Name) :
    Adds σ (σ.define [name.text]) [] (fun r => r.define name) := by
  obtain ⟨scopes, _, _⟩ := σ
  cases scopes with
  | nil => exact .nothing fun _ _ => rfl
  | cons scope outer => exact .nothing fun _ _ => rfl

/-- A name that can be read at once. -/
theorem adds_definition (σ : Situation) (name : Name) :
    Adds σ (σ.define [name.text]) [] (fun r => (r.declare name).define name) := by
  rw [← σ.define_declare name.text]
  exact (adds_declare σ name).before (adds_define _ name)

theorem adds_lookUp (σ : Situation) (id : NodeId) (name : String) :
    Adds σ σ [⟨id, name, σ.scopes⟩] (fun r => r.lookUp id name) := by
  refine ⟨#[], fun lookups problems => ?_⟩
  rw [Array.append_empty, List.map_singleton, ← Array.push_eq_append]
  rfl

theorem adds_parameters (σ : Situation) (names : List Name) :
    Adds σ (σ.define (names.map Name.text)) [] (fun r => r.parameters names) := by
  induction names generalizing σ with
  | nil =>
    rw [List.map_nil, σ.define_nil]
    exact .nothing fun _ _ => rfl
  | cons name rest ih =>
    have defined := adds_definition σ name
    have all := defined.before (ih _)
    rwa [σ.define_define] at all

end Resolution

open Resolution

/-! ### Expressions -/

mutual

/-- A walk over an expression comes back to where it stood. -/
theorem Expr.resolve_adds (σ : Situation) (e : Expr) :
    Adds σ σ (e.occurrences σ) (fun r => e.resolve r) := by
  match e with
  | .literal _ =>
    simp only [Expr.resolve, Expr.occurrences]
    exact .nothing fun _ _ => rfl
  | .grouping inner | .unary _ inner | .get inner _ =>
    simp only [Expr.resolve, Expr.occurrences]
    exact inner.resolve_adds σ
  | .binary left _ right | .logical left _ right | .set right _ left =>
    simp only [Expr.resolve, Expr.occurrences]
    exact (left.resolve_adds σ).trans (right.resolve_adds σ)
  | .variable name id =>
    simp only [Expr.resolve, Expr.occurrences]
    let unread := σ.scopes.head?.bind (·.get? name.text) = some .declared
    exact ((adds_reportIf σ unread name .readInOwnInitializer).before
      (adds_lookUp σ id name.text)).congr fun _ _ => rfl
  | .assign name value id =>
    simp only [Expr.resolve, Expr.occurrences]
    exact (value.resolve_adds σ).trans (adds_lookUp σ id name.text)
  | .call callee _ arguments =>
    simp only [Expr.resolve, Expr.occurrences]
    exact (callee.resolve_adds σ).trans (resolveExpressions_adds σ arguments)
  | .this keyword id =>
    simp only [Expr.resolve, Expr.occurrences]
    -- outside a class `this` is reported and not looked up
    obtain ⟨scopes, inFunction, inClass⟩ := σ
    cases inClass with
    | none =>
      exact (adds_report _ keyword.line keyword.text .thisOutsideClass).congr fun _ _ => rfl
    | plain | derived => exact (adds_lookUp _ id keyword.text).congr fun _ _ => rfl
  | .super keyword method id =>
    simp only [Expr.resolve, Expr.occurrences]
    -- `super` is looked up in any case, after a report if it stands in the wrong place
    have late (cause : ScopeError) :=
      (adds_report σ keyword.line keyword.text cause).before (adds_lookUp σ id keyword.text)
    obtain ⟨scopes, inFunction, inClass⟩ := σ
    cases inClass with
    | none => exact (late .superOutsideClass).congr fun _ _ => rfl
    | plain => exact (late .superWithoutSuperclass).congr fun _ _ => rfl
    | derived => exact (adds_lookUp _ id keyword.text).congr fun _ _ => rfl

theorem resolveExpressions_adds (σ : Situation) (expressions : List Expr) :
    Adds σ σ (expressionOccurrences σ expressions) (fun r => resolveExpressions r expressions) := by
  match expressions with
  | [] =>
    simp only [resolveExpressions, expressionOccurrences]
    exact .nothing fun _ _ => rfl
  | e :: rest =>
    simp only [resolveExpressions, expressionOccurrences]
    exact (e.resolve_adds σ).trans (resolveExpressions_adds σ rest)

end

theorem Resolution.adds_optional (σ : Situation) (value : Option Expr) :
    Adds σ σ (optionalOccurrences σ value) (fun r => r.optional value) := by
  cases value with
  | none => exact .nothing fun _ _ => rfl
  | some e => exact e.resolve_adds σ

theorem Resolution.adds_returning (σ : Situation) (line : Nat) (value : Option Expr) :
    Adds σ σ (optionalOccurrences σ value) (fun r => r.returning line value) := by
  let keyword : Name := ⟨Keyword.return.spelling, line⟩
  have outside := adds_reportIf σ (σ.inFunction = .none) keyword .returnAtTopLevel
  cases value with
  | none => exact outside.congr fun _ _ => rfl
  | some e =>
    -- the value is walked over whether or not one may be returned here
    have inside := adds_reportIf σ (σ.inFunction = .initializer) keyword .returnValueFromInitializer
    refine ((outside.before inside).before (e.resolve_adds σ)).congr fun _ _ => ?_
    simp only [returning, inFunction_reportIf, keyword]
    rfl

/-- The header of a class ends in the class. -/
theorem Resolution.adds_classHeader (σ : Situation) (name : Name) (superclass : Option Expr) :
    Adds σ (σ.enterClass name.text superclass.isSome)
      (optionalOccurrences (σ.enterClass name.text superclass.isSome) superclass)
      (fun r => r.classHeader name superclass) := by
  have entered : Adds σ { σ with inClass := .plain } [] (fun r => { r with inClass := .plain }) :=
    .nothing fun _ _ => rfl
  have named := entered.before (adds_definition _ name)
  cases superclass with
  | none => exact named
  | some parent =>
    have derived (σ : Situation) :
        Adds σ { σ with inClass := .derived } [] (fun r => { r with inClass := .derived }) :=
      .nothing fun _ _ => rfl
    -- only a superclass that is a name can be the class itself
    cases parent
    case «variable» parentName id =>
      have tested := named.before
        (adds_reportIf _ (parentName.text = name.text) parentName .inheritsFromItself)
      exact (tested.before (derived _)).before (Expr.resolve_adds _ _)
    all_goals exact (named.before (derived _)).before (Expr.resolve_adds _ _)

/-! ### Statements -/

mutual

/-- After a statement the walk stands where it stood, with the names that the statement declares. -/
theorem Stmt.resolve_adds (σ : Situation) (s : Stmt) :
    Adds σ (σ.define s.introduced) (s.occurrences σ) (fun r => s.resolve r) := by
  match s with
  | .expression value | .print value =>
    simp only [Stmt.resolve, Stmt.occurrences, Stmt.introduced, σ.define_nil]
    exact value.resolve_adds σ
  | .var name initializer =>
    simp only [Stmt.resolve, Stmt.occurrences, Stmt.introduced]
    rw [← σ.define_declare name.text]
    exact ((adds_declare σ name).before (adds_optional _ initializer)).after (adds_define _ name)
  | .block body =>
    simp only [Stmt.resolve, Stmt.occurrences, Stmt.introduced, σ.define_nil]
    exact (resolveStatements_adds (σ.enter []) body).within []
  | .ifElse condition thenBranch none =>
    simp only [Stmt.resolve, Stmt.occurrences, Stmt.introduced]
    exact (condition.resolve_adds σ).trans (thenBranch.resolve_adds σ)
  | .ifElse condition thenBranch (some elseBranch) =>
    simp only [Stmt.resolve, Stmt.occurrences, Stmt.introduced]
    rw [← σ.define_define]
    exact ((condition.resolve_adds σ).trans (thenBranch.resolve_adds σ)).trans
      (elseBranch.resolve_adds _)
  | .while condition body =>
    simp only [Stmt.resolve, Stmt.occurrences, Stmt.introduced]
    exact (condition.resolve_adds σ).trans (body.resolve_adds σ)
  | .function d =>
    simp only [Stmt.resolve, Stmt.occurrences, Stmt.introduced]
    exact (adds_definition σ d.name).before (d.resolve_adds _ .function)
  | .return line value =>
    simp only [Stmt.resolve, Stmt.occurrences, Stmt.introduced, σ.define_nil]
    exact adds_returning σ line value
  | .class_ name superclass methods =>
    have header := adds_classHeader σ name superclass
    have inMethods (σ : Situation) :
        Adds σ σ (methodOccurrences (σ.enter [Keyword.this.spelling]) methods)
          (fun r => r.within [Keyword.this.spelling] fun r => resolveMethods r methods) :=
      (resolveMethods_adds _ methods).within _
    have leaving (σ' : Situation) :
        Adds σ' { σ' with inClass := σ.inClass } [] (fun r => { r with inClass := σ.inClass }) :=
      .nothing fun _ _ => rfl
    cases superclass with
    | none =>
      simp only [Stmt.resolve, Stmt.occurrences, Stmt.introduced]
      exact ((header.trans (inMethods _)).after (leaving _)).congr fun _ _ => rfl
    | some parent =>
      simp only [Stmt.resolve, Stmt.occurrences, Stmt.introduced]
      -- the scope of `super` is around that of `this`
      have derived := (inMethods ((σ.enterClass name.text true).enter _)).within
        [Keyword.super.spelling]
      exact ((header.trans derived).after (leaving _)).congr fun _ _ => rfl

theorem resolveStatements_adds (σ : Situation) (statements : List Stmt) :
    Adds σ (σ.define (statements.flatMap Stmt.introduced)) (statementOccurrences σ statements)
      (fun r => resolveStatements r statements) := by
  match statements with
  | [] =>
    simp only [resolveStatements, statementOccurrences, List.flatMap_nil, σ.define_nil]
    exact .nothing fun _ _ => rfl
  | s :: rest =>
    simp only [resolveStatements, statementOccurrences, List.flatMap_cons]
    rw [← σ.define_define]
    exact (s.resolve_adds σ).trans (resolveStatements_adds _ rest)

theorem FunctionDecl.resolve_adds (σ : Situation) (d : FunctionDecl) (context : FunctionContext) :
    Adds σ σ (d.occurrences σ context) (fun r => d.resolve r context) := by
  match d with
  | ⟨_, parameters, body⟩ =>
    simp only [FunctionDecl.resolve, FunctionDecl.occurrences]
    let inside : Situation := { σ with inFunction := context }
    have entered : Adds σ inside [] (fun r => { r with inFunction := context }) :=
      .nothing fun _ _ => rfl
    have leaving (σ' : Situation) : Adds σ' { σ' with inFunction := σ.inFunction } []
        (fun r => { r with inFunction := σ.inFunction }) :=
      .nothing fun _ _ => rfl
    -- the parameters are declared in the scope of the body
    have walked := ((adds_parameters (inside.enter []) parameters).before
      (resolveStatements_adds (inside.enter (parameters.map Name.text)) body)).within []
    exact ((entered.before walked).after (leaving _)).congr fun _ _ => rfl

theorem resolveMethods_adds (σ : Situation) (methods : List FunctionDecl) :
    Adds σ σ (methodOccurrences σ methods) (fun r => resolveMethods r methods) := by
  match methods with
  | [] =>
    simp only [resolveMethods, methodOccurrences]
    exact .nothing fun _ _ => rfl
  | d :: rest =>
    simp only [resolveMethods, methodOccurrences]
    exact (d.resolve_adds σ d.context).trans (resolveMethods_adds σ rest)

end

end Lox
