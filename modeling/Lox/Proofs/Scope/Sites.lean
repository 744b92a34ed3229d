import Lox.Proofs.Syntax.WellFormed
import Lox.Scope.Basic

/-!
# Sites

The places of a program that have to do with scopes, each with what stands around it. What stands around a
place is read off the syntax: the blocks and bodies that it lies in, from inside out, with the names that
are declared in them before the place. From this alone follow the scopes that a name is looked up in and
the rule that is broken at a place. The sites of a program are listed from left to right, but the value of an
assignment comes before its target.
-/

namespace Lox

/-- A construct with statements in it. -/
inductive Construct where
  | block
  | function
  /-- A method of a class, which may have a superclass. -/
  | method (name : String) (derived : Bool)
  deriving DecidableEq, Repr

/-- A construct around a place. -/
structure Enclosure where
  construct : Construct
  /-- The parameters, and the names of the declarations in it that start before the place. -/
  names : List String
  deriving DecidableEq, Repr

/-- The constructs around a place, from inside out. -/
abbrev Surroundings := List Enclosure

/-- The scopes of a class around its methods: the one that holds `this` lies inside the one that holds
`super`, which only a class with a superclass has. -/
def classScopes (derived : Bool) : List (List String) :=
  [Keyword.this.spelling] :: if derived then [[Keyword.super.spelling]] else []

/-- The local scopes that belong to a construct, from inside out. -/
def Enclosure.scopes (e : Enclosure) : List (List String) :=
  e.names :: match e.construct with
    | .block | .function => []
    | .method _ derived => classScopes derived

namespace Surroundings

/-- The local scopes around a place, from inside out, each with the names that it holds there. -/
def scopes (around : Surroundings) : List (List String) := around.flatMap Enclosure.scopes

/-- How many local scopes lie inside the first one that holds the name. -/
def depth (around : Surroundings) (name : String) : Option Nat :=
  around.scopes.findIdx? (name ∈ ·)

/-- The look-up of an occurrence of a name. -/
def lookup (around : Surroundings) (id : NodeId) (name : Name) : Lookup :=
  ⟨id, name.text, around.depth name.text⟩

/-- Whether the innermost local scope holds the name. -/
def holds (around : Surroundings) (name : String) : Bool :=
  around.scopes.head?.any (name ∈ ·)

/-- The function or method whose body is the innermost one around a place. -/
def body? : Surroundings → Option Construct
  | [] => none
  | ⟨.block, _⟩ :: outer => body? outer
  | ⟨construct, _⟩ :: _ => some construct

/-- Whether the innermost class around a place has a superclass, if there is a class. -/
def class? : Surroundings → Option Bool
  | [] => none
  | ⟨.method _ derived, _⟩ :: _ => some derived
  | _ :: outer => class? outer

/-- The surroundings once the declaration of a name has started. Globals are in no local scope. -/
def declare (name : String) : Surroundings → Surroundings
  | [] => []
  | ⟨construct, names⟩ :: outer => ⟨construct, names ++ [name]⟩ :: outer

/-- The surroundings of what follows a statement. -/
def after (around : Surroundings) (s : Stmt) : Surroundings :=
  match s.declared? with
  | some name => around.declare name
  | none => around

end Surroundings

/-- A place in a program. -/
structure Spot where
  around : Surroundings
  /-- The variable in whose own initializer the place lies. -/
  initializing : Option String

/-- What stands at a site. -/
inductive Feature where
  /-- A variable, function, class or parameter is declared. -/
  | declaration (name : Name)
  | read (name : Name) (id : NodeId)
  | assignment (name : Name) (id : NodeId)
  | this (keyword : Name) (id : NodeId)
  | super (keyword : Name) (id : NodeId)
  | return (line : Nat) (hasValue : Bool)
  /-- A class names its superclass. -/
  | inheritance (className parent : Name)

namespace Feature

/-- The name or word that a problem at the site is reported at. -/
def name : Feature → Name
  | .declaration name | .read name _ | .assignment name _ => name
  | .this keyword _ | .super keyword _ => keyword
  | .return line _ => ⟨Keyword.return.spelling, line⟩
  | .inheritance _ parent => parent

/-- The node that stands at the site. -/
def id? : Feature → Option NodeId
  | .read _ id | .assignment _ id | .this _ id | .super _ id => some id
  | .declaration _ | .return _ _ | .inheritance _ _ => none

end Feature

structure Site where
  spot : Spot
  feature : Feature

namespace Site

/-- The rule that is broken at the site, if one is. -/
def offence? (site : Site) : Option ScopeError :=
  let ⟨⟨around, initializing⟩, feature⟩ := site
  match feature with
  | .declaration name => if around.holds name.text then some .duplicateDeclaration else none
  | .read name _ =>
    -- the initializer of a global may read the global
    if around ≠ [] ∧ initializing = some name.text then some .readInOwnInitializer else none
  | .assignment _ _ => none
  | .this _ _ => if around.class? = none then some .thisOutsideClass else none
  | .super _ _ =>
    match around.class? with
    | none => some .superOutsideClass
    | some derived => if derived then none else some .superWithoutSuperclass
  | .return _ hasValue =>
    match around.body? with
    | none => some .returnAtTopLevel
    | some (.method name _) =>
      if hasValue ∧ name = initializerName then some .returnValueFromInitializer else none
    | some _ => none
  | .inheritance className parent =>
    if parent.text = className.text then some .inheritsFromItself else none

/-- The report of the rule that is broken at the site. -/
def problem? (site : Site) : Option Diagnostic :=
  site.offence?.map fun cause => .scoping site.feature.name.line site.feature.name.text cause

/-- The look-up that is due at the site. There is none for a `this` outside every class. -/
def lookup? (site : Site) : Option Lookup :=
  let around := site.spot.around
  match site.feature with
  | .read name id | .assignment name id | .super name id => some (around.lookup id name)
  | .this keyword id => if around.class? = none then none else some (around.lookup id keyword)
  | .declaration _ | .return _ _ | .inheritance _ _ => none

end Site

/-! ### The sites of a tree -/

mutual

def Expr.sites (spot : Spot) : Expr → List Site
  | .literal _ => []
  | .grouping inner => inner.sites spot
  | .unary _ right => right.sites spot
  | .binary left _ right | .logical left _ right => left.sites spot ++ right.sites spot
  | .variable name id => [⟨spot, .read name id⟩]
  | .assign name value id => value.sites spot ++ [⟨spot, .assignment name id⟩]
  | .call callee _ arguments => callee.sites spot ++ expressionSites spot arguments
  | .get object _ => object.sites spot
  | .set object _ value => value.sites spot ++ object.sites spot
  | .this keyword id => [⟨spot, .this keyword id⟩]
  | .super keyword _ id => [⟨spot, .super keyword id⟩]

def expressionSites (spot : Spot) : List Expr → List Site
  | [] => []
  | e :: rest => e.sites spot ++ expressionSites spot rest

end

/-- The sites of an expression that may be absent. -/
def optionalSites (spot : Spot) : Option Expr → List Site
  | none => []
  | some e => e.sites spot

/-- The sites of parameters, each of which is declared after those before it. -/
def parameterSites (construct : Construct) (outer : Surroundings) (before : List String) :
    List Name → List Site
  | [] => []
  | name :: rest =>
    ⟨⟨⟨construct, before⟩ :: outer, none⟩, .declaration name⟩ ::
      parameterSites construct outer (before ++ [name.text]) rest

/-- The sites of the superclass of a class, outside the scopes of the class. -/
def superclassSites (around : Surroundings) (className : Name) : Option Expr → List Site
  | some (.variable parent id) =>
    [⟨⟨around, none⟩, .inheritance className parent⟩, ⟨⟨around, none⟩, .read parent id⟩]
  | superclass => optionalSites ⟨around, none⟩ superclass

mutual

def Stmt.sites (around : Surroundings) : Stmt → List Site
  | .expression value | .print value => value.sites ⟨around, none⟩
  | .var name initializer =>
    ⟨⟨around, none⟩, .declaration name⟩ ::
      optionalSites ⟨around.declare name.text, some name.text⟩ initializer
  | .block body => statementSites (⟨.block, []⟩ :: around) body
  | .ifElse condition thenBranch none =>
    condition.sites ⟨around, none⟩ ++ thenBranch.sites around
  | .ifElse condition thenBranch (some elseBranch) =>
    condition.sites ⟨around, none⟩ ++ thenBranch.sites around ++ elseBranch.sites around
  | .while condition body => condition.sites ⟨around, none⟩ ++ body.sites around
  | .function d =>
    ⟨⟨around, none⟩, .declaration d.name⟩ :: d.sites (around.declare d.name.text) .function
  | .return line value =>
    ⟨⟨around, none⟩, .return line value.isSome⟩ :: optionalSites ⟨around, none⟩ value
  | .class_ name superclass methods =>
    ⟨⟨around, none⟩, .declaration name⟩ ::
      (superclassSites (around.declare name.text) name superclass ++
        methodSites (around.declare name.text) superclass.isSome methods)

def statementSites (around : Surroundings) : List Stmt → List Site
  | [] => []
  | s :: rest => s.sites around ++ statementSites (around.after s) rest

/-- The sites of a function that is the given construct: the parameters and the body are in one scope. -/
def FunctionDecl.sites (outer : Surroundings) (construct : Construct) : FunctionDecl → List Site
  | ⟨_, parameters, body⟩ =>
    parameterSites construct outer [] parameters ++
      statementSites (⟨construct, parameters.map (·.text)⟩ :: outer) body

def methodSites (outer : Surroundings) (derived : Bool) : List FunctionDecl → List Site
  | [] => []
  | d :: rest =>
    d.sites outer (.method d.name.text derived) ++ methodSites outer derived rest

end

/-- The sites of a whole program, whose own declarations are global. -/
def programSites (statements : List Stmt) : List Site := statementSites [] statements

end Lox
