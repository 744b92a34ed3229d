import Lox.Proofs.Scope.Exactness
import Lox.Proofs.Session.Acceptance

/-!
# Where a program returns

The `return`s of a body are those that stand in it, however deep in blocks, branches and loops, but not in
functions and methods that are declared there. In a program that is accepted none stands outside every body,
and none in an initializer gives a value.
-/

namespace Lox

mutual

/-- The `return`s of a statement, each with its line and its value. -/
def Stmt.returns : Stmt → List (Nat × Option Expr)
  | .return line value => [(line, value)]
  | .block body => statementReturns body
  | .ifElse _ thenBranch none => thenBranch.returns
  | .ifElse _ thenBranch (some elseBranch) => thenBranch.returns ++ elseBranch.returns
  | .while _ body => body.returns
  | .expression _ | .print _ | .var _ _ | .function _ | .class_ _ _ _ => []

def statementReturns : List Stmt → List (Nat × Option Expr)
  | [] => []
  | s :: rest => s.returns ++ statementReturns rest

end

theorem mem_statementReturns {s : Stmt} {statements : List Stmt} {r : Nat × Option Expr}
    (member : s ∈ statements) (inside : r ∈ s.returns) : r ∈ statementReturns statements := by
  induction statements with
  | nil => cases member
  | cons first rest ih =>
    rw [statementReturns]
    rcases List.mem_cons.mp member with rfl | member
    · exact List.mem_append_left _ inside
    · exact List.mem_append_right _ (ih member)

mutual

/-- The functions and methods that are declared in a statement, at any depth, and of each whether it is the
initializer of a class. -/
def Stmt.functions : Stmt → List (FunctionDecl × Bool)
  | .function d => (d, false) :: d.functions
  | .class_ _ _ methods => methodFunctions methods
  | .block body => statementFunctions body
  | .ifElse _ thenBranch none => thenBranch.functions
  | .ifElse _ thenBranch (some elseBranch) => thenBranch.functions ++ elseBranch.functions
  | .while _ body => body.functions
  | .expression _ | .print _ | .var _ _ | .return _ _ => []

def statementFunctions : List Stmt → List (FunctionDecl × Bool)
  | [] => []
  | s :: rest => s.functions ++ statementFunctions rest

def FunctionDecl.functions : FunctionDecl → List (FunctionDecl × Bool)
  | ⟨_, _, body⟩ => statementFunctions body

def methodFunctions : List FunctionDecl → List (FunctionDecl × Bool)
  | [] => []
  | d :: rest => (d, d.isInitializer) :: (d.functions ++ methodFunctions rest)

end

/-- What is in the body of a function is in the function. -/
theorem FunctionDecl.functions_eq (d : FunctionDecl) : d.functions = statementFunctions d.body := by
  obtain ⟨name, parameters, body⟩ := d
  rw [functions]

/-- A method of a class is among its functions, and so are those in the method. -/
theorem methodFunctions_of_mem {methods : List FunctionDecl} {d : FunctionDecl} (member : d ∈ methods) :
    (d, d.isInitializer) :: d.functions ⊆ methodFunctions methods := by
  induction methods with
  | nil => cases member
  | cons first rest ih =>
    rw [methodFunctions]
    rcases List.mem_cons.mp member with rfl | member
    · exact List.cons_subset_cons _ (List.subset_append_left _ _)
    · refine List.Subset.trans (ih member) ?_
      exact List.Subset.trans (List.subset_append_right _ _) (List.subset_cons_self _ _)

/-! ### The sites of returns -/

/-- A statement before a place does not change the body that the place is in. -/
theorem Surroundings.body?_after (around : Surroundings) (s : Stmt) :
    (around.after s).body? = around.body? := by
  unfold after
  split
  · exact around.body?_declare _
  · rfl

/-- The site is that of the `return`, in the body that the surroundings are in. -/
def Site.IsReturn (around : Surroundings) (r : Nat × Option Expr) (site : Site) : Prop :=
  site.spot.around.body? = around.body? ∧ site.feature = .return r.1 r.2.isSome

mutual

/-- Each `return` of a statement is at one of its sites. -/
theorem Stmt.exists_returnSite (around : Surroundings) (s : Stmt) :
    ∀ r ∈ s.returns, ∃ site ∈ s.sites around, site.IsReturn around r := by
  intro r member
  match s with
  | .return line value =>
    rw [Stmt.returns, List.mem_singleton] at member
    subst member
    exact ⟨⟨⟨around, none⟩, .return line value.isSome⟩, by rw [Stmt.sites]; exact .head _, rfl, rfl⟩
  | .block body =>
    rw [Stmt.returns] at member
    rw [Stmt.sites]
    exact exists_returnSite_statements (⟨.block, []⟩ :: around) body r member
  | .ifElse condition thenBranch none =>
    rw [Stmt.returns] at member
    obtain ⟨site, inside, is⟩ := thenBranch.exists_returnSite around r member
    exact ⟨site, by rw [Stmt.sites]; exact List.mem_append_right _ inside, is⟩
  | .ifElse condition thenBranch (some elseBranch) =>
    rw [Stmt.returns] at member
    rcases List.mem_append.mp member with member | member
    · obtain ⟨site, inside, is⟩ := thenBranch.exists_returnSite around r member
      refine ⟨site, ?_, is⟩
      rw [Stmt.sites]
      exact List.mem_append_left _ (List.mem_append_right _ inside)
    · obtain ⟨site, inside, is⟩ := elseBranch.exists_returnSite around r member
      exact ⟨site, by rw [Stmt.sites]; exact List.mem_append_right _ inside, is⟩
  | .while condition body =>
    rw [Stmt.returns] at member
    obtain ⟨site, inside, is⟩ := body.exists_returnSite around r member
    exact ⟨site, by rw [Stmt.sites]; exact List.mem_append_right _ inside, is⟩
  | .expression _ | .print _ | .var _ _ | .function _ | .class_ _ _ _ =>
    rw [Stmt.returns] at member
    cases member

theorem exists_returnSite_statements (around : Surroundings) (statements : List Stmt) :
    ∀ r ∈ statementReturns statements, ∃ site ∈ statementSites around statements,
      site.IsReturn around r := by
  intro r member
  match statements with
  | [] =>
    rw [statementReturns] at member
    cases member
  | s :: rest =>
    rw [statementReturns] at member
    rw [statementSites]
    rcases List.mem_append.mp member with member | member
    · obtain ⟨site, inside, is⟩ := s.exists_returnSite around r member
      exact ⟨site, List.mem_append_left _ inside, is⟩
    · obtain ⟨site, inside, body, is⟩ := exists_returnSite_statements (around.after s) rest r member
      exact ⟨site, List.mem_append_right _ inside, body.trans (around.body?_after s), is⟩

end

/-! ### The sites of functions -/

/-- The sites are all those of the function, which is the construct that it is declared as. -/
def FunctionDecl.SitesAmong (sites : List Site) (p : FunctionDecl × Bool) : Prop :=
  ∃ outer construct, p.1.sites outer construct ⊆ sites ∧
    (p.2 = true → ∃ derived, construct = .method initializerName derived)

theorem FunctionDecl.SitesAmong.mono {sites sites' : List Site} {p : FunctionDecl × Bool}
    (among : SitesAmong sites p) (more : sites ⊆ sites') : SitesAmong sites' p := by
  obtain ⟨outer, construct, inside, is⟩ := among
  exact ⟨outer, construct, List.Subset.trans inside more, is⟩

mutual

/-- The sites of a statement have all sites of the functions that are declared in it. -/
theorem Stmt.functions_sites (around : Surroundings) (s : Stmt) :
    ∀ p ∈ s.functions, FunctionDecl.SitesAmong (s.sites around) p := by
  intro p member
  match s with
  | .function d =>
    rw [Stmt.functions] at member
    rw [Stmt.sites]
    rcases List.mem_cons.mp member with rfl | member
    · exact ⟨_, _, List.subset_cons_self _ _, nofun⟩
    · exact (d.functions_sites _ _ p member).mono (List.subset_cons_self _ _)
  | .class_ name superclass methods =>
    rw [Stmt.functions] at member
    rw [Stmt.sites]
    refine (functions_methodSites (around.declare name.text) superclass.isSome methods p member).mono ?_
    exact List.Subset.trans (List.subset_append_right _ _) (List.subset_cons_self _ _)
  | .block body =>
    rw [Stmt.functions] at member
    rw [Stmt.sites]
    exact functions_statementSites _ body p member
  | .ifElse condition thenBranch none =>
    rw [Stmt.functions] at member
    rw [Stmt.sites]
    exact (thenBranch.functions_sites around p member).mono (List.subset_append_right _ _)
  | .ifElse condition thenBranch (some elseBranch) =>
    rw [Stmt.functions] at member
    rw [Stmt.sites]
    rcases List.mem_append.mp member with member | member
    · refine (thenBranch.functions_sites around p member).mono ?_
      exact List.Subset.trans (List.subset_append_right _ _) (List.subset_append_left _ _)
    · exact (elseBranch.functions_sites around p member).mono (List.subset_append_right _ _)
  | .while condition body =>
    rw [Stmt.functions] at member
    rw [Stmt.sites]
    exact (body.functions_sites around p member).mono (List.subset_append_right _ _)
  | .expression _ | .print _ | .var _ _ | .return _ _ =>
    rw [Stmt.functions] at member
    cases member

theorem functions_statementSites (around : Surroundings) (statements : List Stmt) :
    ∀ p ∈ statementFunctions statements,
      FunctionDecl.SitesAmong (statementSites around statements) p := by
  intro p member
  match statements with
  | [] =>
    rw [statementFunctions] at member
    cases member
  | s :: rest =>
    rw [statementFunctions] at member
    rw [statementSites]
    rcases List.mem_append.mp member with member | member
    · exact (s.functions_sites around p member).mono (List.subset_append_left _ _)
    · exact (functions_statementSites _ rest p member).mono (List.subset_append_right _ _)

theorem FunctionDecl.functions_sites (outer : Surroundings) (construct : Construct)
    (d : FunctionDecl) : ∀ p ∈ d.functions, FunctionDecl.SitesAmong (d.sites outer construct) p := by
  intro p member
  match d with
  | ⟨_, parameters, body⟩ =>
    rw [FunctionDecl.functions] at member
    rw [FunctionDecl.sites]
    exact (functions_statementSites _ body p member).mono (List.subset_append_right _ _)

theorem functions_methodSites (outer : Surroundings) (derived : Bool) (methods : List FunctionDecl) :
    ∀ p ∈ methodFunctions methods, FunctionDecl.SitesAmong (methodSites outer derived methods) p := by
  intro p member
  match methods with
  | [] =>
    rw [methodFunctions] at member
    cases member
  | d :: rest =>
    rw [methodFunctions] at member
    rw [methodSites]
    rcases List.mem_cons.mp member with rfl | member
    · refine ⟨_, _, List.subset_append_left _ _, fun initializer => ⟨derived, ?_⟩⟩
      rw [of_decide_eq_true initializer]
    · rcases List.mem_append.mp member with member | member
      · exact (d.functions_sites _ _ p member).mono (List.subset_append_left _ _)
      · exact (functions_methodSites _ _ rest p member).mono (List.subset_append_right _ _)

end

/-! ### Programs without offence -/

/-- A function may be declared so: if it is an initializer, it returns nothing. -/
def FunctionDecl.ReturnsWell (p : FunctionDecl × Bool) : Prop :=
  p.2 = true → ∀ r ∈ statementReturns p.1.body, r.2 = none

/-- Where no rule is broken, nothing is returned outside every body. -/
theorem returns_of_top {statements : List Stmt}
    (clean : ∀ site ∈ programSites statements, site.offence? = none) :
    statementReturns statements = [] := by
  rw [List.eq_nil_iff_forall_not_mem]
  intro r member
  obtain ⟨⟨⟨around, _⟩, feature⟩, inside, top, is⟩ := exists_returnSite_statements [] statements r member
  have allowed := clean _ inside
  dsimp only at top is
  subst is
  simp only [Site.offence?, top] at allowed
  cases allowed

/-- Where no rule is broken, initializers return nothing. -/
theorem FunctionDecl.returnsWell_of_clean {sites : List Site} {p : FunctionDecl × Bool}
    (clean : ∀ site ∈ sites, site.offence? = none) (among : SitesAmong sites p) : ReturnsWell p := by
  obtain ⟨⟨name, parameters, body⟩, flag⟩ := p
  obtain ⟨outer, construct, inside, is⟩ := among
  intro initializer r member
  obtain ⟨derived, rfl⟩ := is initializer
  obtain ⟨⟨⟨around, _⟩, feature⟩, here, within, is⟩ := exists_returnSite_statements
    (⟨.method initializerName derived, parameters.map (·.text)⟩ :: outer) body r member
  have allowed := clean _ (inside (by rw [FunctionDecl.sites]; exact List.mem_append_right _ here))
  dsimp only at within is
  subst is
  have method : around.body? = some (.method initializerName derived) := within
  simp only [Site.offence?, method, and_true] at allowed
  split at allowed
  · cases allowed
  · rename_i valueless
    simpa using valueless

/-- The statements of an accepted source return nothing themselves, and the initializers in them return
nothing either. -/
theorem Source.accept_returns {source : String} {firstId : NodeId} {program : Accepted}
    (accepted : (Source.accept source firstId).1 = .ok program) :
    statementReturns program.statements = [] ∧
      ∀ p ∈ statementFunctions program.statements, FunctionDecl.ReturnsWell p := by
  obtain ⟨-, statements, bindings⟩ := Source.accept_eq_ok.mp accepted
  -- nothing was reported, so no rule is broken at any site
  have reported := (Resolution.traces_ofProgram (Grammar.program_regular (tokens source) firstId)).problems
  have silent := ((Resolution.bindings?_eq_ok_iff _ _).mp bindings).1
  have clean : ∀ site ∈ programSites program.statements, site.offence? = none := by
    intro site member
    rw [statements] at member
    have unreported := List.filterMap_eq_nil_iff.mp (reported.symm.trans silent) site member
    simpa only [Site.problem?, Option.map_eq_none_iff] using unreported
  refine ⟨returns_of_top clean, fun p member => ?_⟩
  exact FunctionDecl.returnsWell_of_clean clean (functions_statementSites [] _ p member)

end Lox
