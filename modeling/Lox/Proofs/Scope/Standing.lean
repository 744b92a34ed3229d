import Lox.Proofs.Scope.Sites
import Lox.Proofs.Scope.WellScoped
import Mathlib.Data.List.Forall2

/-!
# Where a walk stands

What a walk over a program knows at a place, as it follows from what stands around the place. The relation
`StandsBy` ties the two: the open scopes hold just the names of the local scopes there, and a name is
declared only in its own initializer. A walk `Traces` sites if it adds what they say, one after another;
whether anything was reported before does not matter. Here this is shown of everything that a walk does
at one place.
-/

namespace Lox

open Resolution

/-- A scope that holds just the given names. -/
def Scope.HoldsJust (scope : Scope) (names : List String) : Prop :=
  ∀ name, scope.contains name = decide (name ∈ names)

/-- What a walk has to know at a place. -/
structure Standing where
  scopes : List (List String)
  /-- The local variable whose initializer is walked over. -/
  initializing : Option String
  inFunction : FunctionContext
  inClass : ClassContext

/-- The body that a statement directly in the construct stands in. -/
def Construct.context : Construct → FunctionContext
  | .block => .none
  | .function => .function
  | .method name _ => if name = initializerName then .initializer else .method

/-- The body that a statement at the place stands in. -/
def Surroundings.inFunction (around : Surroundings) : FunctionContext :=
  match around.body? with
  | none => .none
  | some construct => construct.context

/-- The class that a place is in. -/
def Surroundings.inClass (around : Surroundings) : ClassContext :=
  match around.class? with
  | none => .none
  | some true => .derived
  | some false => .plain

/-- What a walk has to know at a place, from what stands around it. -/
def Spot.standing (spot : Spot) : Standing where
  scopes := spot.around.scopes
  initializing := if spot.around = [] then none else spot.initializing
  inFunction := spot.around.inFunction
  inClass := spot.around.inClass

/-- Where a walk stands at a statement. -/
abbrev Surroundings.standing (around : Surroundings) : Standing := Spot.standing ⟨around, none⟩

/-- A walk that knows what it has to know. -/
structure Resolution.StandsBy (σ : Standing) (r : Resolution) : Prop where
  scopes : List.Forall₂ Scope.HoldsJust r.scopes σ.scopes
  underWay : ∀ name, r.innermost? name = some .declared ↔ σ.initializing = some name
  settled : Scopes.Settled r.scopes.tail
  inFunction : r.inFunction = σ.inFunction
  inClass : r.inClass = σ.inClass

/-- The walk goes on to `σ`, adding what the sites say. -/
structure Resolution.Traces (sites : List Site) (σ : Standing) (r r' : Resolution) : Prop where
  lookups : r'.lookups.toList = r.lookups.toList ++ sites.filterMap Site.lookup?
  problems : r'.problems.toList = r.problems.toList ++ sites.filterMap Site.problem?
  stands : StandsBy σ r'

namespace Resolution

variable {σ σ' : Standing} {sites sites' : List Site} {r r' r'' : Resolution}

theorem Traces.trans (first : Traces sites σ r r') (next : Traces sites' σ' r' r'') :
    Traces (sites ++ sites') σ' r r'' where
  lookups := by rw [next.lookups, first.lookups, List.filterMap_append, List.append_assoc]
  problems := by rw [next.problems, first.problems, List.filterMap_append, List.append_assoc]
  stands := next.stands

theorem Traces.refl (stands : StandsBy σ r) : Traces [] σ r r :=
  ⟨(List.append_nil _).symm, (List.append_nil _).symm, stands⟩

/-- What comes after adds nothing. -/
theorem Traces.to (traces : Traces sites σ r r') (lookups : r''.lookups = r'.lookups)
    (problems : r''.problems = r'.problems) (stands : StandsBy σ' r'') : Traces sites σ' r r'' :=
  ⟨lookups ▸ traces.lookups, problems ▸ traces.problems, stands⟩

theorem StandsBy.of_eq (stands : StandsBy σ r) (scopes : r'.scopes = r.scopes)
    (inFunction : r'.inFunction = r.inFunction) (inClass : r'.inClass = r.inClass) :
    StandsBy σ r' where
  scopes := scopes ▸ stands.scopes
  underWay name := by
    rw [innermost?, scopes]
    exact stands.underWay name
  settled := scopes ▸ stands.settled
  inFunction := inFunction.trans stands.inFunction
  inClass := inClass.trans stands.inClass

/-! ### Names -/

/-- A name is found in the walk's scopes where the surroundings have it. -/
theorem StandsBy.findIdx? (stands : StandsBy σ r) (name : String) :
    r.scopes.findIdx? (·.contains name) = σ.scopes.findIdx? (name ∈ ·) := by
  have held := stands.scopes
  generalize r.scopes = scopes at held
  generalize σ.scopes = names at held
  induction held with
  | nil => rfl
  | cons first _ ih => rw [List.findIdx?_cons, List.findIdx?_cons, first name, ih]

/-- The innermost scope holds what it holds in the surroundings. -/
theorem StandsBy.isSome_innermost? (stands : StandsBy σ r) (name : String) :
    (r.innermost? name).isSome = σ.scopes.head?.any (name ∈ ·) := by
  have held := stands.scopes
  rw [innermost?]
  generalize r.scopes = scopes at held
  generalize σ.scopes = names at held
  cases held with
  | nil => rfl
  | cons first _ => exact first name

theorem lookups_reportIf (r : Resolution) (wrong : Bool) (name : Name) (cause : ScopeError) :
    (r.reportIf wrong name cause).lookups = r.lookups := by
  unfold reportIf
  split <;> rfl

theorem problems_reportIf (r : Resolution) (wrong : Bool) (name : Name) (cause : ScopeError) :
    (r.reportIf wrong name cause).problems.toList =
      r.problems.toList ++ if wrong then [.scoping name.line name.text cause] else [] := by
  unfold reportIf
  split <;> simp [report]

theorem StandsBy.reportIf (stands : StandsBy σ r) (wrong : Bool) (name : Name) (cause : ScopeError) :
    StandsBy σ (r.reportIf wrong name cause) :=
  stands.of_eq (reportIf_scopes _ _ _ _) (inFunction_reportIf _ _ _ _) (reportIf_inClass _ _ _ _)

/-- One site, with what is looked up and what is reported there. -/
theorem traces_site {site : Site} (lookups : r'.lookups.toList = r.lookups.toList ++ site.lookup?.toList)
    (problems : r'.problems.toList = r.problems.toList ++ site.problem?.toList)
    (stands : StandsBy σ r') : Traces [site] σ r r' := by
  have single {α : Type} (f : Site → Option α) : [site].filterMap f = (f site).toList := by
    cases found : f site <;> simp [found]
  exact ⟨single Site.lookup? ▸ lookups, single Site.problem? ▸ problems, stands⟩

/-- A test reports what is wrong at a site. -/
theorem problems_of_offence {site : Site} {wrong : Bool} {name : Name} {cause : ScopeError}
    (named : site.feature.name = name) (judged : site.offence? = if wrong then some cause else none) :
    (r.reportIf wrong name cause).problems.toList = r.problems.toList ++ site.problem?.toList := by
  rw [problems_reportIf, Site.problem?, judged, named]
  cases wrong <;> rfl

theorem problems_lookUp (r : Resolution) (id : NodeId) (name : String) :
    (r.lookUp id name).problems = r.problems := rfl

/-- A name is looked up in the scopes of its surroundings. -/
theorem StandsBy.lookups_lookUp {spot : Spot} (stands : StandsBy spot.standing r) (id : NodeId)
    (name : Name) : (r.lookUp id name.text).lookups.toList =
      r.lookups.toList ++ [spot.around.lookup id name] := by
  rw [Resolution.lookUp, Array.toList_push, stands.findIdx?]
  rfl

end Resolution

/-! ### Occurrences of names -/

namespace Resolution

variable {spot : Spot} {r : Resolution}

theorem StandsBy.traces_read (stands : StandsBy spot.standing r) (name : Name) (id : NodeId) :
    Traces [⟨spot, .read name id⟩] spot.standing r ((Expr.variable name id).resolve r) := by
  rw [Expr.resolve]
  have reported := stands.reportIf (r.innermost? name.text = some .declared) name .readInOwnInitializer
  refine traces_site ?_ ?_ (reported.of_eq rfl rfl rfl)
  · rw [reported.lookups_lookUp, lookups_reportIf]
    rfl
  · refine problems_of_offence rfl ?_
    -- only a local name can be under way
    have own := stands.underWay name.text
    rw [Spot.standing] at own
    simp only [decide_eq_true_eq, own, Site.offence?]
    by_cases global : spot.around = [] <;> simp [global]

theorem StandsBy.traces_assignment (stands : StandsBy spot.standing r) (name : Name) (id : NodeId) :
    Traces [⟨spot, .assignment name id⟩] spot.standing r (r.lookUp id name.text) :=
  traces_site (stands.lookups_lookUp id name) (List.append_nil _).symm (stands.of_eq rfl rfl rfl)

theorem StandsBy.traces_this (stands : StandsBy spot.standing r) (keyword : Name) (id : NodeId) :
    Traces [⟨spot, .this keyword id⟩] spot.standing r ((Expr.this keyword id).resolve r) := by
  have inClass : r.inClass = spot.around.inClass := stands.inClass
  rw [Surroundings.inClass] at inClass
  rw [Expr.resolve]
  cases around : spot.around.class? with
  | none =>
    rw [around] at inClass
    rw [inClass]
    refine traces_site ?_ ?_ (stands.of_eq rfl rfl rfl)
    · simp [report, Site.lookup?, around]
    · simp [report, Site.problem?, Site.offence?, Feature.name, around]
  | some derived =>
    have found : Traces [⟨spot, .this keyword id⟩] spot.standing r (r.lookUp id keyword.text) := by
      refine traces_site ?_ ?_ (stands.of_eq rfl rfl rfl)
      · simp [stands.lookups_lookUp, Site.lookup?, around]
      · simp [problems_lookUp, Site.problem?, Site.offence?, around]
    cases derived <;> rw [around] at inClass <;> rw [inClass] <;> exact found

theorem StandsBy.traces_super (stands : StandsBy spot.standing r) (keyword method : Name)
    (id : NodeId) :
    Traces [⟨spot, .super keyword id⟩] spot.standing r
      ((Expr.super keyword method id).resolve r) := by
  have inClass : r.inClass = spot.around.inClass := stands.inClass
  rw [Surroundings.inClass] at inClass
  have looked := stands.lookups_lookUp id keyword
  rw [Expr.resolve]
  -- whatever is reported, the keyword is looked up
  cases around : spot.around.class? with
  | none =>
    rw [around] at inClass
    rw [inClass]
    refine traces_site looked ?_ (stands.of_eq rfl rfl rfl)
    simp [problems_lookUp, report, Site.problem?, Site.offence?, Feature.name, around]
  | some derived =>
    rw [around] at inClass
    cases derived <;> rw [inClass] <;> refine traces_site looked ?_ (stands.of_eq rfl rfl rfl) <;>
      simp [problems_lookUp, report, Site.problem?, Site.offence?, Feature.name, around]

end Resolution

/-! ### Declarations -/

theorem Surroundings.body?_declare (around : Surroundings) (name : String) :
    (around.declare name).body? = around.body? := by
  cases around with
  | nil => rfl
  | cons e outer =>
    obtain ⟨construct, names⟩ := e
    cases construct <;> rfl

theorem Surroundings.class?_declare (around : Surroundings) (name : String) :
    (around.declare name).class? = around.class? := by
  cases around with
  | nil => rfl
  | cons e outer =>
    obtain ⟨construct, names⟩ := e
    cases construct <;> rfl

/-- Once the declaration of a name has started, the walk knows the same apart from the name. -/
theorem Surroundings.standing_declare (around : Surroundings) (name : String)
    (initializing : Option String) :
    Spot.standing ⟨around.declare name, initializing⟩ =
      { around.standing with
        scopes := (around.declare name).scopes
        initializing := if around = [] then none else initializing } := by
  have global : around.declare name = [] ↔ around = [] := by cases around <;> simp [declare]
  simp only [Spot.standing, inFunction, inClass, body?_declare, class?_declare, global]

/-- What a statement knows of the body that it stands in. -/
theorem Surroundings.inFunction_cases (around : Surroundings) :
    (around.body? = none ∧ around.inFunction = .none) ∨
      (around.body? = some .function ∧ around.inFunction = .function) ∨
      ∃ name derived, around.body? = some (.method name derived) ∧
        around.inFunction = if name = initializerName then .initializer else .method := by
  induction around with
  | nil => exact .inl ⟨rfl, rfl⟩
  | cons e outer ih =>
    obtain ⟨construct, names⟩ := e
    cases construct with
    | block => exact ih
    | function => exact .inr (.inl ⟨rfl, rfl⟩)
    | method name derived => exact .inr (.inr ⟨name, derived, rfl, rfl⟩)

theorem Surroundings.initializing_standing (around : Surroundings) :
    around.standing.initializing = none :=
  ite_self none

namespace Resolution

variable {σ : Standing} {around : Surroundings} {r r' : Resolution}

theorem inFunction_mark (r : Resolution) (name : String) (status : Status) :
    (r.mark name status).inFunction = r.inFunction := by
  obtain ⟨scopes, _, _, _, _⟩ := r
  cases scopes <;> rfl

theorem lookups_mark (r : Resolution) (name : String) (status : Status) :
    (r.mark name status).lookups = r.lookups := by
  obtain ⟨scopes, _, _, _, _⟩ := r
  cases scopes <;> rfl

theorem problems_mark (r : Resolution) (name : String) (status : Status) :
    (r.mark name status).problems = r.problems := by
  obtain ⟨scopes, _, _, _, _⟩ := r
  cases scopes <;> rfl

theorem innermost?_mark (r : Resolution) (name other : String) (status : Status) :
    (r.mark name status).innermost? other =
      if r.scopes = [] then none else if name = other then some status else r.innermost? other := by
  obtain ⟨scopes, _, _, _, _⟩ := r
  cases scopes with
  | nil => rfl
  | cons scope outer => exact Table.get?_insert scope name other status

theorem StandsBy.scopes_eq_nil (stands : StandsBy around.standing r) :
    r.scopes = [] ↔ around = [] := by
  have held := stands.scopes
  cases around with
  | nil => exact iff_of_true (List.forall₂_nil_right_iff.mp held) rfl
  | cons e outer =>
    obtain ⟨scope, Γ, -, -, same⟩ := List.forall₂_cons_right_iff.mp held
    simp [same]

/-- The innermost scope gets the name that is declared. -/
theorem holdsJust_mark {Γ : Scopes} (held : List.Forall₂ Scope.HoldsJust Γ around.scopes)
    (name : String) (status : Status) :
    List.Forall₂ Scope.HoldsJust (Γ.mark name status) (around.declare name).scopes := by
  cases around with
  | nil =>
    cases List.forall₂_nil_right_iff.mp held
    exact .nil
  | cons e outer =>
    obtain ⟨scope, Γ, first, rest, rfl⟩ := List.forall₂_cons_right_iff.mp held
    refine .cons (fun other => ?_) rest
    rw [Table.contains_insert, first other]
    simp [Bool.or_comm, eq_comm]

/-- A name that is declared is not added again. -/
theorem holdsJust_mark_again {Γ : Scopes} {name : String}
    (held : List.Forall₂ Scope.HoldsJust Γ (around.declare name).scopes) (status : Status) :
    List.Forall₂ Scope.HoldsJust (Γ.mark name status) (around.declare name).scopes := by
  cases around with
  | nil =>
    cases List.forall₂_nil_right_iff.mp held
    exact .nil
  | cons e outer =>
    obtain ⟨scope, Γ, first, rest, rfl⟩ := List.forall₂_cons_right_iff.mp held
    refine .cons (fun other => ?_) rest
    rw [Table.contains_insert, first other]
    by_cases same : name = other <;> simp [same]

theorem innermost?_declare (r : Resolution) (name : Name) (other : String) :
    (r.declare name).innermost? other = (r.mark name.text .declared).innermost? other := by
  rw [innermost?, Resolution.declare, reportIf_scopes, innermost?]

theorem inFunction_declare (r : Resolution) (name : Name) :
    (r.declare name).inFunction = r.inFunction := by
  rw [Resolution.declare, inFunction_reportIf, inFunction_mark]

/-- The declaration of a name starts: it is reported if the innermost scope holds the name already. -/
theorem StandsBy.declare (stands : StandsBy around.standing r) (name : Name) :
    Traces [⟨⟨around, none⟩, .declaration name⟩]
      (Spot.standing ⟨around.declare name.text, some name.text⟩) r (r.declare name) := by
  rw [Surroundings.standing_declare]
  refine traces_site ?_ ?_ ⟨?_, fun other => ?_, ?_, ?_, ?_⟩
  · rw [Resolution.declare, lookups_reportIf, lookups_mark]
    exact (List.append_nil _).symm
  · rw [Resolution.declare, ← problems_mark r name.text .declared]
    refine problems_of_offence rfl ?_
    rw [stands.isSome_innermost?]
    rfl
  · rw [scopes_declare]
    exact holdsJust_mark stands.scopes name.text .declared
  · have before := stands.underWay other
    rw [around.initializing_standing] at before
    rw [innermost?_declare, innermost?_mark]
    by_cases global : around = []
    · simp [stands.scopes_eq_nil, global]
    · by_cases same : name.text = other <;> simp [stands.scopes_eq_nil, global, same, before]
  · rw [scopes_declare, Scopes.tail_mark]
    exact stands.settled
  · rw [inFunction_declare]
    exact stands.inFunction
  · rw [inClass_declare]
    exact stands.inClass

/-- The declaration of a name ends. -/
theorem StandsBy.define {name : Name}
    (stands : StandsBy (Spot.standing ⟨around.declare name.text, some name.text⟩) r) :
    StandsBy (around.declare name.text).standing (r.define name) := by
  refine ⟨?_, fun other => ?_, ?_, ?_, ?_⟩
  · rw [Resolution.define, scopes_mark]
    exact holdsJust_mark_again stands.scopes .defined
  · have before := stands.underWay other
    rw [Surroundings.standing_declare] at before
    rw [Surroundings.initializing_standing, Resolution.define, innermost?_mark]
    by_cases same : name.text = other
    · simp [same]
    · -- no other name is under way
      split
      · simp
      · rw [before]
        split <;> simp [same]
  · rw [Resolution.define, scopes_mark, Scopes.tail_mark]
    exact stands.settled
  · rw [Resolution.define, inFunction_mark]
    exact stands.inFunction
  · rw [Resolution.define, inClass_mark]
    exact stands.inClass

theorem Traces.define {sites : List Site} {name : Name}
    (traces : Traces sites (Spot.standing ⟨around.declare name.text, some name.text⟩) r r') :
    Traces sites (around.declare name.text).standing r (r'.define name) :=
  traces.to (lookups_mark _ _ _) (problems_mark _ _ _) traces.stands.define

/-! ### Scopes -/

theorem holdsJust_of (names : List String) : (Scope.of names).HoldsJust names := by
  intro name
  rw [Table.contains, Scope.get?_of]
  split <;> simp [*]

/-- At a statement no declaration is under way in any scope. -/
theorem StandsBy.allSettled (stands : StandsBy σ r) (quiet : σ.initializing = none) :
    Scopes.Settled r.scopes := by
  obtain ⟨-, head, tail, -, -⟩ := stands
  rw [quiet] at head
  obtain ⟨scopes, _, _, _, _⟩ := r
  cases scopes with
  | nil => exact nofun
  | cons first outer =>
    intro scope member name
    rcases List.mem_cons.mp member with rfl | member
    · exact fun held => nomatch (head name).mp held
    · exact tail scope member name

/-- A walk within a new scope, after which it stands where it stood before. -/
theorem StandsBy.within {sites : List Site} {body : Resolution → Resolution} (stands : StandsBy σ r)
    (names : List String) (quiet : σ.initializing = none)
    (inside : ∀ r₁, StandsBy { σ with scopes := names :: σ.scopes } r₁ →
      ∃ names', Traces sites { σ with scopes := names' :: σ.scopes } r₁ (body r₁)) :
    Traces sites σ r (r.within names body) := by
  have settled := stands.allSettled quiet
  have opened : StandsBy { σ with scopes := names :: σ.scopes }
      { r with scopes := Scope.of names :: r.scopes } := by
    refine ⟨.cons (holdsJust_of names) stands.scopes, fun name => ?_, settled, stands.inFunction,
      stands.inClass⟩
    refine iff_of_false (fun held => ?_) (quiet ▸ nofun)
    cases (Scope.get?_of_mem held).1
  obtain ⟨names', traces⟩ := inside _ opened
  have closed := traces.stands
  refine ⟨traces.lookups, traces.problems, ?_, fun name => ?_, ?_, closed.inFunction, closed.inClass⟩
  · obtain ⟨scope, Γ, -, rest, same⟩ := List.forall₂_cons_right_iff.mp closed.scopes
    have closed : (r.within names body).scopes = Γ := congrArg List.tail same
    exact closed ▸ rest
  · refine iff_of_false (fun held => ?_) (quiet ▸ nofun)
    change (body _).scopes.tail.head?.bind _ = _ at held
    obtain ⟨scope, first, declared⟩ := Option.bind_eq_some_iff.mp held
    exact closed.settled scope (List.mem_of_mem_head? first) name declared
  · exact fun scope member => closed.settled scope (List.mem_of_mem_tail member)

theorem StandsBy.parameters {construct : Construct} {outer : Surroundings} (names : List Name)
    (before : List String) (stands : StandsBy (Surroundings.standing (⟨construct, before⟩ :: outer)) r) :
    Traces (parameterSites construct outer before names)
      (Surroundings.standing (⟨construct, before ++ names.map (·.text)⟩ :: outer)) r
      (r.parameters names) := by
  induction names generalizing r before with
  | nil =>
    rw [List.map_nil, List.append_nil]
    exact .refl stands
  | cons name rest ih =>
    have first := (stands.declare name).define
    have others := first.trans (ih _ first.stands)
    rw [List.append_assoc] at others
    exact others


/-! ### Class headers

The class that a walk is in bears on nothing that the header of a class does. -/

theorem reportIf_inClass_comm (r : Resolution) (c : ClassContext) (wrong : Bool) (name : Name)
    (cause : ScopeError) :
    { r with inClass := c }.reportIf wrong name cause =
      { r.reportIf wrong name cause with inClass := c } := by
  unfold reportIf
  split <;> rfl

theorem mark_inClass_comm (r : Resolution) (c : ClassContext) (name : String) (status : Status) :
    { r with inClass := c }.mark name status = { r.mark name status with inClass := c } := by
  obtain ⟨scopes, _, _, _, _⟩ := r
  cases scopes <;> rfl

theorem declare_inClass_comm (r : Resolution) (c : ClassContext) (name : Name) :
    { r with inClass := c }.declare name = { r.declare name with inClass := c } := by
  rw [Resolution.declare, mark_inClass_comm, reportIf_inClass_comm]
  rfl

theorem read_inClass_comm (r : Resolution) (c : ClassContext) (name : Name) (id : NodeId) :
    (Expr.variable name id).resolve { r with inClass := c } =
      { (Expr.variable name id).resolve r with inClass := c } := by
  rw [Expr.resolve, reportIf_inClass_comm]
  rfl

/-- The header of a class declares the name, reads the superclass and enters the class. -/
theorem classHeader_none (r : Resolution) (name : Name) :
    r.classHeader name none = { (r.declare name).define name with inClass := .plain } := by
  rw [classHeader, declare_inClass_comm, define, mark_inClass_comm]
  rfl

theorem classHeader_some (r : Resolution) (name parent : Name) (id : NodeId) :
    r.classHeader name (some (.variable parent id)) =
      { (Expr.variable parent id).resolve (((r.declare name).define name).reportIf
          (parent.text = name.text) parent .inheritsFromItself) with inClass := .derived } := by
  unfold classHeader
  rw [declare_inClass_comm, define, mark_inClass_comm]
  dsimp only
  rw [reportIf_inClass_comm, read_inClass_comm]
  exact congrArg (fun r : Resolution => { r with inClass := .derived })
    (read_inClass_comm _ .plain parent id)

theorem StandsBy.entering (stands : StandsBy σ r) (c : ClassContext) :
    StandsBy { σ with inClass := c } { r with inClass := c } :=
  ⟨stands.scopes, stands.underWay, stands.settled, stands.inFunction, rfl⟩

/-- The header of a class adds what its sites say, and the walk is in the class. -/
theorem StandsBy.classHeader (stands : StandsBy around.standing r) (name : Name)
    (superclass : Option Expr) (named : ∀ e ∈ superclass, ∃ parent id, e = .variable parent id) :
    Traces (⟨⟨around, none⟩, .declaration name⟩ ::
        superclassSites (around.declare name.text) name superclass)
      { (around.declare name.text).standing with
        inClass := if superclass.isSome then .derived else .plain }
      r (r.classHeader name superclass) := by
  have declared := (stands.declare name).define
  cases superclass with
  | none =>
    rw [classHeader_none]
    exact declared.to rfl rfl (declared.stands.entering .plain)
  | some e =>
    obtain ⟨parent, id, rfl⟩ := named e rfl
    rw [classHeader_some]
    have tested : Traces [⟨⟨around.declare name.text, none⟩, .inheritance name parent⟩]
        (around.declare name.text).standing ((r.declare name).define name)
        (((r.declare name).define name).reportIf (parent.text = name.text) parent
          .inheritsFromItself) := by
      refine traces_site ?_ (problems_of_offence rfl ?_) (declared.stands.reportIf _ _ _)
      · rw [lookups_reportIf]
        exact (List.append_nil _).symm
      · simp [Site.offence?]
    have read := declared.trans (tested.trans (tested.stands.traces_read parent id))
    exact read.to rfl rfl (read.stands.entering .derived)

end Resolution

end Lox
