import Lox.Proofs.Scope.Scoped
import Lox.Proofs.Scope.Walk

/-!
# A walk without problems

If a walk over a well-formed tree reports nothing, the tree is well-scoped in the scopes in which the walk
came to it. At every statement the declarations of all open scopes have ended, and the scopes hold what
the class around the statement promises: `this` in every class, and `super` one scope further out in a
derived one.
-/

namespace Lox

open Resolution

/-- A walk that has reported nothing and whose look-ups are all among `L`. -/
structure Resolution.Clean (L : List Lookup) (r : Resolution) : Prop where
  problems : r.problems.toList = []
  lookups : ∀ l ∈ r.lookups.toList, l ∈ L

theorem Resolution.Grows.clean {L : List Lookup} {ids : List NodeId} {r r' : Resolution}
    (grows : Grows ids r r') (clean : Clean L r') : Clean L r := by
  obtain ⟨⟨new, added, _⟩, ⟨bad, reported⟩⟩ := grows
  constructor
  · have none := clean.problems
    rw [reported] at none
    exact (List.append_eq_nil_iff.mp none).1
  · intro l member
    apply clean.lookups
    rw [added]
    exact List.mem_append_left _ member

/-! ### Scopes -/

namespace Scopes

variable {Γ : Scopes} {name other : String} {status : Status} {d : Nat}

theorem depth_mark (Γ : Scopes) (status : Status) (distinct : name ≠ other) :
    (Γ.mark name status).depth other = Γ.depth other := by
  cases Γ with
  | nil => rfl
  | cons scope outer =>
    rw [mark, depth_cons, depth_cons, Table.contains_insert]
    simp [distinct]

theorem status?_mark (Γ : Scopes) (status : Status) (distinct : name ≠ other) :
    (Γ.mark name status).status? other = Γ.status? other := by
  cases Γ with
  | nil => rfl
  | cons scope outer => rw [mark, status?_cons, status?_cons, Table.get?_insert_of_ne _ _ distinct]

theorem Holds.mark (held : Γ.Holds other d) (status : Status) (distinct : name ≠ other) :
    (Γ.mark name status).Holds other d := by
  obtain ⟨inside, readable⟩ := held
  constructor
  · rw [depth_mark Γ status distinct]
    exact inside
  · rw [Readable, status?_mark Γ status distinct]
    exact readable

theorem Holds.push (held : Γ.Holds name d) {scope : Scope} (missing : scope.get? name = none) :
    Holds (scope :: Γ) name (d + 1) := by
  obtain ⟨inside, readable⟩ := held
  constructor
  · rw [depth_cons, Table.contains, missing, inside]
    rfl
  · rw [Readable, status?_cons, missing]
    exact readable

/-- No declaration is under way. -/
def Settled (Γ : Scopes) : Prop := ∀ scope ∈ Γ, ∀ name, scope.get? name ≠ some .declared

theorem Settled.status? (settled : Γ.Settled) (name : String) :
    Γ.status? name ≠ some .declared := by
  induction Γ with
  | nil => exact nofun
  | cons scope outer ih =>
    rw [status?_cons]
    cases held : scope.get? name with
    | none => exact ih fun scope' member => settled scope' (List.mem_cons_of_mem _ member)
    | some status =>
      intro same
      exact settled scope List.mem_cons_self name (held.trans same)

/-- While a declaration is under way in the innermost scope, only its name cannot be read. -/
theorem readable_of_settled (settled : Settled Γ.tail)
    (ended : Γ.head?.bind (·.get? name) ≠ some .declared) : Γ.Readable name := by
  cases Γ with
  | nil => exact nofun
  | cons scope outer =>
    rw [Readable, status?_cons]
    have here : scope.get? name ≠ some .declared := ended
    cases held : scope.get? name with
    | none => exact Settled.status? settled name
    | some status =>
      intro same
      exact here (held.trans same)

theorem Settled.mark (settled : Γ.Settled) (name : String) : (Γ.mark name .defined).Settled := by
  cases Γ with
  | nil => exact settled
  | cons scope outer =>
    intro scope' member key
    rcases List.mem_cons.mp member with rfl | member
    · rw [Table.get?_insert]
      split
      · simp
      · exact settled scope List.mem_cons_self key
    · exact settled scope' (List.mem_cons_of_mem _ member) key

theorem tail_mark (Γ : Scopes) (name : String) (status : Status) :
    (Γ.mark name status).tail = Γ.tail := by
  cases Γ <;> rfl

end Scopes

theorem Scope.get?_of_mem {names : List String} {name : String} {status : Status}
    (held : (Scope.of names).get? name = some status) : status = .defined ∧ name ∈ names := by
  rw [Scope.get?_of] at held
  split at held
  · rename_i member
    cases held
    exact ⟨rfl, member⟩
  · cases held

theorem Scopes.Settled.push {Γ : Scopes} (settled : Γ.Settled) (names : List String) :
    Settled (Scope.of names :: Γ) := by
  intro scope member name held
  rcases List.mem_cons.mp member with rfl | member
  · cases (Scope.get?_of_mem held).1
  · exact settled scope member name held

/-- What the class around a place promises of the scopes: `this` is there to be read, and `super` one
scope further out if the class is derived. -/
def ClassContext.Shapes (Γ : Scopes) : ClassContext → Prop
  | .none => True
  | .plain => ∃ d, Γ.Holds Keyword.this.spelling d
  | .derived => ∃ d, Γ.Holds Keyword.this.spelling d ∧ Γ.Holds Keyword.super.spelling (d + 1)

theorem ClassContext.Shapes.mark {Γ : Scopes} {context : ClassContext} {name : String}
    (shapes : context.Shapes Γ) (plain : IsPlain name) (status : Status) :
    context.Shapes (Γ.mark name status) := by
  cases context with
  | none => trivial
  | plain =>
    obtain ⟨d, this⟩ := shapes
    exact ⟨d, this.mark status plain.1⟩
  | derived =>
    obtain ⟨d, this, super⟩ := shapes
    exact ⟨d, this.mark status plain.1, super.mark status plain.2⟩

theorem ClassContext.Shapes.push {Γ : Scopes} {context : ClassContext} {names : List String}
    (shapes : context.Shapes Γ) (plain : ∀ name ∈ names, IsPlain name) :
    context.Shapes (Scope.of names :: Γ) := by
  have missing (keyword : Keyword) (reserved : ¬ IsPlain keyword.spelling) :
      (Scope.of names).get? keyword.spelling = Option.none := by
    cases held : (Scope.of names).get? keyword.spelling with
    | none => rfl
    | some status => exact absurd (plain _ (Scope.get?_of_mem held).2) reserved
  have this := missing .this fun plain => plain.1 rfl
  have super := missing .super fun plain => plain.2 rfl
  cases context with
  | none => trivial
  | plain =>
    obtain ⟨d, held⟩ := shapes
    exact ⟨d + 1, held.push this⟩
  | derived =>
    obtain ⟨d, held, held'⟩ := shapes
    exact ⟨d + 1, held.push this, held'.push super⟩

/-! ### Expressions -/

/-- A walk that has come to an expression in the scopes `Γ`. -/
structure Resolution.Stands (Γ : Scopes) (r : Resolution) : Prop where
  scopes : r.scopes = Γ
  settled : Scopes.Settled Γ.tail
  shapes : r.inClass.Shapes Γ

theorem Resolution.Stands.stays {Γ : Scopes} {r r' : Resolution} (stands : Stands Γ r)
    (stays : Stays r r') : Stands Γ r' where
  scopes := stays.scopes.trans stands.scopes
  settled := stands.settled
  shapes := by
    rw [stays.inClass]
    exact stands.shapes

/-- A test without a problem has come out right. -/
theorem Resolution.Clean.not_of_reportIf {L : List Lookup} {r : Resolution} {wrong : Bool}
    {name : Name} {cause : ScopeError} (clean : Clean L (r.reportIf wrong name cause)) :
    wrong = false := by
  cases wrong with
  | false => rfl
  | true =>
    have none := clean.problems
    rw [reportIf, if_pos rfl, report, Array.toList_push] at none
    simp at none

theorem Resolution.Clean.not_report {L : List Lookup} {r : Resolution} {line : Nat}
    {lexeme : String} {cause : ScopeError} : ¬ Clean L (r.report line lexeme cause) := by
  intro clean
  have none := clean.problems
  rw [report, Array.toList_push] at none
  simp at none

/-- The look-up of a name is among those that have been made. -/
theorem Resolution.Clean.found {L : List Lookup} {r : Resolution} {id : NodeId} {name : String}
    (clean : Clean L (r.lookUp id name)) : ⟨id, name, Scopes.depth r.scopes name⟩ ∈ L := by
  apply clean.lookups
  rw [lookUp, Array.toList_push]
  exact List.mem_append_right _ List.mem_cons_self

section

variable {L : List Lookup}

theorem Expr.scoped_of_resolve_variable {Γ : Scopes} {r : Resolution} {name : Name} {id : NodeId}
    (plain : IsPlain name.text) (scopes : r.scopes = Γ) (settled : Scopes.Settled Γ.tail)
    (clean : Clean L ((Expr.variable name id).resolve r)) :
    (Expr.variable name id).Scoped L Γ := by
  rw [Expr.resolve] at clean
  rw [Expr.Scoped]
  have ended := ((grows_lookUp _ _ _).clean clean).not_of_reportIf
  have found := clean.found
  rw [reportIf_scopes, scopes] at found
  rw [innermost?, scopes] at ended
  exact ⟨plain, Scopes.readable_of_settled settled (of_decide_eq_false ended), found⟩

theorem Expr.scoped_of_resolve_this {Γ : Scopes} {r : Resolution} {keyword : Name} {id : NodeId}
    (spelt : keyword.text = Keyword.this.spelling) (stands : Stands Γ r)
    (clean : Clean L ((Expr.this keyword id).resolve r)) :
    (Expr.this keyword id).Scoped L Γ := by
  rw [Expr.resolve] at clean
  rw [Expr.Scoped]
  have shapes := stands.shapes
  -- outside a class the walk would have reported the keyword
  have held : ∃ d, Scopes.Holds Γ Keyword.this.spelling d := by
    cases context : r.inClass with
    | none =>
      rw [context] at clean
      exact absurd clean Clean.not_report
    | plain =>
      rw [context] at shapes
      exact shapes
    | derived =>
      rw [context] at shapes
      obtain ⟨d, this, _⟩ := shapes
      exact ⟨d, this⟩
  obtain ⟨d, held⟩ := held
  refine ⟨spelt, d, held, ?_⟩
  split at clean
  · exact absurd clean Clean.not_report
  · have found := clean.found
    rw [stands.scopes, spelt, held.1] at found
    rw [spelt]
    exact found

theorem Expr.scoped_of_resolve_super {Γ : Scopes} {r : Resolution} {keyword method : Name}
    {id : NodeId} (spelt : keyword.text = Keyword.super.spelling) (stands : Stands Γ r)
    (clean : Clean L ((Expr.super keyword method id).resolve r)) :
    (Expr.super keyword method id).Scoped L Γ := by
  rw [Expr.resolve] at clean
  rw [Expr.Scoped]
  have shapes := stands.shapes
  cases context : r.inClass with
  | none =>
    rw [context] at clean
    exact absurd ((grows_lookUp _ _ _).clean clean) Clean.not_report
  | plain =>
    rw [context] at clean
    exact absurd ((grows_lookUp _ _ _).clean clean) Clean.not_report
  | derived =>
    rw [context] at clean shapes
    obtain ⟨d, this, super⟩ := shapes
    refine ⟨spelt, d, this, super, ?_⟩
    have found := clean.found
    rw [stands.scopes, spelt, super.1] at found
    rw [spelt]
    exact found

mutual

theorem Expr.scoped_of_resolve {Γ : Scopes} {r : Resolution} (e : Expr)
    (wellFormed : e.WellFormed) (stands : Stands Γ r) (clean : Clean L (e.resolve r)) :
    e.Scoped L Γ := by
  match e with
  | .literal _ =>
    rw [Expr.Scoped]
    trivial
  | .grouping inner =>
    rw [Expr.WellFormed] at wellFormed
    rw [Expr.resolve] at clean
    rw [Expr.Scoped]
    exact inner.scoped_of_resolve wellFormed stands clean
  | .unary operator right =>
    rw [Expr.WellFormed] at wellFormed
    rw [Expr.resolve] at clean
    rw [Expr.Scoped]
    exact ⟨wellFormed.1, right.scoped_of_resolve wellFormed.2 stands clean⟩
  | .binary left operator right =>
    rw [Expr.WellFormed] at wellFormed
    rw [Expr.resolve] at clean
    rw [Expr.Scoped]
    obtain ⟨valid, first, second⟩ := wellFormed
    -- nothing was reported on the left side, or it would still stand after the right one
    have before := (right.resolve_grows _).clean clean
    exact ⟨valid, left.scoped_of_resolve first stands before,
      right.scoped_of_resolve second (stands.stays (left.resolve_stays r)) clean⟩
  | .logical left operator right =>
    rw [Expr.WellFormed] at wellFormed
    rw [Expr.resolve] at clean
    rw [Expr.Scoped]
    have before := (right.resolve_grows _).clean clean
    exact ⟨left.scoped_of_resolve wellFormed.1 stands before,
      right.scoped_of_resolve wellFormed.2 (stands.stays (left.resolve_stays r)) clean⟩
  | .variable name id =>
    rw [Expr.WellFormed] at wellFormed
    exact Expr.scoped_of_resolve_variable wellFormed stands.scopes stands.settled clean
  | .assign name value id =>
    rw [Expr.WellFormed] at wellFormed
    rw [Expr.resolve] at clean
    rw [Expr.Scoped]
    have before := (grows_lookUp _ _ _).clean clean
    -- the name is looked up after the value, in the same scopes
    have found := clean.found
    rw [(value.resolve_stays r).scopes, stands.scopes] at found
    exact ⟨wellFormed.1, value.scoped_of_resolve wellFormed.2 stands before, found⟩
  | .call callee _ arguments =>
    rw [Expr.WellFormed] at wellFormed
    rw [Expr.resolve] at clean
    rw [Expr.Scoped]
    have before := (resolveExpressions_grows _ arguments).clean clean
    exact ⟨callee.scoped_of_resolve wellFormed.1 stands before,
      expressionsScoped_of_resolve arguments wellFormed.2
        (stands.stays (callee.resolve_stays r)) clean⟩
  | .get object _ =>
    rw [Expr.WellFormed] at wellFormed
    rw [Expr.resolve] at clean
    rw [Expr.Scoped]
    exact object.scoped_of_resolve wellFormed stands clean
  | .set object _ value =>
    rw [Expr.WellFormed] at wellFormed
    rw [Expr.resolve] at clean
    rw [Expr.Scoped]
    -- here the walk takes the value first
    have before := (object.resolve_grows _).clean clean
    exact ⟨value.scoped_of_resolve wellFormed.1 stands before,
      object.scoped_of_resolve wellFormed.2 (stands.stays (value.resolve_stays r)) clean⟩
  | .this keyword id =>
    rw [Expr.WellFormed] at wellFormed
    exact Expr.scoped_of_resolve_this wellFormed stands clean
  | .super keyword method id =>
    rw [Expr.WellFormed] at wellFormed
    exact Expr.scoped_of_resolve_super wellFormed stands clean

theorem expressionsScoped_of_resolve {Γ : Scopes} {r : Resolution} (expressions : List Expr)
    (wellFormed : expressionsWellFormed expressions) (stands : Stands Γ r)
    (clean : Clean L (resolveExpressions r expressions)) : expressionsScoped L Γ expressions := by
  match expressions with
  | [] =>
    rw [expressionsScoped]
    trivial
  | e :: rest =>
    rw [expressionsWellFormed] at wellFormed
    rw [resolveExpressions] at clean
    rw [expressionsScoped]
    have before := (resolveExpressions_grows _ rest).clean clean
    exact ⟨e.scoped_of_resolve wellFormed.1 stands before,
      expressionsScoped_of_resolve rest wellFormed.2 (stands.stays (e.resolve_stays r)) clean⟩

end

/-! ### Declarations -/

theorem Resolution.scopes_mark (r : Resolution) (name : String) (status : Status) :
    (r.mark name status).scopes = Scopes.mark r.scopes name status := by
  obtain ⟨scopes, _, _, _, _⟩ := r
  cases scopes <;> rfl

theorem Resolution.inClass_mark (r : Resolution) (name : String) (status : Status) :
    (r.mark name status).inClass = r.inClass := by
  obtain ⟨scopes, _, _, _, _⟩ := r
  cases scopes <;> rfl

theorem Resolution.scopes_declare (r : Resolution) (name : Name) :
    (r.declare name).scopes = Scopes.mark r.scopes name.text .declared := by
  rw [declare, reportIf_scopes, scopes_mark]

theorem Resolution.inClass_declare (r : Resolution) (name : Name) :
    (r.declare name).inClass = r.inClass := by
  rw [declare, reportIf_inClass, inClass_mark]

/-- A name is declared and defined at once: the scope holds it as if it had been defined alone. -/
theorem Resolution.scopes_define_declare (r : Resolution) (name : Name) :
    ((r.declare name).define name).scopes = Scopes.mark r.scopes name.text .defined := by
  rw [define, scopes_mark, scopes_declare, Scopes.mark_mark]

theorem Resolution.inClass_define_declare (r : Resolution) (name : Name) :
    ((r.declare name).define name).inClass = r.inClass := by
  rw [define, inClass_mark, inClass_declare]

theorem Resolution.Clean.declarable {r : Resolution} {name : Name}
    (clean : Clean L (r.declare name)) (plain : IsPlain name.text) :
    Scopes.Declarable r.scopes name.text := by
  have new := clean.not_of_reportIf
  rw [innermost?] at new
  exact ⟨plain, Option.isSome_eq_false_iff.mp new |> Option.isNone_iff_eq_none.mp⟩

/-- A walk that has come to a statement in the scopes `Γ`, in which no declaration is under way. -/
structure Resolution.Rests (Γ : Scopes) (r : Resolution) : Prop where
  scopes : r.scopes = Γ
  settled : Γ.Settled
  shapes : r.inClass.Shapes Γ

namespace Resolution.Rests

variable {Γ : Scopes} {r r' : Resolution}

theorem stands (rests : Rests Γ r) : Stands Γ r :=
  ⟨rests.scopes, fun scope member => rests.settled scope (List.mem_of_mem_tail member),
    rests.shapes⟩

theorem stays (rests : Rests Γ r) (stays : Stays r r') : Rests Γ r' where
  scopes := stays.scopes.trans rests.scopes
  settled := rests.settled
  shapes := by
    rw [stays.inClass]
    exact rests.shapes

/-- The walk after a name has been declared and defined. -/
theorem mark (rests : Rests Γ r) {name : String} (plain : IsPlain name)
    (scopes : r'.scopes = Γ.mark name .defined) (inClass : r'.inClass = r.inClass) :
    Rests (Γ.mark name .defined) r' where
  scopes := scopes
  settled := rests.settled.mark name
  shapes := by
    rw [inClass]
    exact rests.shapes.mark plain .defined

/-- The walk after a statement. -/
theorem after (rests : Rests Γ r) {s : Stmt} (wellFormed : s.WellFormed)
    (scopes : r'.scopes = s.after Γ) (inClass : r'.inClass = r.inClass) :
    Rests (s.after Γ) r' := by
  rw [Stmt.after] at scopes ⊢
  cases declared : s.declared? with
  | none =>
    rw [declared] at scopes
    exact ⟨scopes, rests.settled, inClass ▸ rests.shapes⟩
  | some name =>
    rw [declared] at scopes
    refine rests.mark ?_ scopes inClass
    cases s <;> cases declared <;> rw [Stmt.WellFormed] at wellFormed <;> exact wellFormed.1

end Resolution.Rests

/-- The parameters of a function fill the scope of its body. -/
theorem Resolution.parameters_scopes {Γ : Scopes} {scope : Scope} (r : Resolution)
    (names : List Name) (scopes : r.scopes = scope :: Γ) (clean : Clean L (r.parameters names)) :
    (r.parameters names).scopes =
        scope.insertAll ((names.map (·.text)).map (·, .defined)) :: Γ ∧
      (r.parameters names).inClass = r.inClass ∧ (names.map (·.text)).Nodup ∧
      ∀ p ∈ names, scope.get? p.text = none := by
  induction names generalizing r scope with
  | nil => exact ⟨scopes, rfl, List.nodup_nil, nofun⟩
  | cons name rest ih =>
    let next := (r.declare name).define name
    have first : Clean L next := (grows_parameters next rest).clean clean
    have new := ((grows_define _ name).clean first).not_of_reportIf
    rw [innermost?, scopes] at new
    have unheld : scope.get? name.text = none :=
      Option.isNone_iff_eq_none.mp (Option.isSome_eq_false_iff.mp new)
    have opened : next.scopes = scope.insert name.text .defined :: Γ := by
      rw [scopes_define_declare, scopes]
      rfl
    obtain ⟨filled, inClass, distinct, absent⟩ := ih next opened clean
    refine ⟨filled, ?_, ?_, ?_⟩
    · exact inClass.trans (inClass_define_declare r name)
    · rw [List.map_cons, List.nodup_cons]
      -- a later parameter with this name would have found it in the scope
      refine ⟨fun member => ?_, distinct⟩
      obtain ⟨p, declared, same⟩ := List.mem_map.mp member
      have held := absent p declared
      rw [same, Table.get?_insert_self] at held
      cases held
    · intro p member
      rcases List.mem_cons.mp member with rfl | member
      · exact unheld
      · have other := absent p member
        rw [Table.get?_insert] at other
        split at other
        · cases other
        · exact other

/-! ### Statements -/

/-- What a walk without problems tells about a tree that it has come to in the scopes `Γ`: the tree is
well-scoped there, and the walk goes on in the scopes `Γ'` and in the same class. -/
structure Resolution.Passes (P : Prop) (Γ' : Scopes) (r r' : Resolution) : Prop where
  code : P
  scopes : r'.scopes = Γ'
  inClass : r'.inClass = r.inClass

theorem Resolution.Rests.passes {Γ : Scopes} {r : Resolution} {e : Expr} (rests : Rests Γ r)
    (wellFormed : e.WellFormed) (clean : Clean L (e.resolve r)) :
    Passes (e.Scoped L Γ) Γ r (e.resolve r) where
  code := e.scoped_of_resolve wellFormed rests.stands clean
  scopes := (e.resolve_stays r).scopes.trans rests.scopes
  inClass := (e.resolve_stays r).inClass

theorem Resolution.Rests.passed {Γ : Scopes} {r r' : Resolution} {P : Prop}
    (rests : Rests Γ r) (passes : Passes P Γ r r') : Rests Γ r' :=
  ⟨passes.scopes, rests.settled, passes.inClass ▸ rests.shapes⟩

/-- A walk that has opened a scope, in which the class around promises the same as outside or more. -/
theorem Resolution.Rests.opened {Γ : Scopes} {names : List String} {r : Resolution}
    (scopes : r.scopes = Scope.of names :: Γ) (settled : Γ.Settled)
    (shapes : r.inClass.Shapes (Scope.of names :: Γ)) : Rests (Scope.of names :: Γ) r :=
  ⟨scopes, settled.push names, shapes⟩

theorem Resolution.Stands.optional {Γ : Scopes} {r : Resolution} (stands : Stands Γ r)
    (value : Option Expr) (wellFormed : ∀ e ∈ value, e.WellFormed)
    (clean : Clean L (r.optional value)) :
    Passes (∀ e ∈ value, e.Scoped L Γ) Γ r (r.optional value) := by
  cases value with
  | none => exact ⟨nofun, stands.scopes, rfl⟩
  | some e =>
    have stays := e.resolve_stays r
    refine ⟨fun e' same => ?_, stays.scopes.trans stands.scopes, stays.inClass⟩
    cases same
    exact e.scoped_of_resolve (wellFormed e rfl) stands clean

/-- The name of a variable is declared while its initializer is walked over, and defined from then on. -/
theorem Resolution.Rests.variable {Γ : Scopes} {r : Resolution} (rests : Rests Γ r) {name : Name}
    (plain : IsPlain name.text) (initializer : Option Expr)
    (wellFormed : ∀ e ∈ initializer, e.WellFormed)
    (clean : Clean L (((r.declare name).optional initializer).define name)) :
    Passes
      (Γ.Declarable name.text ∧ ∀ e ∈ initializer, e.Scoped L (Γ.mark name.text .declared))
      (Γ.mark name.text .defined) r (((r.declare name).optional initializer).define name) := by
  have declared := (grows_define _ name).clean clean
  have declarable := ((optional_grows _ initializer).clean declared).declarable plain
  have scopes : (r.declare name).scopes = Γ.mark name.text .declared := by
    rw [scopes_declare, rests.scopes]
  have stands : Stands (Γ.mark name.text .declared) (r.declare name) := by
    refine ⟨scopes, ?_, ?_⟩
    · rw [Scopes.tail_mark]
      exact rests.stands.settled
    · rw [inClass_declare]
      exact rests.shapes.mark plain .declared
  have inside := stands.optional initializer wellFormed declared
  refine ⟨⟨rests.scopes ▸ declarable, inside.code⟩, ?_, ?_⟩
  · rw [define, scopes_mark, inside.scopes, Scopes.mark_mark]
  · rw [define, inClass_mark, inside.inClass, inClass_declare]

theorem Resolution.Rests.returning {Γ : Scopes} {r : Resolution} (rests : Rests Γ r) (line : Nat)
    (value : Option Expr) (wellFormed : ∀ e ∈ value, e.WellFormed)
    (clean : Clean L (r.returning line value)) :
    Passes (∀ e ∈ value, e.Scoped L Γ) Γ r (r.returning line value) := by
  let keyword : Name := ⟨Keyword.return.spelling, line⟩
  let outside := r.reportIf (r.inFunction = .none) keyword .returnAtTopLevel
  have first : Stays r outside := reportIf_stays r _ _ _
  cases value with
  | none => exact ⟨nofun, first.scopes.trans rests.scopes, first.inClass⟩
  | some e =>
    let tested :=
      outside.reportIf (outside.inFunction = .initializer) keyword .returnValueFromInitializer
    have both : Stays r tested := first.trans (reportIf_stays outside _ _ _)
    have inside := (rests.stays both).passes (wellFormed e rfl) clean
    refine ⟨fun e' found => ?_, inside.scopes, inside.inClass.trans both.inClass⟩
    cases found
    exact inside.code

/-- The name of a class is declared and defined before its superclass is looked up, which has another
name and so is found where it was before. -/
theorem Resolution.Rests.classHeader {Γ : Scopes} {r : Resolution} (rests : Rests Γ r)
    {name : Name} {superclass : Option Expr} (plain : IsPlain name.text)
    (wellFormed : ∀ e ∈ superclass, e.IsPlainName)
    (clean : Clean L (r.classHeader name superclass)) :
    (Γ.Declarable name.text ∧ ∀ e ∈ superclass, e.Scoped L Γ) ∧
      (r.classHeader name superclass).scopes = Γ.mark name.text .defined ∧
      (r.classHeader name superclass).inClass = if superclass.isSome then .derived else .plain := by
  let entered : Resolution := { r with inClass := .plain }
  let named := (entered.declare name).define name
  have scopes : named.scopes = Γ.mark name.text .defined := by
    rw [scopes_define_declare]
    exact congrArg (Scopes.mark · name.text .defined) rests.scopes
  have declarable (clean : Clean L named) : Γ.Declarable name.text := by
    have new := ((grows_define _ name).clean clean).declarable plain
    rwa [show entered.scopes = Γ from rests.scopes] at new
  cases superclass with
  | none =>
    exact ⟨⟨declarable clean, nofun⟩, scopes, inClass_define_declare entered name⟩
  | some parent =>
    cases parent
    case «variable» parentName id =>
      have parentPlain : IsPlain parentName.text := wellFormed _ rfl
      let tested := named.reportIf (parentName.text = name.text) parentName .inheritsFromItself
      let derived : Resolution := { tested with inClass := .derived }
      have before : Clean L derived :=
        ((Expr.variable parentName id).resolve_grows derived).clean clean
      have before : Clean L tested := ⟨before.problems, before.lookups⟩
      -- the two names differ, so marking one does not touch the other
      have distinct : name.text ≠ parentName.text := by
        intro same
        exact absurd same.symm (of_decide_eq_false before.not_of_reportIf)
      have around : tested.scopes = Γ.mark name.text .defined :=
        (reportIf_scopes named _ _ _).trans scopes
      have looked : (Expr.variable parentName id).Scoped L (Γ.mark name.text .defined) :=
        Expr.scoped_of_resolve_variable (r := derived) parentPlain around
          (fun scope member => (rests.settled.mark name.text) scope (List.mem_of_mem_tail member))
          clean
      have reported : Grows [] named tested := grows_reportIf named _ _ _
      refine ⟨⟨declarable (reported.clean before), fun e same => ?_⟩, ?_, ?_⟩
      · cases same
        rw [Expr.Scoped] at looked ⊢
        obtain ⟨_, readable, found⟩ := looked
        rw [Scopes.Readable, Scopes.status?_mark Γ _ distinct] at readable
        rw [Scopes.depth_mark Γ _ distinct] at found
        exact ⟨parentPlain, readable, found⟩
      · exact ((Expr.variable parentName id).resolve_stays derived).scopes.trans around
      · exact ((Expr.variable parentName id).resolve_stays derived).inClass
    all_goals exact (wellFormed _ rfl).elim

/-- The methods of a class are walked over in a scope for `this`, inside one for `super` if the class is
derived, and both are closed after them. -/
theorem Resolution.Rests.classOpened {Γ : Scopes} {r : Resolution} (rests : Rests Γ r)
    {name : Name} {superclass : Option Expr} (plain : IsPlain name.text)
    (wellFormed : ∀ e ∈ superclass, e.IsPlainName) (methods : List FunctionDecl)
    (clean : Clean L ((Stmt.class_ name superclass methods).resolve r)) :
    let Γ' := Scope.of [Keyword.this.spelling] ::
      (Γ.mark name.text .defined).ofMethods superclass.isSome
    (Γ.Declarable name.text ∧ ∀ e ∈ superclass, e.Scoped L Γ) ∧
      ∃ inner, Rests Γ' inner ∧ Clean L (resolveMethods inner methods) ∧
        ((resolveMethods inner methods).scopes = Γ' →
          ((Stmt.class_ name superclass methods).resolve r).scopes = Γ.mark name.text .defined ∧
            ((Stmt.class_ name superclass methods).resolve r).inClass = r.inClass) := by
  have settled := rests.settled.mark name.text
  have body (names : List String) (r : Resolution) :
      Grows (methodIds methods) r (r.within names fun r => resolveMethods r methods) :=
    .within fun r => resolveMethods_grows r methods
  cases superclass with
  | none =>
    simp only [Stmt.resolve] at clean ⊢
    have walked : Clean L ((r.classHeader name none).within [Keyword.this.spelling]
      fun r => resolveMethods r methods) := ⟨clean.problems, clean.lookups⟩
    obtain ⟨code, scopes, inClass⟩ := rests.classHeader plain wellFormed ((body _ _).clean walked)
    let inner : Resolution := { r.classHeader name none with
      scopes := Scope.of [Keyword.this.spelling] :: (r.classHeader name none).scopes }
    have opened : Rests (Scope.of [Keyword.this.spelling] :: Γ.mark name.text .defined) inner := by
      refine .opened (congrArg _ scopes) settled ?_
      rw [show inner.inClass = _ from inClass]
      exact ⟨0, Scopes.holds_of _ _⟩
    refine ⟨code, inner, opened, ⟨clean.problems, clean.lookups⟩, fun closed => ?_⟩
    exact ⟨congrArg List.tail closed, trivial⟩
  | some parent =>
    simp only [Stmt.resolve] at clean ⊢
    have walked : Clean L ((r.classHeader name (some parent)).within [Keyword.super.spelling]
        fun r => r.within [Keyword.this.spelling] fun r => resolveMethods r methods) :=
      ⟨clean.problems, clean.lookups⟩
    obtain ⟨code, scopes, inClass⟩ :=
      rests.classHeader plain wellFormed ((Grows.within (body _)).clean walked)
    let inner : Resolution := { r.classHeader name (some parent) with
      scopes := Scope.of [Keyword.this.spelling] :: Scope.of [Keyword.super.spelling] ::
        (r.classHeader name (some parent)).scopes }
    have opened : Rests (Scope.of [Keyword.this.spelling] :: Scope.of [Keyword.super.spelling] ::
        Γ.mark name.text .defined) inner := by
      refine .opened (congrArg _ (congrArg _ scopes)) (settled.push _) ?_
      rw [show inner.inClass = _ from inClass]
      exact ⟨0, Scopes.holds_of _ _, (Scopes.holds_of _ _).push rfl⟩
    refine ⟨code, inner, opened, ⟨clean.problems, clean.lookups⟩, fun closed => ?_⟩
    exact ⟨congrArg (fun scopes => scopes.tail.tail) closed, trivial⟩

mutual

theorem Stmt.passes {Γ : Scopes} {r : Resolution} (s : Stmt) (wellFormed : s.WellFormed)
    (rests : Rests Γ r) (clean : Clean L (s.resolve r)) :
    Passes (s.Scoped L Γ) (s.after Γ) r (s.resolve r) := by
  match s with
  | .expression value | .print value =>
    rw [Stmt.WellFormed] at wellFormed
    rw [Stmt.resolve] at clean ⊢
    rw [Stmt.Scoped]
    exact rests.passes wellFormed clean
  | .var name initializer =>
    rw [Stmt.WellFormed] at wellFormed
    rw [Stmt.resolve] at clean ⊢
    rw [Stmt.Scoped]
    exact rests.variable wellFormed.1 initializer wellFormed.2 clean
  | .block body =>
    rw [Stmt.WellFormed] at wellFormed
    rw [Stmt.resolve] at clean ⊢
    rw [Stmt.Scoped]
    let inner : Resolution := { r with scopes := Scope.of [] :: r.scopes }
    have opened : Rests (Scope.of [] :: Γ) inner :=
      .opened (congrArg _ rests.scopes) rests.settled (rests.shapes.push nofun)
    have inside := statementsPass body wellFormed opened ⟨clean.problems, clean.lookups⟩
    exact ⟨inside.1, inside.2.1, inside.2.2⟩
  | .ifElse condition thenBranch none =>
    rw [Stmt.WellFormed] at wellFormed
    rw [Stmt.resolve] at clean ⊢
    rw [Stmt.Scoped, Stmt.after_eq_self rfl]
    obtain ⟨first, second, silent⟩ := wellFormed
    have tested := rests.passes first ((thenBranch.resolve_grows _).clean clean)
    have chosen := thenBranch.passes second (rests.passed tested) clean
    rw [Stmt.after_eq_self silent] at chosen
    exact ⟨⟨tested.code, chosen.code, silent⟩, chosen.scopes, chosen.inClass.trans tested.inClass⟩
  | .ifElse condition thenBranch (some elseBranch) =>
    rw [Stmt.WellFormed] at wellFormed
    rw [Stmt.resolve] at clean ⊢
    rw [Stmt.Scoped, Stmt.after_eq_self rfl]
    obtain ⟨first, ⟨second, silent⟩, third, silent'⟩ := wellFormed
    -- no branch declares anything, so both stand in the scopes of the condition
    have before := (elseBranch.resolve_grows _).clean clean
    have tested := rests.passes first ((thenBranch.resolve_grows _).clean before)
    have chosen := thenBranch.passes second (rests.passed tested) before
    rw [Stmt.after_eq_self silent] at chosen
    have other := elseBranch.passes third ((rests.passed tested).passed chosen) clean
    rw [Stmt.after_eq_self silent'] at other
    exact ⟨⟨tested.code, ⟨chosen.code, silent⟩, other.code, silent'⟩, other.scopes,
      other.inClass.trans (chosen.inClass.trans tested.inClass)⟩
  | .while condition body =>
    rw [Stmt.WellFormed] at wellFormed
    rw [Stmt.resolve] at clean ⊢
    rw [Stmt.Scoped, Stmt.after_eq_self rfl]
    obtain ⟨first, second, silent⟩ := wellFormed
    have tested := rests.passes first ((body.resolve_grows _).clean clean)
    have looped := body.passes second (rests.passed tested) clean
    rw [Stmt.after_eq_self silent] at looped
    exact ⟨⟨tested.code, looped.code, silent⟩, looped.scopes, looped.inClass.trans tested.inClass⟩
  | .function d =>
    rw [Stmt.WellFormed] at wellFormed
    rw [Stmt.resolve] at clean ⊢
    rw [Stmt.Scoped]
    obtain ⟨plain, wellFormed⟩ := wellFormed
    let named := (r.declare d.name).define d.name
    have before : Clean L named := (d.resolve_grows _ .function).clean clean
    have declarable := ((grows_define _ d.name).clean before).declarable plain
    have scopes : named.scopes = Γ.mark d.name.text .defined := by
      rw [scopes_define_declare, rests.scopes]
    have inClass : named.inClass = r.inClass := inClass_define_declare r d.name
    have inside := d.passes .function wellFormed (rests.mark plain scopes inClass) clean
    exact ⟨⟨rests.scopes ▸ declarable, inside.code⟩, inside.scopes, inside.inClass.trans inClass⟩
  | .return line value =>
    rw [Stmt.WellFormed] at wellFormed
    rw [Stmt.resolve] at clean ⊢
    rw [Stmt.Scoped]
    exact rests.returning line value wellFormed clean
  | .class_ name superclass methods =>
    rw [Stmt.WellFormed] at wellFormed
    rw [Stmt.Scoped]
    obtain ⟨plain, named, wellFormed⟩ := wellFormed
    obtain ⟨header, inner, opened, walked, closed⟩ :=
      rests.classOpened plain named methods clean
    have inside := methodsPass methods wellFormed opened walked
    obtain ⟨scopes, inClass⟩ := closed inside.scopes
    exact ⟨⟨header.1, header.2, inside.code⟩, scopes, inClass⟩

theorem statementsPass {Γ : Scopes} {r : Resolution} (statements : List Stmt)
    (wellFormed : statementsWellFormed statements) (rests : Rests Γ r)
    (clean : Clean L (resolveStatements r statements)) :
    statementsScoped L Γ statements ∧ (resolveStatements r statements).scopes.tail = Γ.tail ∧
      (resolveStatements r statements).inClass = r.inClass := by
  match statements with
  | [] =>
    rw [statementsScoped]
    exact ⟨trivial, congrArg _ rests.scopes, rfl⟩
  | s :: rest =>
    rw [statementsWellFormed] at wellFormed
    rw [resolveStatements] at clean ⊢
    rw [statementsScoped]
    -- the rest stands in the scopes that the first statement leaves
    have first := s.passes wellFormed.1 rests ((resolveStatements_grows _ rest).clean clean)
    have others := statementsPass rest wellFormed.2
      (rests.after wellFormed.1 first.scopes first.inClass) clean
    obtain ⟨code, scopes, inClass⟩ := others
    refine ⟨⟨first.code, code⟩, scopes.trans ?_, inClass.trans first.inClass⟩
    rw [Stmt.after]
    split
    · exact Scopes.tail_mark _ _ _
    · rfl

theorem FunctionDecl.passes {Γ : Scopes} {r : Resolution} (d : FunctionDecl)
    (context : FunctionContext) (wellFormed : d.WellFormed) (rests : Rests Γ r)
    (clean : Clean L (d.resolve r context)) :
    Passes (d.Scoped L Γ) Γ r (d.resolve r context) := by
  match d with
  | ⟨name, parameters, body⟩ =>
    rw [FunctionDecl.WellFormed] at wellFormed
    rw [FunctionDecl.resolve] at clean ⊢
    rw [FunctionDecl.Scoped]
    obtain ⟨plain, wellFormed⟩ := wellFormed
    let inner : Resolution :=
      { r with inFunction := context, scopes := Scope.of [] :: r.scopes }
    have walked : Clean L (resolveStatements (inner.parameters parameters) body) :=
      ⟨clean.problems, clean.lookups⟩
    obtain ⟨scopes, inClass, distinct, _⟩ :=
      parameters_scopes inner parameters (congrArg _ rests.scopes)
        ((resolveStatements_grows _ body).clean walked)
    have plain' : ∀ x ∈ parameters.map (·.text), IsPlain x := by
      intro x member
      obtain ⟨p, declared, rfl⟩ := List.mem_map.mp member
      exact plain p declared
    have opened : Rests (Scope.of (parameters.map (·.text)) :: Γ) (inner.parameters parameters) :=
      .opened scopes rests.settled (by
        rw [inClass]
        exact rests.shapes.push plain')
    have inside := statementsPass body wellFormed opened walked
    exact ⟨⟨distinct, plain, inside.1⟩, inside.2.1, inside.2.2.trans inClass⟩

theorem methodsPass {Γ : Scopes} {r : Resolution} (methods : List FunctionDecl)
    (wellFormed : methodsWellFormed methods) (rests : Rests Γ r)
    (clean : Clean L (resolveMethods r methods)) :
    Passes (methodsScoped L Γ methods) Γ r (resolveMethods r methods) := by
  match methods with
  | [] =>
    rw [methodsScoped]
    exact ⟨trivial, rests.scopes, rfl⟩
  | d :: rest =>
    rw [methodsWellFormed] at wellFormed
    rw [resolveMethods] at clean ⊢
    rw [methodsScoped]
    have first := d.passes d.context wellFormed.1 rests ((resolveMethods_grows _ rest).clean clean)
    have others := methodsPass rest wellFormed.2 (rests.passed first) clean
    exact ⟨⟨first.code, others.code⟩, others.scopes, others.inClass.trans first.inClass⟩

end

end

end Lox
