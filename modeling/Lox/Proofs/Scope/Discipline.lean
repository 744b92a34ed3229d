import Lox.Proofs.Scope.Walk

/-!
# A walk comes back to where it stood

However a tree is nested and whatever is wrong in it, a walk over it ends in the function, in the class and
among as many scopes as it began in, and in the innermost scope it has only gained names. The bindings that it
finds depend on where it stands alone, and each of them leads to a scope that is open at its occurrence.
-/

namespace Lox

open Resolution

/-! ### Scopes -/

/-- The open scopes after a statement: as many as before, all but the innermost one as they were. That one
has only gained names, whose declarations have ended. -/
structure Resolution.Gains (r r' : Resolution) : Prop where
  depth : r'.scopes.length = r.scopes.length
  around : r'.scopes.tail = r.scopes.tail
  /-- Outside every scope nothing is added. -/
  outside : r.scopes = [] → r'.scopes = []
  kept : ∀ name, (r.innermost? name).isSome → (r'.innermost? name).isSome
  /-- No declaration starts again. -/
  defined : ∀ name, r.innermost? name = some .defined → r'.innermost? name = some .defined
  gained : ∀ name status, r.innermost? name = none → r'.innermost? name = some status →
    status = .defined

theorem Scopes.length_defineAll (Γ : Scopes) (names : List String) :
    (Γ.defineAll names).length = Γ.length := by
  cases Γ <;> rfl

theorem Scopes.tail_defineAll (Γ : Scopes) (names : List String) :
    (Γ.defineAll names).tail = Γ.tail := by
  cases Γ <;> rfl

theorem Scopes.innermost_defineAll (Γ : Scopes) (names : List String) (name : String) :
    (Γ.defineAll names).head?.bind (·.get? name) =
      if Γ ≠ [] ∧ name ∈ names then some .defined else Γ.head?.bind (·.get? name) := by
  cases Γ with
  | nil => rfl
  | cons scope outer =>
    simp only [ne_eq, reduceCtorEq, not_false_eq_true, true_and]
    exact Scope.get?_insertAll scope names name

/-- Names that are defined in the innermost scope are gained. -/
theorem Resolution.gains_of_scopes {r r' : Resolution} {names : List String}
    (scopes : r'.scopes = Scopes.defineAll r.scopes names) : Gains r r' := by
  have status (name : String) : r'.innermost? name =
      if r.scopes ≠ [] ∧ name ∈ names then some .defined else r.innermost? name := by
    rw [innermost?, scopes]
    exact Scopes.innermost_defineAll r.scopes names name
  refine ⟨?_, ?_, fun outside => ?_, fun name held => ?_, fun name held => ?_,
    fun name new unheld held => ?_⟩
  · rw [scopes, Scopes.length_defineAll]
  · rw [scopes, Scopes.tail_defineAll]
  · rw [scopes, outside]
    rfl
  · rw [status]
    split
    · rfl
    · exact held
  · rw [status]
    split
    · rfl
    · exact held
  · rw [status, unheld] at held
    split at held <;> cases held
    rfl

/-! ### Bindings -/

/-- The local look-ups that a walk has made. -/
def Resolution.bindings (r : Resolution) : List Binding := r.lookups.toList.filterMap Lookup.binding?

/-- The binding of an occurrence, if a scope that is open there holds its name. -/
def Occurrence.binding? (o : Occurrence) : Option Binding := o.lookup.binding?

/-- A binding leaves fewer scopes than are open. -/
theorem Occurrence.lt_of_binding? {o : Occurrence} {b : Binding} (bound : o.binding? = some b) :
    b.1 = o.id ∧ b.2 < o.scopes.length := by
  obtain ⟨d, found, rfl⟩ := Option.map_eq_some_iff.mp bound
  exact ⟨rfl, (List.findIdx?_eq_some_iff_findIdx_eq.mp found).1⟩

/-- Wherever the walk stands as at `r`, and whatever has been found before, it appends the bindings of the
occurrences, each of which leads to a scope that is open there, and the same problems. -/
structure Resolution.Appends (occurrences : List Occurrence) (walk : Resolution → Resolution)
    (r : Resolution) : Prop where
  found : ∃ bad : List Diagnostic, ∀ before : Resolution, before.situation = r.situation →
    (walk before).bindings = before.bindings ++ occurrences.filterMap Occurrence.binding? ∧
      (walk before).problems.toList = before.problems.toList ++ bad
  inside : ∀ o ∈ occurrences, ∀ b ∈ o.binding?, b.1 = o.id ∧ b.2 < o.scopes.length

theorem Resolution.Adds.appends {r : Resolution} {σ : Situation} {occurrences : List Occurrence}
    {walk : Resolution → Resolution} (adds : Adds r.situation σ occurrences walk) :
    Appends occurrences walk r := by
  obtain ⟨bad, found⟩ := adds
  refine ⟨⟨bad.toList, fun before same => ?_⟩, fun o _ b => Occurrence.lt_of_binding?⟩
  have walked : walk before = _ := same ▸ found before.lookups before.problems
  rw [walked, bindings, bindings]
  constructor
  · rw [Situation.having, Array.toList_append, List.filterMap_append, List.filterMap_map]
    rfl
  · exact Array.toList_append

/-- Where a walk ends. An expression leaves the scopes, the function and the class around it as they were. A
statement leaves the function and the class, and defines the names that it declares in the innermost scope:
that one only gains names, which are defined when the statement ends, and with no scope open nothing is
added. Either way the bindings of the occurrences, and problems, are appended to those found before and do
not depend on them, and a binding leaves fewer scopes than are open at its occurrence. This holds of every
tree, whatever is wrong in it, and wherever the walk begins. -/
theorem walks_keep_their_context (r : Resolution) :
    (∀ e : Expr, (e.resolve r).scopes = r.scopes ∧ (e.resolve r).inFunction = r.inFunction ∧
      (e.resolve r).inClass = r.inClass ∧
      Appends (e.occurrences r.situation) (fun r => e.resolve r) r) ∧
    ∀ s : Stmt, (s.resolve r).inFunction = r.inFunction ∧ (s.resolve r).inClass = r.inClass ∧
      (s.resolve r).scopes = Scopes.defineAll r.scopes s.introduced ∧ Gains r (s.resolve r) ∧
      Appends (s.occurrences r.situation) (fun r => s.resolve r) r := by
  constructor
  · intro e
    have adds := e.resolve_adds r.situation
    have same := adds.situation
    exact ⟨congrArg Situation.scopes same, congrArg Situation.inFunction same,
      congrArg Situation.inClass same, adds.appends⟩
  · intro s
    have adds := s.resolve_adds r.situation
    have same := adds.situation
    have scopes := congrArg Situation.scopes same
    exact ⟨congrArg Situation.inFunction same, congrArg Situation.inClass same, scopes,
      gains_of_scopes scopes, adds.appends⟩

/-- The outermost of two scopes is two scopes away from a node in a block, where three are open. -/
example :
    let r : Resolution := { Resolution.start with scopes := [Scope.of [], Scope.of ["a"]] }
    let s : Stmt := .block [.expression (.variable ⟨"a", 1⟩ 7)]
    (s.resolve r).bindings = [(7, 2)] ∧
      (s.occurrences r.situation).map (·.scopes.length) = [3] := by
  decide

end Lox
